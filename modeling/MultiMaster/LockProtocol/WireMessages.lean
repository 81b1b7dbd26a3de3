import MultiMaster.Foundation.Refinement
import MultiMaster.LockProtocol.WireRelation

/-!
# Sending and receiving over connections

A call that is started over connections is started in the system that delivers whole
messages.  The arrival of bytes stands for the deliveries of the messages that become complete
with them, the acceptance of a connection for nothing.
-/

namespace MultiMaster.LockProtocol

open Foundation NetIO LockTable

variable {topology : Topology} {reliable : Prop} {system : WireSystem} {lock : LockSystem}

/-! ## Messages that are sent -/

theorem requestFields_small {lockServerHost host : CString}
    (small : lockServerHost.length + host.length < 2 ^ 30) (request : PageLockRequest)
    (padding : UInt32) :
    (requestFields lockServerHost host request padding).encodedSize < 2 ^ 31 := by
  have group : remoteLockGroupName.length = 16 := by decide
  have type : remoteLockRequestMessType.length = 15 := by decide
  simp only [MessageFields.encodedSize, requestFields, group, type, length_requestMemory,
    requestSize]
  omega

theorem replyFields_small {lockServerHost host : CString}
    (small : lockServerHost.length + host.length < 2 ^ 30) (reply : PageLockReply) :
    (replyFields lockServerHost host reply).encodedSize < 2 ^ 31 := by
  have group : remoteLockGroupName.length = 16 := by decide
  have type : remoteLockReplyMessType.length = 13 := by decide
  simp only [MessageFields.encodedSize, replyFields, group, type, length_replyMemory, replySize]
  omega

/-- Messages have more bytes than a control block. -/
theorem controlBlockSize_lt_encodedSize (fields : MessageFields) :
    controlBlockSize < fields.encodedSize := by
  rw [MessageFields.encodedSize, controlBlockSize]
  omega

/-- A message to a process whose address is known is staged for that address. -/
theorem Knows.stageMessage {handle : LockHandle} {fields : MessageFields} {address : Address}
    (group : fields.groupName = remoteLockGroupName)
    (knows : Knows handle fields.reciveHostName address) (valid : address.2 ≠ 0)
    (sender : fields.sendHostName = handle.localHostName)
    (configured : handle.Configured fields.messKey) (fits : fields.encodedSize < 2 ^ 32)
    (mess : EventMessage) :
    ∃ encoded, handle.stageMessage (EventMessageHandle.prepareOn mess fields) =
        some (handle, encoded, some address) ∧ encoded.content = fields.wire := by
  have port := knows.port
  rw [← group] at port
  exact EventMessageHandle.stageMessage_prepareOn sender configured knows.ip
    (EventMessageHandle.getPort_of_port? port) valid fits mess

/-- An address by which a process is reached has a port. -/
theorem Knows.valid {handle : LockHandle} {host : HostName} {address : Address}
    (knows : Knows handle host address) (reaches : handle.Reaches remoteLockGroupName host) :
    address.2 ≠ 0 := by
  rcases reaches.port with ⟨port, found, valid⟩
  cases found.symm.trans knows.port
  exact valid

/-- The step of the system that delivers whole messages when a host starts a call. -/
theorem lock_request_eq {handle : LockHandle} {host : HostName} {address : Address}
    (lockServerHost : HostName) (client : lock.clients host = handle)
    (ready : ClientReady lockServerHost host handle) (knows : Knows handle lockServerHost address)
    (short : ShortNames lockServerHost host) (request : PageLockRequest) (padding : UInt32) :
    ∃ encoded,
      handle.stageMessage (EventMessageHandle.prepareOn .clear
        (requestFields lockServerHost host request padding)) =
          some (handle, encoded, some address) ∧
      encoded.content = (requestFields lockServerHost host request padding).wire ∧
      lock.request lockServerHost host request padding =
        ({ lock with
          clients := Function.update lock.clients host handle
          calls := lock.calls ++ [⟨lock.next, host, request⟩]
          network := lock.network ++ [⟨lock.next, lockServerHost,
            (requestFields lockServerHost host request padding).encode⟩]
          next := lock.next + 1 }, .event (.sent ⟨lock.next, host, request⟩)) := by
  rcases Knows.stageMessage rfl knows (knows.valid ready.reaches) ready.name.symm ready.request
    (requestFields_fits short request padding) .clear with ⟨encoded, staged, content⟩
  have sending := transit_eq (requestFields_fits short request padding) content lock.next
    lockServerHost
  refine ⟨encoded, staged, content, ?_⟩
  have sent : LockProtocol.requestPageLock (lock.clients host) lockServerHost request padding =
      some (handle, encoded, some address) := by
    rw [client, LockProtocol.requestPageLock, ← staged]
    simp only [EventMessageHandle.prepareOn, requestFields, length_requestMemory]
  simp only [LockSystem.request, sent, sending]

/-- A staged message is sent: it is in flight to the process that listens at its address. -/
theorem send_wired {nets : HostName → LibeventHandle} {links : List (Link HostName)}
    {flying : Flying HostName Transit} (valid : topology.Valid)
    (wired : Wired transitPost topology.parties topology.listens nets links flying)
    {handle : LockHandle} {mess encoded : EventMessage} {fields : MessageFields}
    {name target : HostName} (among : name ∈ topology.parties)
    (source : fields.sendHostName = name) (member : target ∈ topology.parties)
    (staged : handle.stageMessage mess = some (handle, encoded, some (topology.listens target)))
    (content : encoded.content = fields.wire) (small : fields.encodedSize < 2 ^ 31)
    (ticket : Nat) (connecting : WireSystem.Connecting) :
    ∃ net channel,
      handle.sendMessage (nets name) mess (WireSystem.outcomeOf connecting) =
        some (handle, net, encoded, 1) ∧
      Wired transitPost topology.parties topology.listens (Function.update nets name net) links
        (flying ++ [(channel, ⟨ticket, target, fields.encode⟩)]) ∧
      KeepsAccepted none nets (Function.update nets name net) ∧
      (connecting.1 = true → channel ≠ none) := by
  rcases wired.shown name with ⟨records, showing⟩
  rcases EventMessageHandle.sendMessage_staged staged content small showing connecting.1
    connecting.2 with ⟨net, later, channel, sent, shown, effect⟩
  have positive := controlBlockSize_lt_encodedSize fields
  have length := fields.length_encode
  have sized : 0 < fields.encode.length ∧ fields.encode.length < 2 ^ 31 := by omega
  have named : transitSource ⟨ticket, target, fields.encode⟩ = name := by
    rw [transitSource_encode (by omega), source]
  rcases wired.dispatchEffect showing among named member sized (valid.ports target member) effect
    shown with ⟨wiredNext, kept, lost⟩
  refine ⟨net, _, sent, wiredNext, kept, ?_⟩
  intro connected missing
  rw [lost (Option.map_eq_none_iff.mp missing)] at connected
  cases connected

theorem setParty_messages (host : HostName) (party : Party) :
    (system.setParty host party).messages =
      Function.update system.messages host party.messages := by
  funext other
  by_cases same : other = host
  · subst same
    simp [WireSystem.messages, WireSystem.setParty]
  · simp [WireSystem.messages, WireSystem.setParty, Function.update_of_ne same]

theorem setParty_nets (host : HostName) (party : Party) :
    (system.setParty host party).nets = Function.update system.nets host party.net := by
  funext other
  by_cases same : other = host
  · subst same
    simp [WireSystem.nets, WireSystem.setParty]
  · simp [WireSystem.nets, WireSystem.setParty, Function.update_of_ne same]

/-- A run of the system that delivers whole messages with what is seen of it. -/
abbrev LockLeads (topology : Topology) (reliable : Prop) :=
  (LockSystem.machine topology.lockServerHost).Leads (LockStep topology reliable) seeOutcome

/-- A host starts a call. -/
theorem WireFollows.request (follows : WireFollows topology reliable system lock)
    (valid : topology.Valid) {host : HostName} (member : host ∈ topology.hosts)
    {request : PageLockRequest}
    (alone : ∀ call ∈ system.calls, ¬(call.1 = host ∧ call.2.page = request.page))
    (padding : UInt32) {connecting : WireSystem.Connecting}
    (connects : reliable → connecting.1 = true) :
    ∃ after events next,
      system.request topology.lockServerHost host request padding connecting =
        some (after, events) ∧
      LockLeads topology reliable lock [.request host request padding] events next ∧
      WireFollows topology reliable after next := by
  rcases follows with ⟨flying, agrees, wired, settled, routed⟩
  rcases agrees.exchange with ⟨exchange, mirrors⟩
  have client := agrees.clients host member
  have ready := mirrors.deployed.clients host member
  rw [client] at ready
  rcases lock_request_eq topology.lockServerHost client ready (agrees.hostKnows host member)
    (mirrors.deployed.short host member) request padding with ⟨encoded, staged, content, stepped⟩
  rcases send_wired valid wired (List.mem_cons_of_mem _ member) rfl List.mem_cons_self staged
    content (requestFields_small (valid.small host member) request padding) lock.next connecting with
    ⟨net, channel, sent, wiredNext, kept, connected⟩
  have permitted : Permitted topology.isHost lock (.request host request padding) := by
    refine ⟨member, ?_⟩
    intro call among about
    apply alone (call.host, call.request) _ about
    rw [agrees.calls]
    exact List.mem_map.mpr ⟨call, among, rfl⟩
  have leads : LockLeads topology reliable lock [.request host request padding]
      (seeOutcome (lock.request topology.lockServerHost host request padding).2)
      (lock.request topology.lockServerHost host request padding).1 :=
    Machine.leads_singleton ⟨permitted, fun _ => trivial⟩
  have mirrorsNext := (mirrors.request member request padding).1
  rw [stepped] at leads mirrorsNext
  have wireStep : system.request topology.lockServerHost host request padding connecting =
      some ({ system.setParty host ⟨system.messages host, net⟩ with
        calls := system.calls ++ [(host, request)] }, [.sent host request]) := by
    simp only [EventMessageHandle.prepareOn, requestFields, length_requestMemory] at sent
    simp only [WireSystem.nets, WireSystem.messages] at sent
    simp only [WireSystem.request, WireSystem.requestPageLock, sent]
    rfl
  refine ⟨_, _, _, wireStep, leads, flying ++ [(channel, ⟨lock.next, topology.lockServerHost,
    (requestFields topology.lockServerHost host request padding).encode⟩)], ?_, ?_, ?_,
    routed.concat (fun relies => connected (connects relies)) _⟩
  · change Agrees topology (system.setParty host ⟨system.messages host, net⟩).messages _ _ _ _
    rw [setParty_messages, Function.update_eq_self]
    refine ⟨agrees.server, ?_, agrees.table, ?_, ?_, ⟨_, mirrorsNext⟩, agrees.serverKnows,
      agrees.hostKnows⟩
    · rw [← client, Function.update_eq_self]
      exact agrees.clients
    · simp only [agrees.calls, List.map_append, List.map_singleton]
    · simp only [agrees.network, List.map_append, List.map_singleton]
  · change Wired _ _ _ (system.setParty host ⟨system.messages host, net⟩).nets _ _
    rw [setParty_nets]
    exact wiredNext
  · intro link among
    change Settled (system.setParty host ⟨system.messages host, net⟩).nets link
    rw [setParty_nets]
    exact wired.settled among kept (Option.some_ne_none _).symm (settled link among)

/-- A connection is accepted. -/
theorem WireFollows.accept (follows : WireFollows topology reliable system lock)
    {opener accepter : HostName} {openerId : Nat} {sender : BevInfor}
    (found : (system.nets opener).bevMap.lookup (openerId : Int) = some sender)
    (opened : sender.isListen = false) (address : sender.address = topology.listens accepter)
    (member : accepter ∈ topology.parties)
    (unlinked : ∀ link ∈ system.links, link.channel ≠ (opener, openerId)) (peer : Peer)
    {fresh : Int × Bool} (uncached : fresh.2 = false)
    (other : ∀ party ∈ topology.parties,
      (inetNtoa peer.addr.sinAddr, (peer.addr.sinPort.toNat : Int)) ≠ topology.listens party) :
    ∃ after, system.accept opener openerId accepter peer fresh = some (after, []) ∧
      WireFollows topology reliable after lock := by
  rcases follows with ⟨flying, agrees, wired, settled, routed⟩
  rcases wired.accept found opened address member unlinked peer uncached other with
    ⟨net, accepterId, accepted, wiredNext, kept, blank⟩
  simp only [WireSystem.nets] at accepted
  have wireStep : system.accept opener openerId accepter peer fresh =
      some ({ system.setParty accepter ⟨system.messages accepter, net⟩ with
        links := system.links ++ [⟨opener, openerId, accepter, accepterId, 0⟩] }, []) := by
    simp only [WireSystem.accept, accepted, Option.bind_eq_bind, Option.bind_some]
    rw [if_neg (Int.not_lt.mpr (Int.natCast_nonneg accepterId))]
    rfl
  refine ⟨_, wireStep, flying, ?_, ?_, ?_, routed⟩
  · change Agrees topology (system.setParty accepter ⟨system.messages accepter, net⟩).messages
      _ _ _ _
    rw [setParty_messages, Function.update_eq_self]
    exact agrees
  · change Wired _ _ _ (system.setParty accepter ⟨system.messages accepter, net⟩).nets _ _
    rw [setParty_nets]
    exact wiredNext
  · intro link among
    change Settled (system.setParty accepter ⟨system.messages accepter, net⟩).nets link
    rw [setParty_nets]
    rcases List.mem_append.mp among with old | new
    · exact wired.settled old kept (Option.some_ne_none _).symm (settled link old)
    · rw [List.mem_singleton.mp new]
      exact blank

/-! ## Messages that arrive -/

theorem eraseIdx_middle {Entry : Type} (front : List Entry) (entry : Entry)
    (back : List Entry) : (front ++ entry :: back).eraseIdx front.length = front ++ back := by
  rw [List.eraseIdx_append_of_length_le (Nat.le_refl _), Nat.sub_self]
  rfl

theorem getElem?_middle {Entry : Type} (front : List Entry) (entry : Entry)
    (back : List Entry) : (front ++ entry :: back)[front.length]? = some entry := by
  rw [List.getElem?_append_right (Nat.le_refl _), Nat.sub_self]
  rfl

/-- What the server computes for a request and how it is sent. -/
structure Serving (topology : Topology) (lock : LockSystem) (call : Call HostName PageLockRequest)
    (padding : UInt32) (encoded : EventMessage) : Prop where
  registered : ∃ arg, lock.server.callback requestKey = some (.lockRequestCallback, arg)
  staged : lock.server.stageMessage (EventMessageHandle.prepareOn .clear
    (replyFields topology.lockServerHost call.host
      (checkLockRequest lock.table call.host call.request).2.1)) =
    some (lock.server, encoded, some (topology.listens call.host))
  content : encoded.content = (replyFields topology.lockServerHost call.host
    (checkLockRequest lock.table call.host call.request).2.1).wire

/-- The system that delivers whole messages after a request was answered. -/
def servedSystem (topology : Topology) (lock : LockSystem)
    (call : Call HostName PageLockRequest) (network : List Transit) : LockSystem :=
  { lock with
    table := (checkLockRequest lock.table call.host call.request).1
    network := network ++ [⟨call.ticket, call.host,
      (replyFields topology.lockServerHost call.host
        (checkLockRequest lock.table call.host call.request).2.1).encode⟩] }

/-- A message in flight to the server is a request, which the server answers. -/
theorem lock_deliver_serve
    {exchange : Exchange PageLockHash HostName PageLockRequest PageLockReply}
    (mirrors : Mirrors topology.lockServerHost topology.isHost lock exchange)
    (knows : ∀ host ∈ topology.hosts, Knows lock.server host (topology.listens host))
    {front back : List Transit} {message : Transit}
    (split : lock.network = front ++ message :: back)
    (target : message.host = topology.lockServerHost) (storage : EventMessage) :
    ∃ call padding encoded, call.host ∈ topology.hosts ∧ message.ticket = call.ticket ∧
      message.bytes = (requestFields topology.lockServerHost call.host call.request
        padding).encode ∧
      Serving topology lock call padding encoded ∧
      lock.deliver topology.lockServerHost front.length storage =
        (servedSystem topology lock call (front ++ back),
          .event (.served call (checkLockRequest lock.table call.host call.request).2.1)) := by
  have related := mirrors.network
  rw [split] at related
  rcases forall₂_split related with ⟨_, flight, _, _, _, carries, _⟩
  cases flight with
  | reply call reply =>
      rcases carries with ⟨member, rfl⟩
      exact absurd (target ▸ member) mirrors.deployed.apart
  | request call =>
      rcases carries with ⟨member, padding, rfl⟩
      have ready := mirrors.deployed.server
      have short := mirrors.deployed.short call.host member
      have fits := requestFields_fits short call.request padding
      have known := knows call.host member
      rcases Knows.stageMessage rfl known (known.valid (ready.reaches call.host member))
        ready.name.symm ready.reply
        (replyFields_fits short (checkLockRequest lock.table call.host call.request).2.1)
        .clear with ⟨encoded, staged, content⟩
      refine ⟨call, padding, encoded, member, rfl, rfl, ⟨ready.registered, staged, content⟩, ?_⟩
      rcases ready.registered with ⟨arg, registered⟩
      have handled := EventMessageHandle.tryRunCallback_registered
        (MessageFields.decoded_received _ fits).key?_eq registered storage
      rcases lockRequestCallback_eq ready.name ready.reply (ready.reaches call.host member) short
        lock.table call.request padding with ⟨sent, answered, bytes⟩
      have sending := transit_eq (replyFields_fits short _) bytes call.ticket call.host
      rw [LockSystem.deliver, split, getElem?_middle]
      simp only [if_true, LockSystem.serve, decode_encode, handled, answered, sending, split,
        eraseIdx_middle]
      rfl

/-- A message in flight to a host is a reply, which the host queues. -/
theorem lock_deliver_queue
    {exchange : Exchange PageLockHash HostName PageLockRequest PageLockReply}
    (mirrors : Mirrors topology.lockServerHost topology.isHost lock exchange)
    {front back : List Transit} {message : Transit}
    (split : lock.network = front ++ message :: back) (member : message.host ∈ topology.hosts)
    (storage : EventMessage) :
    ∃ after arrived ticket,
      (lock.clients message.host).tryRunCallback storage (LockSystem.decode message.bytes) =
        some (after, none, true) ∧
      EventMessageHandle.SameAddresses (lock.clients message.host) after ∧
      lock.deliver topology.lockServerHost front.length storage =
        ({ lock with
          clients := Function.update lock.clients message.host after
          network := front ++ back
          arrived := arrived }, .event (.queued ticket)) := by
  have related := mirrors.network
  rw [split] at related
  rcases forall₂_split related with ⟨_, flight, _, _, _, carries, _⟩
  cases flight with
  | request call =>
      rcases carries with ⟨_, padding, rfl⟩
      exact absurd member mirrors.deployed.apart
  | reply call reply =>
      rcases carries with ⟨_, rfl⟩
      have ready := mirrors.deployed.clients call.host member
      have short := mirrors.deployed.short call.host member
      have decoded := MessageFields.decoded_received _ (replyFields_fits short reply)
      rcases EventMessageHandle.tryRunCallback_unhandled decoded.key?_eq ready.reply
        ready.unhandled storage with ⟨after, queued, _, _, addresses⟩
      have elsewhere : call.host ≠ topology.lockServerHost :=
        fun same => mirrors.deployed.apart (same ▸ member)
      refine ⟨after, Function.update lock.arrived call.host
        (lock.arrived call.host ++ [call.ticket]), call.ticket,
        by rw [decode_encode]; exact queued, addresses, ?_⟩
      rw [LockSystem.deliver, split, getElem?_middle]
      simp only [if_neg elsewhere, LockSystem.arrive, decode_encode, queued, split,
        eraseIdx_middle]

/-- The message object of the read callback. -/
theorem received_eq_decode (bytes : Bytes) :
    EventMessage.initMessagePtr { EventMessage.clear with
      bufferStr := bytes
      bufferSize := UInt32.ofNat (bytes.length : Int).toNat } = LockSystem.decode bytes := by
  rw [LockSystem.decode, Int.toNat_natCast]

/-- The callback over connections answers a request. -/
theorem wire_lockRequestCallback_eq {handle : LockHandle} {table : PageLockHash}
    {lockServerHost host : HostName} {request : PageLockRequest} (padding : UInt32)
    (short : ShortNames lockServerHost host) {net after : LibeventHandle}
    {encoded : EventMessage} {connecting : WireSystem.Connecting}
    (sent : handle.sendMessage net (EventMessageHandle.prepareOn .clear
      (replyFields lockServerHost host (checkLockRequest table host request).2.1))
      (WireSystem.outcomeOf connecting) = some (handle, after, encoded, 1)) :
    WireSystem.lockRequestCallback ⟨handle, net⟩ table
        (requestFields lockServerHost host request padding).received connecting =
      some (⟨handle, after⟩, (checkLockRequest table host request).1,
        .served host request (checkLockRequest table host request).2.1) := by
  have stores := MessageFields.stores_received (requestFields_fits short request padding)
  have asker := stores.sendHostName.cString_eq
  have group := stores.groupName.cString_eq
  have payload := stores.message.data_eq
  simp only [requestFields, length_requestMemory] at asker group payload
  simp only [EventMessageHandle.prepareOn, replyFields, length_replyMemory] at sent
  simp only [WireSystem.lockRequestCallback, requestFields, asker, group, payload,
    requestOf_requestMemory, sent, Option.bind_eq_bind, Option.bind_some]
  rfl

/-- The message handle of a host changes, in the one system and in the other. -/
theorem Agrees.update_client {messages : HostName → LockHandle} {table : PageLockHash}
    {calls callsAfter : List (HostName × PageLockRequest)}
    {flying flyingAfter : Flying HostName Transit} {host : HostName}
    {handle : LockHandle} {next : LockSystem}
    {exchange : Exchange PageLockHash HostName PageLockRequest PageLockReply}
    (agrees : Agrees topology messages table calls lock flying)
    (mirrors : Mirrors topology.lockServerHost topology.isHost next exchange)
    (member : host ∈ topology.hosts)
    (addresses : EventMessageHandle.SameAddresses (messages host) handle)
    (server : next.server = lock.server)
    (clients : next.clients = Function.update lock.clients host handle)
    (sameTable : next.table = lock.table)
    (sameCalls : callsAfter = next.calls.map fun call => (call.host, call.request))
    (network : next.network = flyingAfter.map Prod.snd) :
    Agrees topology (Function.update messages host handle) table callsAfter next flyingAfter := by
  have notServer : topology.lockServerHost ≠ host :=
    fun same => mirrors.deployed.apart (same ▸ member)
  refine ⟨?_, ?_, sameTable.trans agrees.table, sameCalls, network, ⟨_, mirrors⟩, ?_, ?_⟩
  · rw [server, Function.update_of_ne notServer]
    exact agrees.server
  · intro other among
    rw [clients]
    by_cases same : other = host
    · rw [same, Function.update_self, Function.update_self]
    · rw [Function.update_of_ne same, Function.update_of_ne same]
      exact agrees.clients other among
  · intro other among
    rw [Function.update_of_ne notServer]
    exact agrees.serverKnows other among
  · intro other among
    have known := agrees.hostKnows other among
    by_cases same : other = host
    · rw [same] at known ⊢
      rw [Function.update_self]
      exact known.congr addresses
    · rw [Function.update_of_ne same]
      exact known

/-- Only messages are delivered. -/
def Deliveries (inputs : List LockSystem.Input) : Prop :=
  ∀ input ∈ inputs, ∃ position storage, input = .deliver position storage

theorem Deliveries.concat {inputs : List LockSystem.Input} (deliveries : Deliveries inputs)
    (position : Nat) (storage : EventMessage) :
    Deliveries (inputs ++ [.deliver position storage]) := by
  intro input member
  rcases List.mem_append.mp member with old | new
  · exact deliveries input old
  · exact ⟨position, storage, List.mem_singleton.mp new⟩

/-- The processes while one of them is in a read callback. -/
def ReadingFollows (topology : Topology) (reliable : Prop) (system : WireSystem)
    (lock : LockSystem) (accepter : HostName) (reading : WireSystem.Reading)
    (flying : Flying HostName Transit) : Prop :=
  ∃ inputs next, Deliveries inputs ∧ LockLeads topology reliable lock inputs reading.events next ∧
    Agrees topology (Function.update system.messages accepter reading.messages) reading.table
      system.calls next flying ∧ OnConnections reliable flying

/-- The server answers the requests that it reads. -/
theorem handles_server (valid : topology.Valid) {nets : HostName → LibeventHandle}
    {links : List (Link HostName)} {link : Link HostName}
    (target : link.accepter = topology.lockServerHost) (storage : Nat → EventMessage)
    {connecting : Nat → WireSystem.Connecting}
    (connects : reliable → ∀ round, (connecting round).1 = true) :
    Handles transitPost topology.parties topology.listens nets links link
      (WireSystem.handleMessage storage connecting)
      (ReadingFollows topology reliable system lock link.accepter) := by
  intro net reading front message back addressed turn holds wired
  rcases reading with ⟨messages, table, events⟩
  rcases holds with ⟨inputs, next, deliveries, leads, agrees, routed⟩
  rcases agrees.exchange with ⟨exchange, mirrors⟩
  have network : next.network = front.map Prod.snd ++ message :: back.map Prod.snd := by
    rw [agrees.network, List.map_append, List.map_cons]
  have server := agrees.server
  rw [target, Function.update_self] at server
  have sameTable := agrees.table
  dsimp only at server sameTable
  subst server sameTable
  have knows := agrees.serverKnows
  rw [target, Function.update_self] at knows
  have toServer : message.host = topology.lockServerHost := addressed.trans target
  have reader : link.accepter ∈ topology.parties := target ▸ List.mem_cons_self
  rcases lock_deliver_serve mirrors knows network toServer (storage events.length) with
    ⟨call, padding, encoded, member, ticket, bytes, serving, stepped⟩
  have short := mirrors.deployed.short call.host member
  have fits := requestFields_fits short call.request padding
  rcases send_wired valid wired reader target.symm (List.mem_cons_of_mem _ member) serving.staged
    serving.content (replyFields_small (valid.small call.host member) _) call.ticket
    (connecting events.length) with ⟨after, channel, sent, wiredNext, kept, connected⟩
  rw [Function.update_self] at sent
  rw [Function.update_idem] at wiredNext kept
  have answered := wire_lockRequestCallback_eq padding short sent
  rcases serving.registered with ⟨arg, registered⟩
  have handled := EventMessageHandle.tryRunCallback_registered
    (MessageFields.decoded_received _ fits).key?_eq registered (storage events.length)
  have permitted : Permitted topology.isHost next
      (.deliver (front.map Prod.snd).length (storage events.length)) := by
    rw [Permitted, network]
    simp
  have inOrder := routed.inOrder turn network (storage events.length)
  have mirrorsNext := (mirrors.deliver permitted (storage events.length)).1
  have leadsNext : LockLeads topology reliable lock (inputs ++ [_]) (events ++ seeOutcome
      (next.deliver topology.lockServerHost (front.map Prod.snd).length
        (storage events.length)).2) (next.deliver topology.lockServerHost
          (front.map Prod.snd).length (storage events.length)).1 :=
    leads.step ⟨permitted, inOrder⟩
  rw [stepped] at mirrorsNext leadsNext
  let reply := (checkLockRequest next.table call.host call.request).2.1
  have round : WireSystem.handleMessage storage connecting net ⟨next.server, next.table, events⟩
      (transitPost.bytes message) (transitPost.bytes message).length =
        some (after, ⟨next.server, (checkLockRequest next.table call.host call.request).1,
          events ++ [.served call.host call.request reply]⟩, true) := by
    simp only [WireSystem.handleMessage, transitPost, bytes, received_eq_decode, decode_encode,
      handled, answered, Option.bind_eq_bind, Option.bind_some]
    rfl
  refine ⟨after, _, [(channel, ⟨call.ticket, call.host,
    (replyFields topology.lockServerHost call.host reply).encode⟩)], round,
    ⟨_, _, deliveries.concat _ _, leadsNext, ?_, ?_⟩, wiredNext, kept⟩
  · refine ⟨agrees.server, agrees.clients, rfl, agrees.calls, ?_, ⟨_, mirrorsNext⟩,
      agrees.serverKnows, agrees.hostKnows⟩
    simp only [servedSystem, List.map_append, List.map_singleton]
    rfl
  · exact routed.take.concat (fun relies => connected (connects relies _)) _

/-- A host queues the replies that it reads. -/
theorem handles_host {nets : HostName → LibeventHandle} {links : List (Link HostName)}
    {link : Link HostName} (member : link.accepter ∈ topology.hosts)
    (storage : Nat → EventMessage) (connecting : Nat → WireSystem.Connecting) :
    Handles transitPost topology.parties topology.listens nets links link
      (WireSystem.handleMessage storage connecting)
      (ReadingFollows topology reliable system lock link.accepter) := by
  intro net reading front message back addressed turn holds wired
  rcases reading with ⟨messages, table, events⟩
  rcases holds with ⟨inputs, next, deliveries, leads, agrees, routed⟩
  rcases agrees.exchange with ⟨exchange, mirrors⟩
  have network : next.network = front.map Prod.snd ++ message :: back.map Prod.snd := by
    rw [agrees.network, List.map_append, List.map_cons]
  have toHost : message.host = link.accepter := addressed
  rw [← toHost] at member agrees wired ⊢
  have client := agrees.clients message.host member
  rw [Function.update_self] at client
  rcases lock_deliver_queue mirrors network member (storage events.length) with
    ⟨after, arrived, ticket, queued, addresses, stepped⟩
  have permitted : Permitted topology.isHost next
      (.deliver (front.map Prod.snd).length (storage events.length)) := by
    rw [Permitted, network]
    simp
  have inOrder := routed.inOrder turn network (storage events.length)
  have mirrorsNext := (mirrors.deliver permitted (storage events.length)).1
  have leadsNext : LockLeads topology reliable lock (inputs ++ [_]) (events ++ seeOutcome
      (next.deliver topology.lockServerHost (front.map Prod.snd).length
        (storage events.length)).2) (next.deliver topology.lockServerHost
          (front.map Prod.snd).length (storage events.length)).1 :=
    leads.step ⟨permitted, inOrder⟩
  rw [stepped] at mirrorsNext leadsNext
  rw [client] at queued addresses
  have round : WireSystem.handleMessage storage connecting net ⟨messages, table, events⟩
      (transitPost.bytes message) (transitPost.bytes message).length =
        some (net, ⟨after, table, events ++ [.queued]⟩, true) := by
    simp only [WireSystem.handleMessage, transitPost, received_eq_decode, queued,
      Option.bind_eq_bind, Option.bind_some]
    rfl
  have left : front.map Prod.snd ++ back.map Prod.snd = (front ++ back ++ []).map Prod.snd := by
    rw [List.append_nil, List.map_append]
  have agreesNext := agrees.update_client mirrorsNext member
    (by rw [Function.update_self]; exact addresses) rfl rfl rfl agrees.calls left
  rw [Function.update_idem] at agreesNext
  refine ⟨net, _, [], round,
    ⟨_, _, deliveries.concat _ _, leadsNext, agreesNext, ?_⟩, ?_, .refl none _⟩
  · rw [List.append_nil]
    exact routed.take
  · rw [List.append_nil]
    exact wired

/-- A read callback handles the messages of a connection, whoever has accepted it. -/
theorem handles_party (valid : topology.Valid) {nets : HostName → LibeventHandle}
    {links : List (Link HostName)} (link : Link HostName)
    (member : link.accepter ∈ topology.parties) (storage : Nat → EventMessage)
    {connecting : Nat → WireSystem.Connecting}
    (connects : reliable → ∀ round, (connecting round).1 = true) :
    Handles transitPost topology.parties topology.listens nets links link
      (WireSystem.handleMessage storage connecting)
      (ReadingFollows topology reliable system lock link.accepter) := by
  rcases List.mem_cons.mp member with server | host
  · exact handles_server valid server storage connects
  · exact handles_host host storage connecting

/-- Bytes of a connection arrive. -/
theorem WireFollows.arrive (follows : WireFollows topology reliable system lock)
    (valid : topology.Valid) {position count : Nat} {link : Link HostName}
    (there : system.links[position]? = some link) {sender : BevInfor}
    (sends : (system.nets link.opener).bevMap.lookup (link.openerId : Int) = some sender)
    (present : link.carried + count ≤ sender.bev.output.length)
    (fits : (system.nets link.accepter).inputLength link.accepterId + count < 2 ^ 31)
    (storage : Nat → EventMessage) {connecting : Nat → WireSystem.Connecting}
    (connects : reliable → ∀ round, (connecting round).1 = true) :
    ∃ after events inputs next,
      system.arrive position count storage connecting = some (after, events) ∧
      Deliveries inputs ∧ LockLeads topology reliable lock inputs events next ∧
      WireFollows topology reliable after next := by
  rcases follows with ⟨flying, agrees, wired, settled, routed⟩
  have member := (wired.wiring.linked link (List.mem_of_getElem? there)).1
  let moved : Link HostName := { link with carried := link.carried + count }
  have handles : Handles transitPost topology.parties topology.listens system.nets
      (system.links.set position moved) moved (WireSystem.handleMessage storage connecting)
      (ReadingFollows topology reliable system lock moved.accepter) :=
    handles_party valid moved member storage connects
  have idle : ReadingFollows topology reliable system lock link.accepter
      ⟨system.messages link.accepter, system.table, []⟩ flying := by
    refine ⟨[], lock, by simp [Deliveries], Machine.leads_nil lock, ?_, routed⟩
    rw [Function.update_eq_self]
    exact agrees
  rcases wired.arrive valid.distinct there handles sends present fits idle with
    ⟨net, ⟨messages, table, events⟩, later, arrived, wiredNext, holds, still, kept⟩
  rcases holds with ⟨inputs, next, deliveries, leads, agreesNext, routedNext⟩
  have wireStep : system.arrive position count storage connecting =
      some ({ system.setParty link.accepter ⟨messages, net⟩ with
        table := table
        links := system.links.set position moved }, events) := by
    simp only [WireSystem.nets, WireSystem.messages] at sends arrived
    simp only [WireSystem.arrive, there, sends, arrived, Option.bind_eq_bind, Option.bind_some]
    rfl
  refine ⟨_, events, inputs, next, wireStep, deliveries, leads, later, ?_, ?_, ?_, routedNext⟩
  · change Agrees topology (system.setParty link.accepter ⟨messages, net⟩).messages _ _ _ _
    rw [setParty_messages]
    exact agreesNext
  · change Wired _ _ _ (system.setParty link.accepter ⟨messages, net⟩).nets _ _
    rw [setParty_nets]
    exact wiredNext
  · change ∀ other ∈ system.links.set position moved,
      Settled (system.setParty link.accepter ⟨messages, net⟩).nets other
    rw [setParty_nets]
    exact wired.settled_set there kept settled still _

end MultiMaster.LockProtocol
