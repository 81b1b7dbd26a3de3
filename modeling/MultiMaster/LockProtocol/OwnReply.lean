import MultiMaster.LockProtocol.System

/-!
# Every lock call gets its own reply

The system of hosts, server and network follows the exchange of calls with a service,
message by message: bytes in the network are encoded requests and replies, and the
unprocessed messages of a host are the replies queued for it.  So a call that returns
has taken the reply that the server computed for its own request.
-/

namespace MultiMaster.LockProtocol

open Foundation NetIO LockTable

/-! ## The deployed system -/

/-- A host that can send requests and queues replies. -/
structure ClientReady (lockServerHost host : HostName) (handle : LockHandle) : Prop where
  name : handle.localHostName = host
  request : handle.Configured requestKey
  reply : handle.Configured replyKey
  unhandled : handle.callback replyKey = none
  reaches : handle.Reaches remoteLockGroupName lockServerHost

/-- A server that handles requests and can reply to all hosts. -/
structure ServerReady (lockServerHost : HostName) (hosts : HostName → Prop)
    (handle : LockHandle) : Prop where
  name : handle.localHostName = lockServerHost
  registered : ∃ arg, handle.callback requestKey = some (.lockRequestCallback, arg)
  reply : handle.Configured replyKey
  reaches : ∀ host, hosts host → handle.Reaches remoteLockGroupName host

/-- The hosts and the server are set up; the server is not one of the hosts. -/
structure Deployed (lockServerHost : HostName) (hosts : HostName → Prop)
    (system : LockSystem) : Prop where
  server : ServerReady lockServerHost hosts system.server
  clients : ∀ host, hosts host → ClientReady lockServerHost host (system.clients host)
  apart : ¬hosts lockServerHost
  short : ∀ host, hosts host → ShortNames lockServerHost host

/-- Nothing has been sent or received yet. -/
structure Quiet (hosts : HostName → Prop) (system : LockSystem) : Prop where
  calls : system.calls = []
  network : system.network = []
  queues : ∀ host, hosts host → ∀ key, (system.clients host).unprocessed key = []
  arrived : ∀ host, hosts host → system.arrived host = []

/-- Steps of the hosts and the network: a host starts no second call about a page while
the first is unfinished, messages in flight are delivered and unfinished calls wait. -/
def Permitted (hosts : HostName → Prop) (system : LockSystem) : LockSystem.Input → Prop
  | .request host request _ => hosts host ∧
      ∀ call ∈ system.calls, ¬(call.host = host ∧ call.request.page = request.page)
  | .deliver position _ => position < system.network.length
  | .poll host page => ∃ call ∈ system.calls, call.host = host ∧ call.request.page = page

instance (hosts : HostName → Prop) [DecidablePred hosts] (system : LockSystem) :
    DecidablePred (Permitted hosts system)
  | .request host request _ => inferInstanceAs (Decidable (hosts host ∧
      ∀ call ∈ system.calls, ¬(call.host = host ∧ call.request.page = request.page)))
  | .deliver position _ => inferInstanceAs (Decidable (position < system.network.length))
  | .poll host page => inferInstanceAs (Decidable
      (∃ call ∈ system.calls, call.host = host ∧ call.request.page = page))

theorem ClientReady.congr {lockServerHost host : HostName} {handle after : LockHandle}
    (ready : ClientReady lockServerHost host handle)
    (setup : EventMessageHandle.SameSetup handle after)
    (addresses : EventMessageHandle.SameAddresses handle after) :
    ClientReady lockServerHost host after :=
  ⟨addresses.localHostName.trans ready.name, (setup.configured _).mpr ready.request,
    (setup.configured _).mpr ready.reply, (setup.callback _).trans ready.unhandled,
    addresses.reaches ready.reaches⟩

/-! ## The exchange behind a system -/

/-- The bytes of a message in flight are those of the request or the reply. -/
def Carries (lockServerHost : HostName) (hosts : HostName → Prop) (message : Transit) :
    Flight HostName PageLockRequest PageLockReply → Prop
  | .request call => hosts call.host ∧ ∃ padding, message =
      ⟨call.ticket, lockServerHost,
        (requestFields lockServerHost call.host call.request padding).encode⟩
  | .reply call reply => hosts call.host ∧ message =
      ⟨call.ticket, call.host, (replyFields lockServerHost call.host reply).encode⟩

/-- The queue of a host and the tickets beside it. -/
structure QueueMirrors (lockServerHost host : HostName) (handle : LockHandle)
    (arrived : List Nat) (queue : List (Call HostName PageLockRequest × PageLockReply)) :
    Prop where
  named : handle.QueuesNamed
  messages : List.Forall₂ (fun mess entry => Holds lockServerHost host mess entry.2)
    (handle.unprocessed replyKey) queue
  tickets : arrived = queue.map fun entry => entry.1.ticket

/-- What a system and the exchange it follows have in common. -/
structure Mirrors (lockServerHost : HostName) (hosts : HostName → Prop)
    (system : LockSystem)
    (exchange : Exchange PageLockHash HostName PageLockRequest PageLockReply) : Prop where
  deployed : Deployed lockServerHost hosts system
  table : exchange.table = system.table
  calls : exchange.calls = system.calls
  next : exchange.next = system.next
  members : ∀ call ∈ system.calls, hosts call.host
  network : List.Forall₂ (Carries lockServerHost hosts) system.network exchange.network
  queues : ∀ host, hosts host → QueueMirrors lockServerHost host (system.clients host)
    (system.arrived host) (exchange.queueOf host)

/-- The exchange that a quiet system begins with. -/
def quietExchange (system : LockSystem) :
    Exchange PageLockHash HostName PageLockRequest PageLockReply :=
  ⟨system.table, [], [], [], system.next⟩

variable {lockServerHost : HostName} {hosts : HostName → Prop} {system : LockSystem}
variable {exchange : Exchange PageLockHash HostName PageLockRequest PageLockReply}

theorem mirrors_quiet (deployed : Deployed lockServerHost hosts system)
    (quiet : Quiet hosts system) :
    Mirrors lockServerHost hosts system (quietExchange system) := by
  refine ⟨deployed, rfl, quiet.calls.symm, rfl, ?_, ?_, ?_⟩
  · simp [quiet.calls]
  · rw [quiet.network]
    exact .nil
  · intro host member
    refine ⟨?_, ?_, quiet.arrived host member⟩
    · intro key entry queued
      simp [quiet.queues host member key] at queued
    · rw [quiet.queues host member]
      exact .nil

/-- The deployment is a matter of the server's handle and those of the clients. -/
theorem Deployed.congr {after : LockSystem} (deployed : Deployed lockServerHost hosts system)
    (server : after.server = system.server)
    (clients : ∀ host, hosts host → ClientReady lockServerHost host (after.clients host)) :
    Deployed lockServerHost hosts after := by
  refine ⟨?_, clients, deployed.apart, deployed.short⟩
  rw [server]
  exact deployed.server

/-- Changing one client keeps all clients ready. -/
theorem Deployed.update (deployed : Deployed lockServerHost hosts system) {host : HostName}
    {handle : LockHandle} (ready : ClientReady lockServerHost host handle) :
    ∀ other, hosts other →
      ClientReady lockServerHost other (Function.update system.clients host handle other) := by
  intro other member
  by_cases same : other = host
  · subst same
    rw [Function.update_self]
    exact ready
  · rw [Function.update_of_ne same]
    exact deployed.clients other member

theorem transit_eq {fields : MessageFields} {mess : EventMessage}
    (fits : fields.encodedSize < 2 ^ 32) (bytes : mess.content = fields.wire)
    (ticket : Nat) (host : HostName) :
    LockSystem.transit ticket host mess = ⟨ticket, host, fields.encode⟩ := by
  rcases Prod.mk.inj bytes with ⟨sameBytes, sameSize⟩
  rw [LockSystem.transit, sameBytes, sameSize, EventMessage.toNat_ofNat_of_lt fits,
    ← MessageFields.length_encode, List.take_length]

theorem decode_encode (fields : MessageFields) :
    LockSystem.decode fields.encode = fields.received := by
  rw [LockSystem.decode, MessageFields.length_encode]
  rfl

/-! ## Starting a call -/

/-- The exchange makes the same step and reports the same event. -/
def Follows (lockServerHost : HostName) (hosts : HostName → Prop)
    (stepped : LockSystem × LockSystem.Outcome)
    (exchanged : Exchange PageLockHash HostName PageLockRequest PageLockReply ×
      LockSystem.LockEvent) : Prop :=
  Mirrors lockServerHost hosts stepped.1 exchanged.1 ∧ stepped.2 = .event exchanged.2

theorem Mirrors.request (mirrors : Mirrors lockServerHost hosts system exchange)
    {host : HostName} (member : hosts host) (lockRequest : PageLockRequest) (padding : UInt32) :
    Follows lockServerHost hosts (system.request lockServerHost host lockRequest padding)
      (exchange.step lockService (.send host lockRequest)) := by
  have ready := mirrors.deployed.clients host member
  have short := mirrors.deployed.short host member
  rcases requestPageLock_eq ready.name ready.request ready.reaches short lockRequest padding with
    ⟨mess, address, sent, bytes⟩
  have sending := transit_eq (requestFields_fits short lockRequest padding) bytes
    system.next lockServerHost
  simp only [LockSystem.request, sent, Function.update_eq_self, sending, Exchange.step,
    mirrors.next, mirrors.calls]
  refine ⟨⟨mirrors.deployed.congr rfl mirrors.deployed.clients, mirrors.table, rfl, rfl, ?_, ?_,
    mirrors.queues⟩, rfl⟩
  · intro call among
    rcases List.mem_append.mp among with old | new
    · exact mirrors.members call old
    · rw [List.mem_singleton.mp new]
      exact member
  · exact List.rel_append mirrors.network (.cons ⟨member, padding, rfl⟩ .nil)

/-! ## Delivering a message -/

theorem forall₂_eraseIdx {First Second : Type} {relation : First → Second → Prop}
    {first : List First} {second : List Second} (related : List.Forall₂ relation first second)
    (position : Nat) :
    List.Forall₂ relation (first.eraseIdx position) (second.eraseIdx position) := by
  induction related generalizing position with
  | nil => exact .nil
  | cons head tail ih =>
      cases position with
      | zero => exact tail
      | succ position => exact .cons head (ih position)

theorem forall₂_getElem? {First Second : Type} {relation : First → Second → Prop}
    {first : List First} {second : List Second} (related : List.Forall₂ relation first second)
    {position : Nat} (inside : position < first.length) :
    ∃ left right, first[position]? = some left ∧ second[position]? = some right ∧
      relation left right := by
  rcases List.forall₂_iff_get.mp related with ⟨length, each⟩
  have rightInside : position < second.length := length ▸ inside
  exact ⟨first[position], second[position], List.getElem?_eq_getElem inside,
    List.getElem?_eq_getElem rightInside, each position inside rightInside⟩

/-- The server answers a request that reaches it. -/
theorem Mirrors.serve (mirrors : Mirrors lockServerHost hosts system exchange)
    {call : Call HostName PageLockRequest} (member : hosts call.host) (padding : UInt32)
    (position : Nat) (storage : EventMessage) :
    let answer := lockService.answer.step exchange.table (call.host, call.request)
    Follows lockServerHost hosts
      (system.serve position call.ticket storage (LockSystem.decode
        (requestFields lockServerHost call.host call.request padding).encode))
      ({ exchange with
        table := answer.1
        network := exchange.network.eraseIdx position ++ [.reply call answer.2] },
        .served call answer.2) := by
  have ready := mirrors.deployed.server
  have short := mirrors.deployed.short call.host member
  have fits := requestFields_fits short call.request padding
  rcases ready.registered with ⟨arg, registered⟩
  have handled := EventMessageHandle.tryRunCallback_registered
    (MessageFields.decoded_received _ fits).key?_eq registered storage
  rcases lockRequestCallback_eq ready.name ready.reply (ready.reaches call.host member) short
    system.table call.request padding with ⟨sent, answered, bytes⟩
  have sending := transit_eq (replyFields_fits short _) bytes call.ticket call.host
  simp only [LockSystem.serve, decode_encode, handled, answered, sending, lockService,
    mirrors.table]
  refine ⟨⟨mirrors.deployed.congr rfl mirrors.deployed.clients, rfl, mirrors.calls,
    mirrors.next, mirrors.members, ?_, mirrors.queues⟩, rfl⟩
  exact List.rel_append (forall₂_eraseIdx mirrors.network position) (.cons ⟨member, rfl⟩ .nil)

/-- A reply joins the queue of its host. -/
theorem QueueMirrors.append {host : HostName} {handle after : LockHandle}
    {arrived : List Nat} {queue : List (Call HostName PageLockRequest × PageLockReply)}
    {mess : EventMessage} {reply : PageLockReply}
    (mirrors : QueueMirrors lockServerHost host handle arrived queue)
    (call : Call HostName PageLockRequest) (named : mess.BufferNames replyKey)
    (holds : Holds lockServerHost host mess reply)
    (lists : EventMessageHandle.ListChanged handle after replyKey
      (handle.unprocessed replyKey ++ [mess])) :
    QueueMirrors lockServerHost host after (arrived ++ [call.ticket])
      (queue ++ [(call, reply)]) := by
  constructor
  · intro key entry queued
    rw [lists key] at queued
    split at queued
    · rename_i same
      subst same
      rcases List.mem_append.mp queued with old | new
      · exact mirrors.named replyKey entry old
      · rw [List.mem_singleton.mp new]
        exact named
    · exact mirrors.named key entry queued
  · rw [lists replyKey, if_pos rfl]
    exact List.rel_append mirrors.messages (.cons holds .nil)
  · rw [mirrors.tickets, List.map_append]
    rfl

/-- Changing one host leaves the queues of the others. -/
theorem Mirrors.update_queues (mirrors : Mirrors lockServerHost hosts system exchange)
    {after : Exchange PageLockHash HostName PageLockRequest PageLockReply} {host : HostName}
    {handle : LockHandle} {arrived : List Nat}
    (own : QueueMirrors lockServerHost host handle arrived (after.queueOf host))
    (others : ∀ other, other ≠ host → after.queueOf other = exchange.queueOf other) :
    ∀ other, hosts other →
      QueueMirrors lockServerHost other (Function.update system.clients host handle other)
        (Function.update system.arrived host arrived other) (after.queueOf other) := by
  intro other member
  by_cases same : other = host
  · subst same
    rw [Function.update_self, Function.update_self]
    exact own
  · rw [Function.update_of_ne same, Function.update_of_ne same, others other same]
    exact mirrors.queues other member

/-- A reply that reaches its host is queued there. -/
theorem Mirrors.arrive (mirrors : Mirrors lockServerHost hosts system exchange)
    {call : Call HostName PageLockRequest} (member : hosts call.host) (reply : PageLockReply)
    (position : Nat) (storage : EventMessage) :
    Follows lockServerHost hosts
      (system.arrive position call.ticket call.host storage (LockSystem.decode
        (replyFields lockServerHost call.host reply).encode))
      ({ exchange with
        network := exchange.network.eraseIdx position
        queue := exchange.queue ++ [(call, reply)] },
        .queued call.ticket) := by
  have ready := mirrors.deployed.clients call.host member
  have short := mirrors.deployed.short call.host member
  have decoded := MessageFields.decoded_received _ (replyFields_fits short reply)
  rcases EventMessageHandle.tryRunCallback_unhandled decoded.key?_eq ready.reply
    ready.unhandled storage with ⟨after, queued, lists, setup, addresses⟩
  have holds := holds_copy short
    (MessageFields.content_received (replyFields lockServerHost call.host reply)) storage
  have named : (storage.copy (replyFields lockServerHost call.host reply).received).BufferNames
      replyKey := decoded.named.of_content EventMessage.content_copy
  have appended := (mirrors.queues call.host member).append call named holds lists
  have own : exchange.queueOf call.host ++ [(call, reply)] =
      (exchange.queue ++ [(call, reply)]).filter (fun entry => entry.1.host = call.host) := by
    simp [Exchange.queueOf]
  rw [own] at appended
  simp only [LockSystem.arrive, decode_encode, queued]
  refine ⟨⟨mirrors.deployed.congr rfl
    (mirrors.deployed.update (ready.congr setup addresses)), mirrors.table, mirrors.calls,
    mirrors.next, mirrors.members, forall₂_eraseIdx mirrors.network position, ?_⟩, rfl⟩
  apply mirrors.update_queues appended
  intro other different
  simp [Exchange.queueOf, Ne.symm different]

theorem Mirrors.deliver (mirrors : Mirrors lockServerHost hosts system exchange)
    {position : Nat} (inside : position < system.network.length) (storage : EventMessage) :
    Follows lockServerHost hosts (system.deliver lockServerHost position storage)
      (exchange.step lockService (.deliver position)) := by
  rcases forall₂_getElem? mirrors.network inside with
    ⟨message, flight, messageFound, flightFound, carries⟩
  rw [LockSystem.deliver, messageFound]
  simp only [Exchange.step, Exchange.deliver, flightFound]
  cases flight with
  | request call =>
      rcases carries with ⟨member, padding, rfl⟩
      rw [if_pos rfl]
      exact mirrors.serve member padding position storage
  | reply call reply =>
      rcases carries with ⟨member, rfl⟩
      have elsewhere : call.host ≠ lockServerHost :=
        fun same => mirrors.deployed.apart (same ▸ member)
      rw [if_neg elsewhere]
      exact mirrors.arrive member reply position storage

/-! ## Waiting for the reply -/

/-- The partners of a list with a distinguished element. -/
theorem forall₂_split {First Second : Type} {relation : First → Second → Prop}
    {front back : List First} {entry : First} {second : List Second}
    (related : List.Forall₂ relation (front ++ entry :: back) second) :
    ∃ front' entry' back', second = front' ++ entry' :: back' ∧
      List.Forall₂ relation front front' ∧ relation entry entry' ∧
      List.Forall₂ relation back back' := by
  induction front generalizing second with
  | nil =>
      rcases List.forall₂_cons_left_iff.mp related with ⟨entry', back', head, tail, rfl⟩
      exact ⟨[], entry', back', rfl, .nil, head, tail⟩
  | cons first front ih =>
      rcases List.forall₂_cons_left_iff.mp related with ⟨first', rest, head, tail, rfl⟩
      rcases ih tail with ⟨front', entry', back', rfl, fronts, entries, backs⟩
      exact ⟨first' :: front', entry', back', rfl, .cons head fronts, entries, backs⟩

/-- Every unprocessed message of a host holds a reply. -/
theorem QueueMirrors.holding {host : HostName} {handle : LockHandle} {arrived : List Nat}
    {queue : List (Call HostName PageLockRequest × PageLockReply)}
    (mirrors : QueueMirrors lockServerHost host handle arrived queue) :
    ∀ mess ∈ handle.unprocessed replyKey, ∃ reply, Holds lockServerHost host mess reply := by
  intro mess among
  rcases List.getElem_of_mem among with ⟨position, inside, rfl⟩
  rcases forall₂_getElem? mirrors.messages inside with ⟨left, right, leftFound, _, holds⟩
  cases Option.some.inj ((List.getElem?_eq_getElem inside).symm.trans leftFound)
  exact ⟨right.2, holds⟩

/-- When the filter rejects all messages, no reply they hold is about the page. -/
theorem forall₂_rejected {host : HostName} {page : UInt32 × UInt32}
    {messages : List EventMessage}
    {queue : List (Call HostName PageLockRequest × PageLockReply)}
    (related : List.Forall₂ (fun mess entry => Holds lockServerHost host mess entry.2)
      messages queue)
    (rejected : ∀ mess ∈ messages, pageLockReplyFilter page mess = false) :
    ∀ entry ∈ queue, lockService.answered entry.2 ≠ page := by
  induction related with
  | nil => simp
  | cons holds _ ih =>
      have head := rejected _ List.mem_cons_self
      rw [pageLockReplyFilter_eq holds.stores] at head
      intro entry member
      rcases List.mem_cons.mp member with rfl | later
      · exact of_decide_eq_false head
      · exact ih (fun mess among => rejected mess (List.mem_cons_of_mem _ among)) entry later

/-- The first reply about a page, with the queue before and after it is taken. -/
theorem QueueMirrors.take {host : HostName} {page : UInt32 × UInt32}
    {handle after : LockHandle} {arrived : List Nat}
    {queue : List (Call HostName PageLockRequest × PageLockReply)}
    {front back : List EventMessage} {mess : EventMessage} {reply : PageLockReply}
    (mirrors : QueueMirrors lockServerHost host handle arrived queue)
    (list : handle.unprocessed replyKey = front ++ mess :: back)
    (rejected : ∀ earlier ∈ front, pageLockReplyFilter page earlier = false)
    (accepted : pageLockReplyFilter page mess = true)
    (holds : Holds lockServerHost host mess reply)
    (lists : EventMessageHandle.ListChanged handle after replyKey (front ++ back)) :
    ∃ owner, (queue.find? fun entry => lockService.answered entry.2 = page) =
        some (owner, reply) ∧
      arrived[front.length]? = some owner.ticket ∧
      QueueMirrors lockServerHost host after (arrived.eraseIdx front.length)
        (queue.eraseP fun entry => lockService.answered entry.2 = page) := by
  have messages := mirrors.messages
  rw [list] at messages
  rcases forall₂_split messages with ⟨front', ⟨owner, stored⟩, back', rfl, fronts, here, backs⟩
  have same : stored = reply := here.reply_unique holds
  subst same
  have earlier := forall₂_rejected fronts rejected
  rw [pageLockReplyFilter_eq holds.stores] at accepted
  have chosen : lockService.answered stored = page := of_decide_eq_true accepted
  have length := fronts.length_eq
  have erased : ((front' ++ (owner, stored) :: back').eraseP
      fun entry => lockService.answered entry.2 = page) = front' ++ back' := by
    rw [List.eraseP_append_right _ (by simpa using earlier)]
    simp [chosen]
  refine ⟨owner, ?_, ?_, ?_, ?_, ?_⟩
  · rw [List.find?_append, List.find?_eq_none.mpr (by simpa using earlier), Option.none_or]
    simp [chosen]
  · rw [mirrors.tickets, length]
    simp
  · intro key entry queued
    rw [lists key] at queued
    split at queued
    · rename_i found
      subst found
      apply mirrors.named replyKey entry
      rw [list]
      exact Exchange.mem_of_mem_removed queued
    · exact mirrors.named key entry queued
  · rw [lists replyKey, if_pos rfl, erased]
    exact List.rel_append fronts backs
  · rw [mirrors.tickets, erased, length]
    simp [List.eraseIdx_append_of_length_le]

/-- The first message that the filter accepts is found at its position. -/
theorem findIdx_split {page : UInt32 × UInt32} {front back : List EventMessage}
    {mess : EventMessage}
    (rejected : ∀ earlier ∈ front, pageLockReplyFilter page earlier = false)
    (accepted : pageLockReplyFilter page mess = true) :
    (front ++ mess :: back).findIdx (pageLockReplyFilter page) = front.length := by
  induction front with
  | nil => simp [List.findIdx_cons, accepted]
  | cons first front ih =>
      rw [List.cons_append, List.findIdx_cons, rejected first List.mem_cons_self, cond_false,
        ih fun earlier member => rejected earlier (List.mem_cons_of_mem _ member),
        List.length_cons]

theorem QueueMirrors.keep {host : HostName} {handle after : LockHandle} {arrived : List Nat}
    {queue : List (Call HostName PageLockRequest × PageLockReply)}
    (mirrors : QueueMirrors lockServerHost host handle arrived queue)
    (lists : EventMessageHandle.SameLists handle after) :
    QueueMirrors lockServerHost host after arrived queue := by
  refine ⟨?_, ?_, mirrors.tickets⟩
  · intro key entry queued
    rw [lists key] at queued
    exact mirrors.named key entry queued
  · rw [lists replyKey]
    exact mirrors.messages

theorem Mirrors.poll (mirrors : Mirrors lockServerHost hosts system exchange)
    {host : HostName} {page : UInt32 × UInt32}
    (waiting : ∃ call ∈ system.calls, Exchange.isAbout lockService host page call = true) :
    Follows lockServerHost hosts (system.poll host page)
      (exchange.step lockService (.poll host page)) := by
  cases found : system.calls.find? (Exchange.isAbout lockService host page) with
  | none =>
      rcases waiting with ⟨call, among, about⟩
      exact absurd about (List.find?_eq_none.mp found call among)
  | some call =>
      have about := Exchange.isAbout_iff.mp (List.find?_some found)
      have member : hosts host := about.1 ▸ mirrors.members call (List.mem_of_find?_eq_some found)
      have ready := mirrors.deployed.clients host member
      have short := mirrors.deployed.short host member
      have queue := mirrors.queues host member
      rcases waitForLockReply_effect short queue.named ready.reply queue.holding page with
        ⟨after, result, waited, effect, setup, addresses⟩
      have clients := mirrors.deployed.update (ready.congr setup addresses)
      simp only [LockSystem.poll, found, waited, Exchange.step, Exchange.poll, mirrors.calls,
        Exchange.find?_accepts]
      cases effect with
      | waiting rejected lists =>
          have nothing := forall₂_rejected queue.messages rejected
          rw [List.find?_eq_none.mpr (by simpa using nothing)]
          have queues := mirrors.update_queues (queue.keep lists) fun _ _ => rfl
          rw [Function.update_eq_self] at queues
          exact ⟨⟨mirrors.deployed.congr rfl clients, mirrors.table, mirrors.calls,
            mirrors.next, mirrors.members, mirrors.network, queues⟩, rfl⟩
      | returned front mess back reply list rejected accepted holds lists =>
          rcases queue.take list rejected accepted holds lists with
            ⟨owner, taken, ticket, mirrored⟩
          rw [taken]
          simp only [list, findIdx_split rejected accepted, ticket]
          have erased := Exchange.filter_eraseP_accepts lockService exchange host
          refine ⟨⟨mirrors.deployed.congr rfl clients, mirrors.table, rfl, mirrors.next,
            fun other among => mirrors.members other (List.mem_of_mem_eraseP among),
            mirrors.network, mirrors.update_queues ?_ ?_⟩, rfl⟩
          · rw [Exchange.queueOf, erased host page, if_pos rfl]
            exact mirrored
          · intro other different
            rw [Exchange.queueOf, erased other page, if_neg different]

/-! ## Every run -/

/-- The step of the exchange that a step of the system is. -/
def translate : LockSystem.Input → Exchange.Input HostName (UInt32 × UInt32) PageLockRequest
  | .request host request _ => .send host request
  | .deliver position _ => .deliver position
  | .poll host page => .poll host page

theorem permitted_allowed (mirrors : Mirrors lockServerHost hosts system exchange)
    {input : LockSystem.Input} (permitted : Permitted hosts system input) :
    exchange.Allowed lockService (translate input) := by
  cases input with
  | request host request padding =>
      intro call among
      rw [mirrors.calls] at among
      exact decide_eq_false (permitted.2 call among)
  | deliver position storage =>
      rw [translate, Exchange.Allowed, ← mirrors.network.length_eq]
      exact permitted
  | poll host page =>
      rcases permitted with ⟨call, among, about⟩
      exact ⟨call, mirrors.calls ▸ among, Exchange.isAbout_iff.mpr about⟩

/-- The exchange follows the system. -/
theorem simulation (lockServerHost : HostName) (hosts : HostName → Prop) :
    Machine.Simulation (LockSystem.machine lockServerHost) (Exchange.machine lockService)
      (Mirrors lockServerHost hosts) (Permitted hosts)
      (fun exchange input => exchange.Allowed lockService input) translate .event := by
  constructor
  intro system exchange input mirrors permitted
  refine ⟨permitted_allowed mirrors permitted, ?_⟩
  cases input with
  | request host request padding => exact mirrors.request permitted.1 request padding
  | deliver position storage => exact mirrors.deliver permitted storage
  | poll host page =>
      rcases permitted with ⟨call, among, about⟩
      exact mirrors.poll ⟨call, among, Exchange.isAbout_iff.mpr about⟩

/-- The event of an outcome. -/
def event? : LockSystem.Outcome → Option LockSystem.LockEvent
  | .event event => some event
  | .failed | .undefined => none

/-- The events of a history of the system. -/
def events (history : List (LockSystem.Input × LockSystem.Outcome)) :
    List LockSystem.LockEvent :=
  (history.map Prod.snd).filterMap event?

/-- Every step is defined and no call fails.  A call that returns was started, consumes
the reply that the server computed for this very call, and returns that reply.  Calls
have different tickets, and no reply is computed or consumed twice.  The server's
replies are those of `check_lock_request` in the order of its callbacks.  A host without
unfinished calls has no unprocessed replies. -/
structure OwnReplies (hosts : HostName → Prop) (start final : LockSystem)
    (history : List (LockSystem.Input × LockSystem.Outcome)) : Prop where
  defined : ∀ step ∈ history, ∃ event, step.2 = .event event
  own : ∀ call consumed reply, .returned call consumed reply ∈ events history →
    consumed = call.ticket ∧ .sent call ∈ events history ∧
      .served call reply ∈ events history
  sentOnce : ((events history).filterMap Exchange.sentTicket?).Nodup
  servedOnce : ((events history).filterMap Exchange.servedTicket?).Nodup
  consumedOnce : ((events history).filterMap Exchange.consumedTicket?).Nodup
  computed : (events history).filterMap Exchange.serving? =
    lockService.answer.trace start.table
      (((events history).filterMap Exchange.serving?).map Prod.fst)
  emptied : ∀ host, hosts host → (∀ call ∈ final.calls, call.host ≠ host) →
    (final.clients host).unprocessed replyKey = []

theorem events_of_outcomes {history : List (LockSystem.Input × LockSystem.Outcome)}
    {happened : List LockSystem.LockEvent}
    (outcomes : history.map Prod.snd = happened.map .event) : events history = happened := by
  rw [events, outcomes, List.filterMap_map]
  exact List.filterMap_some

/-- In every interleaving of calls, deliveries and polls each call gets its own reply. -/
theorem lockCalls_ownReplies {start : LockSystem}
    (deployed : Deployed lockServerHost hosts start) (quiet : Quiet hosts start)
    {inputs : List LockSystem.Input}
    (permitted : (LockSystem.machine lockServerHost).Respects start
      (fun _ system input => Permitted hosts system input) inputs) :
    OwnReplies hosts start ((LockSystem.machine lockServerHost).exec start inputs)
      ((LockSystem.machine lockServerHost).trace start inputs) := by
  rcases (simulation lockServerHost hosts).run (mirrors_quiet deployed quiet) permitted with
    ⟨allowed, mirrors, outcomes⟩
  have empty : (quietExchange start).Empty := ⟨rfl, rfl, rfl⟩
  have matched := Exchange.matched_run empty allowed
  have numbered := Exchange.numbered_run empty allowed
  have answered := Exchange.answered_run allowed
  have happened := events_of_outcomes outcomes
  constructor
  · intro step member
    have among := List.mem_map_of_mem (f := Prod.snd) member
    rw [outcomes] at among
    rcases List.mem_map.mp among with ⟨event, _, same⟩
    exact ⟨event, same.symm⟩
  · rw [happened]
    intro call consumed reply returned
    rcases matched.own call consumed reply returned with ⟨same, served⟩
    exact ⟨same, numbered.returned call consumed reply returned, served⟩
  · rw [happened]
    exact numbered.once
  · rw [happened]
    exact matched.servedOnce
  · rw [happened]
    exact matched.consumedOnce
  · rw [happened]
    exact answered.answers
  · intro host member finished
    have queue := mirrors.queues host member
    rw [matched.carried.queueOf_eq_nil (by rw [mirrors.calls]; exact finished)] at queue
    exact List.forall₂_nil_right_iff.mp queue.messages

/-! ## Two hosts -/

/-- The handle of a host that knows peers with their ports and handles requests or not. -/
def lockHandle (localHostName : HostName) (peers : List (HostName × Int))
    (handler : Option LockCallback) : LockHandle where
  localHostName := localHostName
  hostConfigMap := peers.foldl (fun map peer => map.insert peer.1 (.ofString "127.0.0.1")) ∅
  messGroupMap := (∅ : AList _).insert remoteLockGroupName
    { hostPortMap := peers.foldl (fun map peer => map.insert peer.1 peer.2) ∅
      messCallbackMap := ((∅ : AList _).insert remoteLockRequestMessType
        ⟨handler, handler.map fun _ => (), []⟩).insert remoteLockReplyMessType
          ⟨none, none, []⟩ }

/-- The hosts and ports of the example configuration. -/
def exampleSystem : LockSystem where
  server := lockHandle (.ofString "lock_server")
    [(.ofString "host1", 25557), (.ofString "lock_client", 25558)] (some .lockRequestCallback)
  table := ∅
  clients host := lockHandle host [(.ofString "lock_server", 25559)] none
  calls := []
  network := []
  arrived _ := []
  next := 0

/-- The hosts of the example configuration that request locks. -/
def exampleHost (host : HostName) : Prop :=
  host ∈ [CString.ofString "host1", CString.ofString "lock_client"]

instance : DecidablePred exampleHost := fun _ => inferInstanceAs (Decidable (_ ∈ _))

/-- Both hosts request the same page; the second request is served first. -/
def overtakingCalls : List LockSystem.Input :=
  [.request (.ofString "host1") ⟨1, 1, 1, .wLock⟩ 0,
    .request (.ofString "lock_client") ⟨1, 1, 1, .rLock⟩ 7,
    .deliver 1 .clear, .poll (.ofString "host1") (1, 1), .deliver 0 .clear,
    .deliver 1 .clear, .poll (.ofString "host1") (1, 1), .deliver 0 .clear,
    .poll (.ofString "lock_client") (1, 1)]

/-- What holds of both hosts of the example holds of every host. -/
theorem forall_exampleHost {property : HostName → Prop}
    (first : property (.ofString "host1")) (second : property (.ofString "lock_client")) :
    ∀ host, exampleHost host → property host := by
  intro host member
  rcases List.mem_cons.mp member with rfl | rest
  · exact first
  · rw [List.mem_singleton.mp rest]
    exact second

theorem exampleSystem_deployed :
    Deployed (.ofString "lock_server") exampleHost exampleSystem := by
  refine ⟨⟨rfl, ⟨some (), rfl⟩, ?_, ?_⟩, ?_, by decide, ?_⟩
  · rw [EventMessageHandle.Configured]
    decide
  · exact forall_exampleHost ⟨by decide, 25557, by decide, by decide⟩
      ⟨by decide, 25558, by decide, by decide⟩
  · intro host _
    exact ⟨rfl, rfl, rfl, rfl, rfl, 25559, rfl, by decide⟩
  · refine forall_exampleHost ?_ ?_
    · rw [ShortNames]
      decide
    · rw [ShortNames]
      decide

theorem exampleSystem_quiet : Quiet exampleHost exampleSystem := by
  have idle : ∀ host, exampleHost host → (exampleSystem.clients host).Idle :=
    forall_exampleHost (EventMessageHandle.idle_of_entries (by decide))
      (EventMessageHandle.idle_of_entries (by decide))
  exact ⟨rfl, rfl, fun host member key => (idle host member key).2, fun _ _ => rfl⟩

theorem lockCalls_ownReplies_overtaking :
    let history := (LockSystem.machine (.ofString "lock_server")).trace exampleSystem
      overtakingCalls
    (events history).getLast? = some (.returned
      ⟨1, .ofString "lock_client", ⟨1, 1, 1, .rLock⟩⟩ 1 ⟨1, 1, .lockSuccess⟩) ∧
    OwnReplies exampleHost exampleSystem
      ((LockSystem.machine (.ofString "lock_server")).exec exampleSystem overtakingCalls)
      history := by
  intro history
  have permitted : (LockSystem.machine (.ofString "lock_server")).Respects exampleSystem
      (fun _ system input => Permitted exampleHost system input) overtakingCalls := by
    decide +kernel
  refine ⟨by decide +kernel, ?_⟩
  exact lockCalls_ownReplies exampleSystem_deployed exampleSystem_quiet permitted

end MultiMaster.LockProtocol
