import MultiMaster.LockProtocol.OwnReply
import MultiMaster.LockProtocol.Wire

/-!
# Processes with connections and whole messages

The processes set up, the steps that are permitted, and the relation between processes with
their connections and the system that delivers whole messages.  A message that no connection
could be set up for is in flight for ever.
-/

namespace MultiMaster.LockProtocol

open Foundation NetIO LockTable

/-! ## The deployed processes -/

/-- A process knows the address that a host listens at. -/
structure Knows (handle : LockHandle) (host : HostName) (address : Address) : Prop where
  ip : handle.getIp host = some address.1
  port : handle.port? host remoteLockGroupName = some address.2

theorem Knows.congr {handle after : LockHandle} {host : HostName} {address : Address}
    (knows : Knows handle host address)
    (same : EventMessageHandle.SameAddresses handle after) : Knows after host address := by
  constructor
  · rw [EventMessageHandle.getIp, same.hostConfigMap]
    exact knows.ip
  · rw [same.port]
    exact knows.port

namespace WireSystem

def messages (system : WireSystem) (host : HostName) : LockHandle :=
  (system.parties host).messages

def nets (system : WireSystem) (host : HostName) : LibeventHandle :=
  (system.parties host).net

/-- The same processes without connections, before the first call. -/
def quietSystem (lockServerHost : HostName) (system : WireSystem) : LockSystem :=
  { server := system.messages lockServerHost
    table := system.table
    clients := system.messages
    calls := []
    network := []
    arrived := fun _ => []
    next := 0 }

end WireSystem

/-- Who takes part: the lock server, the hosts and the addresses they listen at. -/
structure Topology where
  lockServerHost : HostName
  hosts : List HostName
  listens : HostName → Address

namespace Topology

/-- All processes of the group. -/
def parties (topology : Topology) : List HostName := topology.lockServerHost :: topology.hosts

def isHost (topology : Topology) (host : HostName) : Prop := host ∈ topology.hosts

instance (topology : Topology) : DecidablePred topology.isHost := fun host =>
  inferInstanceAs (Decidable (host ∈ topology.hosts))

/-- Every process listens at a port of its own, and the names leave room for the sizes of
messages. -/
structure Valid (topology : Topology) : Prop where
  ports : ∀ party ∈ topology.parties,
    0 ≤ (topology.listens party).2 ∧ (topology.listens party).2 < 65536
  distinct : Distinct topology.parties topology.listens
  small : ∀ host ∈ topology.hosts, topology.lockServerHost.length + host.length < 2 ^ 30

end Topology

/-- The processes are set up and idle, and each is known by the address it listens at. -/
structure WireDeployed (topology : Topology) (system : WireSystem) : Prop where
  valid : topology.Valid
  deployed : Deployed topology.lockServerHost topology.isHost
    (system.quietSystem topology.lockServerHost)
  quiet : Quiet topology.isHost (system.quietSystem topology.lockServerHost)
  calls : system.calls = []
  links : system.links = []
  nets : ∀ host, system.nets host = LibeventHandle.initHandle
  serverKnows : ∀ host ∈ topology.hosts,
    Knows (system.messages topology.lockServerHost) host (topology.listens host)
  hostKnows : ∀ host ∈ topology.hosts,
    Knows (system.messages host) topology.lockServerHost
      (topology.listens topology.lockServerHost)

/-- Steps of the hosts, of libevent and of the network.  A host starts no second call about a
page while the first is unfinished.  Connections are accepted once, by the process that
listens at their address, from a port that is not taken for that of a process, and the
`cache_block` of the new record, which nobody sets, is false.  Bytes arrive that were written,
and no input grows longer than an `int` can count. -/
def WirePermitted (topology : Topology) (system : WireSystem) : WireSystem.Input → Prop
  | .request host request _ _ => topology.isHost host ∧
      ∀ call ∈ system.calls, ¬(call.1 = host ∧ call.2.page = request.page)
  | .accept opener openerId accepter peer fresh =>
      (∃ sender ∈ (system.nets opener).bevMap.lookup (openerId : Int),
        sender.isListen = false ∧ sender.address = topology.listens accepter) ∧
      accepter ∈ topology.parties ∧ (∀ link ∈ system.links, link.channel ≠ (opener, openerId)) ∧
      (∀ party ∈ topology.parties,
        (inetNtoa peer.addr.sinAddr, (peer.addr.sinPort.toNat : Int)) ≠ topology.listens party) ∧
      fresh.2 = false
  | .arrive position count _ _ => ∃ link ∈ system.links[position]?,
      ∃ sender ∈ (system.nets link.opener).bevMap.lookup (link.openerId : Int),
        link.carried + count ≤ sender.bev.output.length ∧
        (system.nets link.accepter).inputLength link.accepterId + count < 2 ^ 31
  | .poll host page => ∃ call ∈ system.calls, call.1 = host ∧ call.2.page = page

instance (topology : Topology) (system : WireSystem) :
    DecidablePred (WirePermitted topology system)
  | .request host request _ _ => inferInstanceAs (Decidable (topology.isHost host ∧
      ∀ call ∈ system.calls, ¬(call.1 = host ∧ call.2.page = request.page)))
  | .accept opener openerId accepter peer fresh => inferInstanceAs (Decidable (
      (∃ sender ∈ (system.nets opener).bevMap.lookup (openerId : Int),
        sender.isListen = false ∧ sender.address = topology.listens accepter) ∧
      accepter ∈ topology.parties ∧ (∀ link ∈ system.links, link.channel ≠ (opener, openerId)) ∧
      (∀ party ∈ topology.parties,
        (inetNtoa peer.addr.sinAddr, (peer.addr.sinPort.toNat : Int)) ≠ topology.listens party) ∧
      fresh.2 = false))
  | .arrive position count _ _ => inferInstanceAs (Decidable (∃ link ∈ system.links[position]?,
      ∃ sender ∈ (system.nets link.opener).bevMap.lookup (link.openerId : Int),
        link.carried + count ≤ sender.bev.output.length ∧
        (system.nets link.accepter).inputLength link.accepterId + count < 2 ^ 31))
  | .poll host page => inferInstanceAs (Decidable
      (∃ call ∈ system.calls, call.1 = host ∧ call.2.page = page))

/-! ## What can be seen of the steps -/

/-- An event of the system that delivers whole messages. -/
def seeEvent : LockSystem.LockEvent → List WireEvent
  | .sent call => [.sent call.host call.request]
  | .served call reply => [.served call.host call.request reply]
  | .queued _ => [.queued]
  | .waiting _ => [.waiting]
  | .returned call _ reply => [.returned call.host call.request reply]
  | .ignored => []

def seeOutcome (outcome : LockSystem.Outcome) : List WireEvent :=
  (event? outcome).toList.flatMap seeEvent

/-- The events of a step over connections. -/
def seeWire (answer : Option (List WireEvent)) : List WireEvent := answer.getD []

/-! ## The relation -/

/-- The name that a message in flight gives for its sender. -/
def transitSource (message : Transit) : HostName :=
  let mess := LockSystem.decode message.bytes
  (mess.sendHostName.cString mess.bufferStr).getD (.ofString "")

/-- Who sent a message in flight, whom it is for, and its bytes. -/
def transitPost : Post HostName Transit := ⟨transitSource, Transit.host, Transit.bytes⟩

theorem transitSource_encode {fields : MessageFields} (fits : fields.encodedSize < 2 ^ 32)
    (ticket : Nat) (host : HostName) :
    transitSource ⟨ticket, host, fields.encode⟩ = fields.sendHostName := by
  simp only [transitSource, decode_encode,
    (MessageFields.stores_received fits).sendHostName.cString_eq, Option.getD_some]

/-- A message is delivered only when no earlier message of its sender for the same process is in
flight. -/
def DeliversInOrder (system : LockSystem) : LockSystem.Input → Prop
  | .deliver position _ => ∀ message ∈ system.network[position]?,
      ∀ earlier ∈ system.network.take position,
        transitSource earlier = transitSource message → earlier.host ≠ message.host
  | .request _ _ _ | .poll _ _ => True

/-- Steps of the system that delivers whole messages, which come in order when connections can
be relied on. -/
def LockStep (topology : Topology) (reliable : Prop) (system : LockSystem)
    (input : LockSystem.Input) : Prop :=
  Permitted topology.isHost system input ∧ (reliable → DeliversInOrder system input)

/-- The message handles of the processes, the lock table and the unfinished calls are those of
the system that delivers whole messages, whose network holds the messages in flight. -/
structure Agrees (topology : Topology) (messages : HostName → LockHandle) (table : PageLockHash)
    (calls : List (HostName × PageLockRequest)) (lock : LockSystem)
    (flying : Flying HostName Transit) : Prop where
  server : lock.server = messages topology.lockServerHost
  clients : ∀ host ∈ topology.hosts, lock.clients host = messages host
  table : lock.table = table
  calls : calls = lock.calls.map fun call => (call.host, call.request)
  network : lock.network = flying.map Prod.snd
  exchange : ∃ exchange, Mirrors topology.lockServerHost topology.isHost lock exchange
  serverKnows : ∀ host ∈ topology.hosts,
    Knows (messages topology.lockServerHost) host (topology.listens host)
  hostKnows : ∀ host ∈ topology.hosts,
    Knows (messages host) topology.lockServerHost (topology.listens topology.lockServerHost)

/-- When connections can be relied on, every message in flight is on a connection. -/
def OnConnections (reliable : Prop) (flying : Flying HostName Transit) : Prop :=
  reliable → ∀ entry ∈ flying, entry.1 ≠ none

/-- The processes with their connections follow the system that delivers whole messages.  No
connection keeps a message that has arrived as a whole. -/
def WireFollows (topology : Topology) (reliable : Prop) (system : WireSystem)
    (lock : LockSystem) : Prop :=
  ∃ flying, Agrees topology system.messages system.table system.calls lock flying ∧
    Wired transitPost topology.parties topology.listens system.nets system.links flying ∧
    (∀ link ∈ system.links, Settled system.nets link) ∧ OnConnections reliable flying

variable {topology : Topology} {reliable : Prop} {system : WireSystem} {lock : LockSystem}

namespace OnConnections

variable {flying front back : Flying HostName Transit}

theorem concat (routed : OnConnections reliable flying) {channel : Option (RecordKey HostName)}
    (connects : reliable → channel ≠ none) (message : Transit) :
    OnConnections reliable (flying ++ [(channel, message)]) := by
  intro relies entry member
  rcases List.mem_append.mp member with old | new
  · exact routed relies entry old
  · rw [List.mem_singleton.mp new]
    exact connects relies

theorem take {entry : Option (RecordKey HostName) × Transit}
    (routed : OnConnections reliable (front ++ entry :: back)) :
    OnConnections reliable (front ++ back) := fun relies other member =>
  routed relies other (Exchange.mem_of_mem_removed member)

/-- The oldest message of a connection is delivered in order. -/
theorem inOrder {tag : Option (RecordKey HostName)} {message : Transit}
    (routed : OnConnections reliable (front ++ (tag, message) :: back))
    (turn : Foremost transitPost front message)
    (network : lock.network = front.map Prod.snd ++ message :: back.map Prod.snd)
    (storage : EventMessage) :
    reliable → DeliversInOrder lock (.deliver (front.map Prod.snd).length storage) := by
  intro relies here found earlier before source
  rw [network] at found before
  rw [List.getElem?_append_right (Nat.le_refl _), Nat.sub_self, List.getElem?_cons_zero] at found
  cases found
  rw [List.take_left' rfl] at before
  rcases List.mem_map.mp before with ⟨⟨channel, other⟩, member, rfl⟩
  cases channel with
  | none => exact absurd rfl (routed relies _ (List.mem_append_left _ member))
  | some key => exact turn key other member source

end OnConnections

theorem wireFollows_quiet (deployed : WireDeployed topology system) :
    WireFollows topology reliable system (system.quietSystem topology.lockServerHost) := by
  refine ⟨[], ⟨rfl, fun host _ => rfl, rfl, deployed.calls, rfl,
    ⟨_, mirrors_quiet deployed.deployed deployed.quiet⟩, deployed.serverKnows,
    deployed.hostKnows⟩, ?_, ?_, ?_⟩
  · rw [deployed.links]
    exact Wired.initial transitPost topology.parties topology.listens deployed.nets
  · intro link member
    rw [deployed.links] at member
    cases member
  · intro _ entry member
    cases member

end MultiMaster.LockProtocol
