import MultiMaster.LockProtocol.WireRelation
import MultiMaster.NetIO.Configuration

/-!
# Starting the lock protocol from its configuration

The lock server and the hosts are started from configuration documents, each from its own.
When the documents agree with each other, the processes are set up as the protocol needs
them, and only then.
-/

namespace MultiMaster.LockProtocol

open Foundation NetIO LockTable

/-! ## Starting processes -/

/-- The lock group of a process, and the port that it listens at. -/
def lockParty (handle : ProcessHandle LockCallback Unit) : Option (Party × Int) := do
  let group ← handle.objects.lookup remoteLockGroupName
  return (⟨handle.messages, group.handle⟩, group.localPort)

/-- A host sets up a message handle for its lock client. -/
def startHost (files : ConfigFiles) : Option (Party × Int) := do
  let handle ← ProcessHandle.fresh.initHandle files
  lockParty handle

/-- `lock_manager_init`. -/
def lockManagerInit (files : ConfigFiles) : Option (Party × Int) := do
  let handle ← ProcessHandle.fresh.initHandle files
  let (messages, _) ← handle.messages.registerReciveHandler remoteLockGroupName
    remoteLockRequestMessType (some .lockRequestCallback) (some ())
  lockParty { handle with messages := messages }

variable (topology : Topology) (files : HostName → ConfigFiles)

/-- The process of a name, with the port that it listens at. -/
def startParty (party : HostName) : Option (Party × Int) :=
  if party = topology.lockServerHost then lockManagerInit (files party)
  else startHost (files party)

/-- All processes before the first call.  A process that could not be started has nothing
configured. -/
def startSystem : WireSystem where
  parties party := ((startParty topology files party).map Prod.fst).getD
    ⟨ProcessHandle.fresh.messages, .initHandle⟩
  table := ∅
  calls := []
  links := []

/-- All processes start, listen where the others send to, and are set up for the lock
protocol. -/
structure Deploys : Prop where
  listening : ∀ party ∈ topology.parties, ∃ process,
    startParty topology files party = some (process, (topology.listens party).2)
  deployed : WireDeployed topology (startSystem topology files)

/-! ## Documents that agree -/

/-- The processes that a process sends messages to. -/
def Topology.peers (party : HostName) : List HostName :=
  if party = topology.lockServerHost then topology.hosts else [topology.lockServerHost]

/-- A configuration describes a process of the lock group: it is the local one, listens at
its port and knows the addresses of the processes it sends to. -/
structure Places (party : HostName) (configuration : Configuration) (group : GroupEntry) :
    Prop where
  found : configuration.group? remoteLockGroupName = some group
  types : remoteLockRequestMessType ∈ group.types ∧ remoteLockReplyMessType ∈ group.types
  name : configuration.localHost = party
  listens : group.localPort party = (topology.listens party).2
  ips : ∀ peer ∈ topology.peers party, configuration.ip? peer = some (topology.listens peer).1
  ports : ∀ peer ∈ topology.peers party, group.port? peer = some (topology.listens peer).2

/-- The documents of all processes are in order and describe the same addresses.  No process
that messages are sent to listens at port zero. -/
structure Consistent : Prop where
  valid : topology.Valid
  apart : ¬topology.isHost topology.lockServerHost
  nonzero : ∀ party ∈ topology.parties, ∀ peer ∈ topology.peers party,
    (topology.listens peer).2 ≠ 0
  describes : ∀ party ∈ topology.parties, ∃ configuration group,
    (files party).configuration? = some configuration ∧
      Places topology party configuration group

/-! ## A started process -/

/-- A process that was started from a configuration. -/
structure StartedFrom (party : HostName) (process : Party) (configuration : Configuration)
    (group : GroupEntry) : Prop where
  found : configuration.group? remoteLockGroupName = some group
  net : process.net = .initHandle
  messages : configuration.Describes process.messages
  server : party = topology.lockServerHost → remoteLockRequestMessType ∈ group.types →
    process.messages.callback requestKey = some (.lockRequestCallback, some ())
  host : party ≠ topology.lockServerHost → process.messages.Idle

variable {topology files} {party : HostName} {process : Party} {port : Int}
variable {configuration : Configuration} {group : GroupEntry}

/-- The lock group of a configured handle, whatever has been registered. -/
theorem lockParty_handle (messages : LockHandle) :
    lockParty { (configuration.handle : ProcessHandle LockCallback Unit) with
        messages := messages } =
      (configuration.group? remoteLockGroupName).map fun group =>
        (⟨messages, .initHandle⟩, group.localPort configuration.localHost) := by
  have listening :
      ((configuration.handle : ProcessHandle LockCallback Unit).objects.lookup
          remoteLockGroupName).map GroupObject.listening = _ :=
    configuration.handle_listening remoteLockGroupName
  rw [lockParty]
  dsimp only
  cases found : configuration.group? remoteLockGroupName with
  | none =>
      rw [found, Option.map_none, Option.map_eq_none_iff] at listening
      rw [listening]
      rfl
  | some group =>
      rw [found, Option.map_some, Option.map_eq_some_iff] at listening
      rcases listening with ⟨object, looked, same⟩
      rw [looked]
      simp only [GroupObject.listening, Prod.mk.injEq] at same
      simp only [Option.bind_eq_bind, Option.bind_some, Option.map_some, Option.pure_def,
        same.1, same.2]

/-- The server registers its callback in a handle that its configuration describes. -/
theorem register_describes (configuration : Configuration) : ∃ (messages : LockHandle) (ok : Bool),
    (configuration.handle : ProcessHandle LockCallback Unit).messages.registerReciveHandler
        remoteLockGroupName remoteLockRequestMessType (some .lockRequestCallback) (some ()) =
      some (messages, ok) ∧
    configuration.Describes messages ∧
    (messages.Configured requestKey →
      messages.callback requestKey = some (.lockRequestCallback, some ())) := by
  rcases (configuration.handle : ProcessHandle LockCallback Unit).messages
      |>.registerReciveHandler_effect remoteLockGroupName remoteLockRequestMessType
        (some .lockRequestCallback) (some ()) with
    ⟨messages, ok, registered, _, configured, callbacks⟩
  refine ⟨messages, ok, registered, configuration.handle_describes.register registered, ?_⟩
  intro known
  exact (callbacks requestKey ((configured requestKey).mp known)).trans (if_pos rfl)

variable (topology) in
/-- A process whose documents can be read starts when they have the lock group. -/
theorem exists_startParty (read : (files party).configuration? = some configuration) :
    ∃ process, startParty topology files party =
        (configuration.group? remoteLockGroupName).map (fun group =>
          (process, group.localPort configuration.localHost)) ∧
      ∀ group, configuration.group? remoteLockGroupName = some group →
        StartedFrom topology party process configuration group := by
  by_cases isServer : party = topology.lockServerHost
  · rcases register_describes configuration with
      ⟨messages, ok, registered, describes, callback⟩
    refine ⟨⟨messages, .initHandle⟩, ?_, fun group found => ⟨found, rfl, describes, ?_, ?_⟩⟩
    · rw [startParty, if_pos isServer, lockManagerInit, initHandle_fresh, read]
      simp only [Option.map_some, Option.bind_eq_bind, Option.bind_some, registered]
      exact lockParty_handle messages
    · intro _ member
      exact callback ((describes.types requestKey).mpr ⟨group, found, member⟩)
    · intro isHost
      exact absurd isServer isHost
  · refine ⟨⟨configuration.handle.messages, .initHandle⟩, ?_, fun group found =>
      ⟨found, rfl, configuration.handle_describes, ?_, fun _ => configuration.handle_idle⟩⟩
    · rw [startParty, if_neg isServer, startHost, initHandle_fresh, read]
      exact lockParty_handle configuration.handle.messages
    · intro server
      exact absurd server isServer

/-- A process that has started was given documents that can be read and have the lock
group. -/
theorem exists_configuration
    (started : startParty topology files party = some (process, port)) :
    ∃ configuration group, (files party).configuration? = some configuration ∧
      port = group.localPort configuration.localHost ∧
      StartedFrom topology party process configuration group := by
  cases read : (files party).configuration? with
  | none =>
      rw [startParty, lockManagerInit, startHost, initHandle_fresh, read] at started
      by_cases isServer : party = topology.lockServerHost
      · rw [if_pos isServer] at started
        cases started
      · rw [if_neg isServer] at started
        cases started
  | some configuration =>
      rcases exists_startParty topology read with ⟨other, same, from_⟩
      rw [started, eq_comm, Option.map_eq_some_iff] at same
      rcases same with ⟨group, found, same⟩
      cases same
      exact ⟨configuration, group, rfl, rfl, from_ group found⟩

/-! ## Agreement is what the protocol needs -/

namespace StartedFrom

/-- The address of another process that a started process knows. -/
theorem knows_iff (started : StartedFrom topology party process configuration group)
    {peer : HostName} {address : Address} (elsewhere : peer ≠ configuration.localHost) :
    Knows process.messages peer address ↔
      configuration.ip? peer = some address.1 ∧ group.port? peer = some address.2 := by
  have port : process.messages.port? peer remoteLockGroupName = group.port? peer := by
    rw [started.messages.port, started.found, Option.bind_some, if_neg elsewhere, Option.or_none]
  constructor
  · rintro ⟨ip, known⟩
    exact ⟨started.messages.ip peer ▸ ip, port ▸ known⟩
  · rintro ⟨ip, known⟩
    exact ⟨(started.messages.ip peer).trans ip, port.trans known⟩

theorem configured_iff (started : StartedFrom topology party process configuration group)
    (type : CString) :
    process.messages.Configured (remoteLockGroupName, type) ↔ type ∈ group.types := by
  rw [started.messages.types, started.found]
  constructor
  · rintro ⟨_, ⟨⟩, member⟩
    exact member
  · intro member
    exact ⟨group, rfl, member⟩

end StartedFrom

theorem startSystem_party (started : startParty topology files party = some (process, port)) :
    (startSystem topology files).parties party = process := by
  rw [startSystem]
  dsimp only
  rw [started]
  rfl

theorem startSystem_net (party : HostName) :
    (startSystem topology files).nets party = .initHandle := by
  rw [WireSystem.nets]
  cases started : startParty topology files party with
  | none =>
      rw [startSystem]
      dsimp only
      rw [started]
      rfl
  | some result =>
      rcases result with ⟨process, port⟩
      rcases exists_configuration started with ⟨_, _, _, _, from_⟩
      rw [startSystem_party started]
      exact from_.net

/-- A process sends to no process of its own name. -/
theorem Topology.ne_of_mem_peers (apart : ¬topology.isHost topology.lockServerHost)
    {peer : HostName} (member : peer ∈ topology.peers party) (among : party ∈ topology.parties) :
    peer ≠ party := by
  rw [Topology.peers] at member
  by_cases isServer : party = topology.lockServerHost
  · rw [if_pos isServer] at member
    rintro rfl
    exact apart (isServer ▸ member)
  · rw [if_neg isServer, List.mem_singleton] at member
    rw [member]
    exact Ne.symm isServer

theorem Knows.reaches {handle : LockHandle} {peer : HostName} {address : Address}
    (knows : Knows handle peer address) (nonzero : address.2 ≠ 0) :
    handle.Reaches remoteLockGroupName peer :=
  ⟨Option.isSome_iff_exists.mpr ⟨address.1, knows.ip⟩, address.2, knows.port, nonzero⟩

theorem Knows.nonzero {handle : LockHandle} {peer : HostName} {address : Address}
    (knows : Knows handle peer address) (reaches : handle.Reaches remoteLockGroupName peer) :
    address.2 ≠ 0 := by
  rcases reaches.port with ⟨port, found, nonzero⟩
  rw [knows.port] at found
  cases found
  exact nonzero

/-- A process of the system with the configuration it was started from. -/
theorem Consistent.started (consistent : Consistent topology files)
    (among : party ∈ topology.parties) : ∃ configuration group process,
      startParty topology files party = some (process, (topology.listens party).2) ∧
      StartedFrom topology party process configuration group ∧
      Places topology party configuration group := by
  rcases consistent.describes party among with ⟨configuration, group, read, places⟩
  rcases exists_startParty topology read with ⟨process, started, from_⟩
  rw [places.found, Option.map_some, places.name, places.listens] at started
  exact ⟨configuration, group, process, started, from_ group places.found, places⟩

/-- What the protocol needs of a process that its documents describe. -/
theorem Consistent.knows (consistent : Consistent topology files)
    (among : party ∈ topology.parties) {peer : HostName} (member : peer ∈ topology.peers party) :
    Knows ((startSystem topology files).messages party) peer (topology.listens peer) := by
  rcases consistent.started among with ⟨configuration, group, process, started, from_, places⟩
  rw [WireSystem.messages, startSystem_party started, from_.knows_iff]
  · exact ⟨places.ips peer member, places.ports peer member⟩
  · rw [places.name]
    exact Topology.ne_of_mem_peers consistent.apart member among

theorem Topology.peers_server : topology.peers topology.lockServerHost = topology.hosts :=
  if_pos rfl

theorem Topology.peers_host (apart : ¬topology.isHost topology.lockServerHost)
    (isHost : topology.isHost party) : topology.peers party = [topology.lockServerHost] := by
  refine if_neg ?_
  rintro rfl
  exact apart isHost

theorem Consistent.serverReady (consistent : Consistent topology files) :
    ServerReady topology.lockServerHost topology.isHost
      ((startSystem topology files).messages topology.lockServerHost) := by
  have among : topology.lockServerHost ∈ topology.parties := List.mem_cons_self
  have knows {host : HostName} (isHost : topology.isHost host) :
      host ∈ topology.peers topology.lockServerHost := Topology.peers_server ▸ isHost
  have reaches (host : HostName) (isHost : topology.isHost host) :=
    (consistent.knows among (knows isHost)).reaches
      (consistent.nonzero _ among host (knows isHost))
  rcases consistent.started among with ⟨configuration, group, process, started, from_, places⟩
  rw [WireSystem.messages, startSystem_party started] at reaches ⊢
  exact ⟨from_.messages.name.trans places.name, ⟨some (), from_.server rfl places.types.1⟩,
    (from_.configured_iff _).mpr places.types.2, reaches⟩

theorem Consistent.hostReady (consistent : Consistent topology files) {host : HostName}
    (isHost : topology.isHost host) :
    ClientReady topology.lockServerHost host ((startSystem topology files).messages host) ∧
      ((startSystem topology files).messages host).Idle := by
  have among : host ∈ topology.parties := List.mem_cons_of_mem _ isHost
  have knows : topology.lockServerHost ∈ topology.peers host := by
    rw [Topology.peers_host consistent.apart isHost]
    exact List.mem_cons_self
  have reaches := (consistent.knows among knows).reaches (consistent.nonzero _ among _ knows)
  have elsewhere : host ≠ topology.lockServerHost :=
    (Topology.ne_of_mem_peers consistent.apart knows among).symm
  rcases consistent.started among with ⟨configuration, group, process, started, from_, places⟩
  rw [WireSystem.messages, startSystem_party started] at reaches ⊢
  have idle := from_.host elsewhere
  exact ⟨⟨from_.messages.name.trans places.name, (from_.configured_iff _).mpr places.types.1,
    (from_.configured_iff _).mpr places.types.2, (idle replyKey).1, reaches⟩, idle⟩

/-- Processes that are started from documents that agree are set up for the lock protocol. -/
theorem Consistent.deploys (consistent : Consistent topology files) :
    Deploys topology files := by
  have server : topology.lockServerHost ∈ topology.parties := List.mem_cons_self
  refine ⟨?_, ⟨consistent.valid, ⟨consistent.serverReady, ?_, consistent.apart, ?_⟩,
    ⟨rfl, rfl, ?_, fun _ _ => rfl⟩, rfl, rfl, startSystem_net, ?_, ?_⟩⟩
  · intro party among
    rcases consistent.started among with ⟨_, _, process, started, _⟩
    exact ⟨process, started⟩
  · intro host isHost
    exact (consistent.hostReady isHost).1
  · intro host isHost
    have small := consistent.valid.small host isHost
    rw [ShortNames]
    omega
  · intro host isHost key
    exact ((consistent.hostReady isHost).2 key).2
  · intro host isHost
    exact consistent.knows server (Topology.peers_server ▸ isHost)
  · intro host isHost
    refine consistent.knows (List.mem_cons_of_mem _ isHost) ?_
    rw [Topology.peers_host consistent.apart isHost]
    exact List.mem_cons_self

/-! ## Nothing else is -/

namespace Deploys

theorem apart (deploys : Deploys topology files) : ¬topology.isHost topology.lockServerHost :=
  deploys.deployed.deployed.apart

/-- Every process has its own name, both message types and the addresses of its peers. -/
theorem needs (deploys : Deploys topology files) (among : party ∈ topology.parties) :
    let messages := (startSystem topology files).messages party
    messages.localHostName = party ∧
      messages.Configured requestKey ∧ messages.Configured replyKey ∧
      ∀ peer ∈ topology.peers party, Knows messages peer (topology.listens peer) ∧
        messages.Reaches remoteLockGroupName peer := by
  intro messages
  have deployed := deploys.deployed
  by_cases isServer : party = topology.lockServerHost
  · subst isServer
    have ready := deployed.deployed.server
    refine ⟨ready.name, ?_, ready.reply, ?_⟩
    · rcases ready.registered with ⟨arg, registered⟩
      exact EventMessageHandle.configured_of_callback registered
    · intro peer member
      rw [Topology.peers_server] at member
      exact ⟨deployed.serverKnows peer member, ready.reaches peer member⟩
  · have isHost : topology.isHost party := by
      rcases List.mem_cons.mp among with same | member
      · exact absurd same isServer
      · exact member
    have ready := deployed.deployed.clients party isHost
    refine ⟨ready.name, ready.request, ready.reply, ?_⟩
    intro peer member
    rw [Topology.peers_host deploys.apart isHost, List.mem_singleton] at member
    subst member
    exact ⟨deployed.hostKnows party isHost, ready.reaches⟩

theorem consistent (deploys : Deploys topology files) : Consistent topology files := by
  refine ⟨deploys.deployed.valid, deploys.apart, ?_, ?_⟩
  · intro party among peer member
    rcases (deploys.needs among).2.2.2 peer member with ⟨knows, reaches⟩
    exact knows.nonzero reaches
  · intro party among
    rcases deploys.listening party among with ⟨process, started⟩
    rcases exists_configuration started with ⟨configuration, group, read, listens, from_⟩
    rcases deploys.needs among with ⟨name, request, reply, peers⟩
    rw [WireSystem.messages, startSystem_party started] at name request reply peers
    have here : configuration.localHost = party := from_.messages.name.symm.trans name
    have known (peer : HostName) (member : peer ∈ topology.peers party) :
        configuration.ip? peer = some (topology.listens peer).1 ∧
          group.port? peer = some (topology.listens peer).2 := by
      refine (from_.knows_iff ?_).mp (peers peer member).1
      rw [here]
      exact Topology.ne_of_mem_peers deploys.apart member among
    exact ⟨configuration, group, read, from_.found,
      ⟨(from_.configured_iff _).mp request, (from_.configured_iff _).mp reply⟩, here,
      here ▸ listens.symm, fun peer member => (known peer member).1,
      fun peer member => (known peer member).2⟩

end Deploys

/-- The processes are set up for the lock protocol, and listen where messages to them are
sent, exactly when their documents describe the same addresses and name each process. -/
theorem deploys_iff_consistent : Deploys topology files ↔ Consistent topology files :=
  ⟨Deploys.consistent, Consistent.deploys⟩

/-! ## The documents of the repository -/

open Packet in
/-- An array of objects with the given members. -/
def jsonRows (rows : List (List (String × Json))) : Json :=
  .array (rows.foldr (fun row => .cons (.object (row.foldr
    (fun entry => .cons (literal entry.1) entry.2) .nil))) .nil)

open Packet in
/-- `lock_server_host_config.json` and `lock_client_host_config.json`, which differ in the
local host. -/
def hostConfig (localHost : String) : Json :=
  jsonRows (["host1", "lock_client", "lock_server"].map fun name =>
    [("name", .string (literal name)), ("ip", .string (literal "127.0.0.1")),
      ("is_local", .scalar (.bool (name = localHost)))])

open Packet in
/-- `lock_server_mess_config.json`. -/
def lockServerMessConfig : Json :=
  jsonRows [[("group_name", .string (literal "centralized_lock")),
    ("hosts", jsonRows ([("host1", 25557), ("lock_client", 25558), ("lock_server", 25559)].map
      fun entry => [("name", .string (literal entry.1)), ("port", .uint entry.2)])),
    ("mess_type", jsonRows (["PageLockRequest", "PageLockReply"].map fun name =>
      [("name", .string (literal name))]))]]

/-- The lock server and the client of the repository. -/
def shippedTopology : Topology where
  lockServerHost := .ofString "lock_server"
  hosts := [.ofString "lock_client"]
  listens host :=
    (.ofString "127.0.0.1", if host = .ofString "lock_server" then 25559 else 25558)

def shippedFiles (party : HostName) : ConfigFiles where
  hostConfig := hostConfig (if party = .ofString "lock_server" then "lock_server"
    else "lock_client")
  messConfig := lockServerMessConfig

theorem shippedFiles_consistent : Consistent shippedTopology shippedFiles := by
  refine ⟨⟨by decide, ?_, by decide⟩, by decide, by decide, ?_⟩
  · rw [Distinct]
    decide
  · intro party among
    rcases List.mem_cons.mp among with rfl | host
    · exact ⟨_, _, rfl, rfl, by decide, rfl, rfl, by decide, by decide⟩
    · rw [List.mem_singleton.mp host]
      exact ⟨_, _, rfl, rfl, by decide, rfl, rfl, by decide, by decide⟩

/-- The documents of the repository start the lock server and its client as the protocol needs
them. -/
theorem shippedFiles_deploy : Deploys shippedTopology shippedFiles :=
  deploys_iff_consistent.mpr shippedFiles_consistent

end MultiMaster.LockProtocol
