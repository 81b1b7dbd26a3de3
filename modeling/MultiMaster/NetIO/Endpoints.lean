import MultiMaster.NetIO.Routing
import MultiMaster.NetIO.Sockets

/-!
# The peer behind a connection id

The table of connections is searched by an ip and a port.  Outgoing connections are recorded
with the port that was asked for, accepted ones with `sin_port` as the machine reads it, and
the duplicate check of `connlistener_cb` swaps the port as if it had 32 bits.  The sockets
are followed beside the table, to see which peer is behind the id a search returns.
-/

namespace MultiMaster.NetIO

open Foundation

/-- A peer that connects to the listener, from a port that is not zero. -/
structure Peer where
  addr : SockaddrIn
  valid : addr.sinPort ≠ 0

namespace LibeventHandle

/-- A peer was accepted.  The id of its connection, unless it is taken for a duplicate. -/
def connlistenerCb (handle : LibeventHandle) (addr : SockaddrIn) (fresh : Int × Bool) :
    Option (LibeventHandle × Int) := do
  let (handle, connectId) ← handle.getConnectionId (inetNtoa addr.sinAddr)
    (toInt (ntohl addr.sinPort.toUInt32).toNat) false false fresh
  if 0 ≤ connectId then return (handle, -1)
  else handle.addBuffereventListen (inetNtoa addr.sinAddr) addr.sinPort.toNat fresh

end LibeventHandle

/-- The address that `add_bufferevent_connect` connects to. -/
def connectSockaddr (ip : CString) (port : Int) : SockaddrIn :=
  ⟨inetAddr ip, htons (UInt16.ofInt port)⟩

/-- What happens at a handle: a peer connects, or a connection is asked for. -/
inductive EndpointEvent where
  | accept (peer : Peer) (fresh : Int × Bool)
  | get (ip : CString) (port : Int) (fresh : Int × Bool)

namespace EndpointEvent

/-- The address an event searches or adds to the table. -/
def address : EndpointEvent → Address
  | accept peer _ => (inetNtoa peer.addr.sinAddr, peer.addr.sinPort.toNat)
  | get ip port _ => (ip, port)

/-- The peer of a connection that is added by an event. -/
def remote : EndpointEvent → SockaddrIn
  | accept peer _ => peer.addr
  | get ip port _ => connectSockaddr ip port

end EndpointEvent

/-- A handle with the remote ends of its sockets. -/
structure Host where
  handle : LibeventHandle
  sockets : OrderedMap Int SockaddrIn

namespace Host

def initial : Host := ⟨LibeventHandle.initHandle, OrderedMap.empty⟩

/-- The effect of an event on the handle.  Connection attempts succeed. -/
def runEvent (handle : LibeventHandle) : EndpointEvent → Option (LibeventHandle × Int)
  | .accept peer fresh => handle.connlistenerCb peer.addr fresh
  | .get ip port fresh => handle.getConnectionId ip port true true fresh

/-- A connection was added when the next id has moved. -/
def endpoints : Machine Host EndpointEvent (Option Int) where
  step host event :=
    match runEvent host.handle event with
    | none => (host, none)
    | some (after, connectId) =>
        if host.handle.maxBevId < after.maxBevId then
          (⟨after, host.sockets.insert connectId event.remote⟩, some connectId)
        else (⟨after, host.sockets⟩, some connectId)

/-- A host after any events. -/
def reached (events : List EndpointEvent) : Host := endpoints.exec initial events

/-- The id that is returned for an event after others. -/
def answered (events : List EndpointEvent) (event : EndpointEvent) : Option Int :=
  (endpoints.step (reached events) event).2

end Host

/-- An ip and a port stand for the remote end of a socket. -/
def IsRemote (ip : CString) (port : Int) (remote : SockaddrIn) : Prop :=
  inetAton ip = some remote.sinAddr ∧ port = (ntohs remote.sinPort).toNat

instance (ip : CString) (port : Int) (remote : SockaddrIn) :
    Decidable (IsRemote ip port remote) :=
  inferInstanceAs (Decidable (_ ∧ _))

/-- Every id returned for an ip and a port belongs, from then on, to a connection with that
remote end. -/
def ReachesAddressed (events : List EndpointEvent) : Prop :=
  ∀ before ip port fresh after, events = before ++ .get ip port fresh :: after →
    ∃ connectId remote, Host.answered before (.get ip port fresh) = some connectId ∧
      (Host.reached events).sockets.lookup connectId = some remote ∧
      IsRemote ip port remote

/-- An ip and a port that stand for some remote end. -/
def IsEndpoint (ip : CString) (port : Int) : Prop :=
  (inetAton ip).isSome ∧ 0 ≤ port ∧ port < 65536

/-- The two bytes of a port that was accepted are equal. -/
def EndpointEvent.Symmetric : EndpointEvent → Prop
  | accept peer _ => ntohs peer.addr.sinPort = peer.addr.sinPort
  | get _ _ _ => True

/-- Whatever is asked for stands for a remote end, and was not first seen as an accepted
port with different bytes. -/
def Unconfused (events : List EndpointEvent) : Prop :=
  ∀ ip port fresh, .get ip port fresh ∈ events →
    IsEndpoint ip port ∧
      ∀ first, events.find? (fun event => event.address = (ip, port)) = some first →
        first.Symmetric

/-! ## One event -/

/-- The first record of every address was added by the first event of that address. -/
structure Traced (events : List EndpointEvent) (host : Host) (records : List BevInfor) :
    Prop where
  showing : Shows host.handle records
  backed : ∀ position < records.length, (host.sockets.lookup (position : Int)).isSome
  first : ∀ address,
    (firstOf address records).bind (fun position => host.sockets.lookup (position : Int)) =
      (events.find? fun event => event.address = address).map EndpointEvent.remote

/-- Only endpoints are asked for. -/
def EndpointEvent.Addressable : EndpointEvent → Prop
  | accept _ _ => True
  | get ip port _ => IsEndpoint ip port

variable {events : List EndpointEvent} {host : Host} {records : List BevInfor}
variable {event : EndpointEvent} {address : Address}

theorem find?_concat (events : List EndpointEvent) (event : EndpointEvent)
    (address : Address) :
    (events ++ [event]).find? (fun event => event.address = address) =
      (events.find? fun event => event.address = address).or
        (if event.address = address then some event else none) := by
  rw [List.find?_append]
  by_cases same : event.address = address
  · simp [same]
  · simp [same]

namespace Traced

theorem initial : Traced [] Host.initial [] :=
  ⟨Shows.initial, by simp, by intro address; rfl⟩

/-- An address has a record once an event was about it. -/
theorem firstOf_eq_none_iff (traced : Traced events host records) :
    firstOf address records = none ↔
      events.find? (fun event => event.address = address) = none := by
  have first := traced.first address
  constructor
  · intro missing
    rw [missing] at first
    exact Option.map_eq_none_iff.mp first.symm
  · intro missing
    rw [missing] at first
    cases found : firstOf address records with
    | none => rfl
    | some position =>
        have inside := (List.findIdx?_eq_some_iff_getElem.mp found).1
        have present := traced.backed position inside
        rw [found] at first
        simp only [Option.bind_some, Option.map_none] at first
        rw [first] at present
        cases present

/-- An event about an address that has a record adds nothing. -/
theorem found (traced : Traced events host records) {position : Nat}
    (known : firstOf event.address records = some position) :
    Traced (events ++ [event]) host records := by
  refine ⟨traced.showing, traced.backed, ?_⟩
  intro address
  rw [traced.first, find?_concat]
  by_cases same : event.address = address
  · subst same
    cases earlier : events.find? fun other => other.address = event.address with
    | none =>
        rw [traced.firstOf_eq_none_iff.mpr earlier] at known
        cases known
    | some other => rw [Option.some_or]
  · rw [if_neg same, Option.or_none]

/-- An event adds a record behind all others. -/
theorem added (traced : Traced events host records) {after : LibeventHandle}
    {info : BevInfor} (matching : info.address = event.address)
    (showing : Shows after (records ++ [info])) :
    Traced (events ++ [event])
      ⟨after, host.sockets.insert (records.length : Int) event.remote⟩ (records ++ [info]) := by
  refine ⟨showing, ?_, ?_⟩
  · intro position inside
    by_cases last : position = records.length
    · rw [last, OrderedMap.lookup_insert]
      rfl
    · rw [OrderedMap.lookup_insert_ne (by omega)]
      rw [List.length_append, List.length_singleton] at inside
      exact traced.backed position (by omega)
  · intro address
    rw [firstOf_concat, find?_concat, matching]
    cases known : firstOf address records with
    | none =>
        rw [traced.firstOf_eq_none_iff.mp known, Option.none_or, Option.none_or]
        by_cases same : event.address = address
        · rw [if_pos same, if_pos same, Option.bind_some, OrderedMap.lookup_insert]
          rfl
        · rw [if_neg same, if_neg same]
          rfl
    | some position =>
        have inside := (List.findIdx?_eq_some_iff_getElem.mp known).1
        have first := traced.first address
        rw [known, Option.bind_some] at first
        rw [Option.some_or, Option.bind_some, OrderedMap.lookup_insert_ne (by omega), first]
        cases earlier : events.find? fun other => other.address = address with
        | none =>
            rw [traced.firstOf_eq_none_iff.mpr earlier] at known
            cases known
        | some other => rw [Option.some_or]

/-- A request is given the first record of its address. -/
theorem get_step (traced : Traced events host records) (ip : CString) (port : Int)
    (fresh : Int × Bool) :
    ∃ position : Nat, ∃ after,
      (Host.endpoints.step host (.get ip port fresh)).2 = some (position : Int) ∧
      Traced (events ++ [.get ip port fresh])
        (Host.endpoints.step host (.get ip port fresh)).1 after ∧
      Grows records after ∧ firstOf (ip, port) after = some position := by
  rcases traced.showing.getConnectionId_eq ip port true fresh with ⟨later, requested, showing⟩
  have next := traced.showing.next
  have nextLater := showing.next
  rw [requestRecord] at requested showing nextLater
  cases known : firstOf (ip, port) records with
  | some position =>
      rw [known] at requested showing nextLater
      have still : ¬host.handle.maxBevId < later.maxBevId := by
        simp only at nextLater
        omega
      have stepped : Host.endpoints.step host (.get ip port fresh) =
          (⟨later, host.sockets⟩, some (position : Int)) := by
        simp only [Host.endpoints, Host.runEvent, requested, if_neg still]
      rw [stepped]
      have same : Traced (events ++ [.get ip port fresh]) host records := traced.found known
      exact ⟨position, records, rfl, ⟨showing, same.backed, same.first⟩, Grows.refl records,
        known⟩
  | none =>
      rw [known] at requested showing nextLater
      rw [if_pos rfl] at requested showing nextLater
      have moved : host.handle.maxBevId < later.maxBevId := by
        simp only [List.length_append, List.length_singleton] at nextLater
        omega
      have stepped : Host.endpoints.step host (.get ip port fresh) =
          (⟨later, host.sockets.insert (records.length : Int) (connectSockaddr ip port)⟩,
            some (records.length : Int)) := by
        simp only [Host.endpoints, Host.runEvent, requested, if_pos moved]
        rfl
      rw [stepped]
      have matching : (freshRecord ip port false fresh).address = (ip, port) := rfl
      refine ⟨records.length, records ++ [freshRecord ip port false fresh], rfl,
        traced.added rfl showing, Grows.concat records _, ?_⟩
      rw [firstOf_concat, known, Option.none_or, if_pos matching]

/-- An accepted peer is not taken for a duplicate: the number its port is swapped to is not
the port of any record. -/
theorem accept_step (traced : Traced events host records) (peer : Peer) (fresh : Int × Bool)
    (addressable : ∀ event ∈ events, event.Addressable) :
    ∃ after, Traced (events ++ [.accept peer fresh])
        (Host.endpoints.step host (.accept peer fresh)).1 after ∧ Grows records after := by
  have outside := toInt_ntohl_port peer.valid
  have unknown : firstOf (inetNtoa peer.addr.sinAddr,
      toInt (ntohl peer.addr.sinPort.toUInt32).toNat) records = none := by
    rw [traced.firstOf_eq_none_iff, List.find?_eq_none]
    intro other member
    rw [decide_eq_true_eq]
    intro same
    have samePort := congrArg Prod.snd same
    cases other with
    | accept earlier _ =>
        have small := earlier.addr.sinPort.toNat_lt
        simp only [EndpointEvent.address] at samePort
        omega
    | get ip port _ =>
        have endpoint : IsEndpoint ip port := addressable _ member
        have bounds := endpoint.2
        simp only [EndpointEvent.address] at samePort
        omega
  have searched := traced.showing.getConnectionId_search (inetNtoa peer.addr.sinAddr)
    (toInt (ntohl peer.addr.sinPort.toUInt32).toNat) false fresh
  rw [unknown] at searched
  rcases traced.showing.addBuffereventListen_eq (inetNtoa peer.addr.sinAddr)
    peer.addr.sinPort.toNat fresh with ⟨later, listened, showing⟩
  have accepted : host.handle.connlistenerCb peer.addr fresh =
      some (later, (records.length : Int)) := by
    rw [LibeventHandle.connlistenerCb, searched]
    exact listened
  have moved : host.handle.maxBevId < later.maxBevId := by
    rw [traced.showing.next, showing.next, List.length_append, List.length_singleton]
    omega
  have stepped : Host.endpoints.step host (.accept peer fresh) =
      (⟨later, host.sockets.insert (records.length : Int) peer.addr⟩,
        some (records.length : Int)) := by
    simp only [Host.endpoints, Host.runEvent, accepted, if_pos moved]
    rfl
  rw [stepped]
  exact ⟨_, traced.added rfl showing, Grows.concat records _⟩

/-- The table over further events. -/
theorem run (traced : Traced events host records) (later : List EndpointEvent)
    (addressable : ∀ event ∈ events ++ later, event.Addressable) :
    ∃ after, Traced (events ++ later) (Host.endpoints.exec host later) after ∧
      Grows records after := by
  induction later generalizing events host records with
  | nil =>
      rw [List.append_nil]
      exact ⟨records, traced, Grows.refl records⟩
  | cons event rest ih =>
      have stepped : ∃ middle, Traced (events ++ [event]) (Host.endpoints.step host event).1
          middle ∧ Grows records middle := by
        cases event with
        | accept peer fresh =>
            apply traced.accept_step peer fresh
            intro other member
            exact addressable other (List.mem_append_left _ member)
        | get ip port fresh =>
            rcases traced.get_step ip port fresh with ⟨_, middle, _, later, grows, _⟩
            exact ⟨middle, later, grows⟩
      rcases stepped with ⟨middle, tracedMiddle, grows⟩
      rw [List.append_cons] at addressable
      rcases ih tracedMiddle addressable with ⟨after, tracedAfter, growsAfter⟩
      rw [List.append_cons]
      exact ⟨after, tracedAfter, grows.trans growsAfter⟩

end Traced

/-! ## Whole histories -/

/-- The peer behind an id that was returned is the one of the first event of the address. -/
theorem answered_first (addressable : ∀ event ∈ events, event.Addressable)
    {before after : List EndpointEvent} {ip : CString} {port : Int} {fresh : Int × Bool}
    (split : events = before ++ .get ip port fresh :: after) :
    ∃ position : Nat, Host.answered before (.get ip port fresh) = some (position : Int) ∧
      (Host.reached events).sockets.lookup (position : Int) =
        (events.find? fun event => event.address = (ip, port)).map EndpointEvent.remote := by
  subst split
  have earlier : ∀ event ∈ [] ++ before, event.Addressable := by
    intro event member
    exact addressable event (List.mem_append_left _ member)
  rcases Traced.initial.run before earlier with ⟨records, traced, _⟩
  rcases traced.get_step ip port fresh with ⟨position, middle, answer, tracedMiddle, _, first⟩
  rw [List.nil_append] at tracedMiddle
  rw [List.append_cons] at addressable
  rcases tracedMiddle.run after addressable with ⟨final, tracedFinal, grows⟩
  refine ⟨position, answer, ?_⟩
  have known := tracedFinal.first (ip, port)
  rw [grows.firstOf_eq first, Option.bind_some, ← List.append_cons] at known
  rw [← known, Host.reached, Machine.exec_append, Machine.exec_cons]

theorem addressable_of_asked
    (asked : ∀ ip port fresh, .get ip port fresh ∈ events → IsEndpoint ip port) :
    ∀ event ∈ events, event.Addressable := by
  intro event member
  cases event with
  | accept peer fresh => trivial
  | get ip port fresh => exact asked ip port fresh member

theorem isEndpoint_of_isRemote {ip : CString} {port : Int} {remote : SockaddrIn}
    (behind : IsRemote ip port remote) : IsEndpoint ip port := by
  have small := (ntohs remote.sinPort).toNat_lt
  refine ⟨by rw [behind.1]; rfl, ?_, ?_⟩
  · rw [behind.2]
    exact Int.natCast_nonneg _
  · rw [behind.2]
    exact_mod_cast small

theorem isRemote_connectSockaddr {ip : CString} {port : Int} (endpoint : IsEndpoint ip port) :
    IsRemote ip port (connectSockaddr ip port) := by
  rcases Option.isSome_iff_exists.mp endpoint.1 with ⟨address, parsed⟩
  refine ⟨?_, ?_⟩
  · rw [connectSockaddr, inetAddr, parsed]
    rfl
  · have bounds := endpoint.2
    rw [connectSockaddr, ntohs_htons, UInt16.ofInt, UInt16.toNat_ofNat']
    omega

/-- The first event of an address adds the right peer unless it is an accepted port with
different bytes. -/
theorem isRemote_iff {ip : CString} {port : Int} (endpoint : IsEndpoint ip port)
    (about : event.address = (ip, port)) :
    IsRemote ip port event.remote ↔ event.Symmetric := by
  cases event with
  | get ip port fresh =>
      cases about
      exact iff_of_true (isRemote_connectSockaddr endpoint) trivial
  | accept peer fresh =>
      cases about
      constructor
      · intro behind
        have equal := behind.2
        exact UInt16.toNat_inj.mp (by exact_mod_cast equal.symm)
      · intro symmetric
        refine ⟨inetAton_inetNtoa _, ?_⟩
        change _ = ((ntohs peer.addr.sinPort).toNat : Int)
        rw [symmetric]

/-- Messages go to the host they are addressed to exactly if no address that is asked for
was first seen as an accepted port with different bytes. -/
theorem reachesAddressed_iff_unconfused (events : List EndpointEvent) :
    ReachesAddressed events ↔ Unconfused events := by
  constructor
  · intro reaches
    have asked : ∀ ip port fresh, .get ip port fresh ∈ events → IsEndpoint ip port := by
      intro ip port fresh member
      rcases List.append_of_mem member with ⟨before, after, split⟩
      rcases reaches before ip port fresh after split with ⟨_, _, _, _, behind⟩
      exact isEndpoint_of_isRemote behind
    intro ip port fresh member
    refine ⟨asked ip port fresh member, ?_⟩
    intro first found
    rcases List.append_of_mem member with ⟨before, after, split⟩
    rcases reaches before ip port fresh after split with
      ⟨connectId, remote, answer, behind, isRemote⟩
    rcases answered_first (addressable_of_asked asked) split with ⟨position, answered, known⟩
    rw [answered] at answer
    cases answer
    rw [behind, found, Option.map_some, Option.some.injEq] at known
    have about : first.address = (ip, port) := by simpa using List.find?_some found
    rw [known] at isRemote
    exact (isRemote_iff (asked ip port fresh member) about).mp isRemote
  · intro unconfused before ip port fresh after split
    have addressable : ∀ event ∈ events, event.Addressable :=
      addressable_of_asked fun ip port fresh member => (unconfused ip port fresh member).1
    have member : .get ip port fresh ∈ events := by
      rw [split]
      exact List.mem_append_right _ List.mem_cons_self
    rcases unconfused ip port fresh member with ⟨endpoint, symmetric⟩
    rcases answered_first addressable split with ⟨position, answered, known⟩
    cases found : events.find? fun event => event.address = (ip, port) with
    | none =>
        have rejected := List.find?_eq_none.mp found _ member
        exact absurd (by simp [EndpointEvent.address]) rejected
    | some first =>
        have about : first.address = (ip, port) := by simpa using List.find?_some found
        rw [found, Option.map_some] at known
        exact ⟨position, _, answered, known,
          (isRemote_iff endpoint about).mpr (symmetric first found)⟩

/-- The address `10.0.0.1`. -/
def exampleInAddr : InAddr := ⟨10, 0, 0, 1⟩

/-- A peer that connects from port 4660, which the machine reads as 13330. -/
def examplePeer : Peer := ⟨⟨exampleInAddr, 13330⟩, by decide⟩

/-- A peer connects from port 4660 and port 13330 of the same host is asked for. -/
def confusedEvents : List EndpointEvent :=
  [.accept examplePeer (0, false), .get (inetNtoa exampleInAddr) 13330 (0, false)]

/-- The id that is returned belongs to the connection from port 4660. -/
theorem accepted_port_confused :
    Host.answered [.accept examplePeer (0, false)]
        (.get (inetNtoa exampleInAddr) 13330 (0, false)) = some 0 ∧
      (Host.reached confusedEvents).sockets.lookup 0 = some ⟨exampleInAddr, 13330⟩ ∧
      (ntohs 13330).toNat = 4660 ∧
      ¬ReachesAddressed confusedEvents := by
  have answered : Host.answered [.accept examplePeer (0, false)]
      (.get (inetNtoa exampleInAddr) 13330 (0, false)) = some 0 := by decide +kernel
  have behind : (Host.reached confusedEvents).sockets.lookup 0 =
      some ⟨exampleInAddr, 13330⟩ := by decide +kernel
  refine ⟨answered, behind, by decide, ?_⟩
  intro reaches
  rcases reaches [.accept examplePeer (0, false)] _ _ _ [] rfl with
    ⟨connectId, remote, answer, found, isRemote⟩
  rw [answered] at answer
  cases answer
  rw [behind] at found
  cases found
  exact absurd isRemote (by decide)

end MultiMaster.NetIO
