import MultiMaster.Foundation.Machine
import MultiMaster.NetIO.CutIndependence

/-!
# The connection table as a list

Connections get consecutive ids and are never removed, so the table of a handle is a list
of records with their positions as ids.  The operations that open, find and write to
connections are followed step by step by operations on that list.
-/

namespace MultiMaster.NetIO

open Foundation

/-- A payload that an `int` can count. -/
structure Payload where
  bytes : Bytes
  small : bytes.length < 2 ^ 31

/-- What happens at a handle: a peer is accepted, a connection is asked for, or a payload is
sent to an address.  `connected` says whether a new connection can be set up and `fresh` is
the memory of its record. -/
inductive ConnectionEvent where
  | accept (ip : CString) (port : Int) (fresh : Int × Bool)
  | connect (ip : CString) (port : Int) (connected : Bool) (fresh : Int × Bool)
  | send (ip : CString) (port : Int) (payload : Payload) (connected : Bool)
      (fresh : Int × Bool)

/-- An ip and a port as they stand in a record. -/
abbrev Address := CString × Int

def BevInfor.address (info : BevInfor) : Address := (info.ip, info.port)

namespace LibeventHandle

/-- The effect of an event with the id of its connection.  Libevent accepts every write. -/
def runEvent (handle : LibeventHandle) : ConnectionEvent → Option (LibeventHandle × Int)
  | .accept ip port fresh => handle.addBuffereventListen ip port fresh
  | .connect ip port connected fresh => handle.getConnectionId ip port true connected fresh
  | .send ip port payload connected fresh => do
      let (handle, connectId) ← handle.getConnectionId ip port true connected fresh
      let (handle, _) ← handle.send connectId payload.bytes payload.bytes.length true true
      return (handle, connectId)

/-- A handle as a machine.  An undefined event is answered by `none`. -/
def connections : Machine LibeventHandle ConnectionEvent (Option Int) where
  step handle event :=
    match handle.runEvent event with
    | none => (handle, none)
    | some (after, connectId) => (after, some connectId)

end LibeventHandle

/-! ## Lists of records -/

/-- The record of a new connection. -/
def freshRecord (ip : CString) (port : Int) (isListen : Bool) (fresh : Int × Bool) :
    BevInfor :=
  { ip := ip
    port := port
    bev := ⟨[], [], 0⟩
    isListen := isListen
    blockSize := fresh.1
    cacheBlock := fresh.2
    readSingal := 0
    writeSingal := 0 }

/-- Position of the first record of an address. -/
def firstOf (address : Address) (records : List BevInfor) : Option Nat :=
  records.findIdx? fun info => info.address = address

/-- The first record of an address, or a new one. -/
def requestRecord (records : List BevInfor) (ip : CString) (port : Int) (connected : Bool)
    (fresh : Int × Bool) : List BevInfor × Int :=
  match firstOf (ip, port) records with
  | some position => (records, position)
  | none =>
      if connected then (records ++ [freshRecord ip port false fresh], records.length)
      else (records, -1)

/-- Append a frame to the output of one record. -/
def writeRecord (records : List BevInfor) (connectId : Int) (payload : Bytes) :
    List BevInfor :=
  if connectId < 0 then records
  else records.modify connectId.toNat fun info =>
    info.appendOutput (controlFormat.frame payload)

/-- The events on a list of records. -/
def recordTable : Machine (List BevInfor) ConnectionEvent Int where
  step records
    | .accept ip port fresh =>
        (records ++ [freshRecord ip port true fresh], records.length)
    | .connect ip port connected fresh => requestRecord records ip port connected fresh
    | .send ip port payload connected fresh =>
        let requested := requestRecord records ip port connected fresh
        (writeRecord requested.1 requested.2 payload.bytes, requested.2)

/-- Records with their positions as ids. -/
def entriesOf (records : List BevInfor) : List (Int × BevInfor) :=
  records.mapIdx fun position info => ((position : Int), info)

/-- A handle between two calls: its table shows the records and all locks are free. -/
structure Shows (handle : LibeventHandle) (records : List BevInfor) : Prop where
  table : handle.bevMapRwLockSingal = 0
  listeners : handle.listenVectorRwLockSingal = 0
  next : handle.maxBevId = records.length
  entries : handle.bevMap.entries = entriesOf records
  writable : ∀ info ∈ records, info.writeSingal = 0

variable {records : List BevInfor} {handle : LibeventHandle} {info : BevInfor}
variable {ip : CString} {port : Int} {position : Nat}

theorem entriesOf_concat (records : List BevInfor) (info : BevInfor) :
    entriesOf (records ++ [info]) = entriesOf records ++ [((records.length : Int), info)] := by
  rw [entriesOf, List.mapIdx_concat]
  rfl

@[simp] theorem length_entriesOf (records : List BevInfor) :
    (entriesOf records).length = records.length := List.length_mapIdx

theorem mem_entriesOf {connectId : Int} :
    (connectId, info) ∈ entriesOf records ↔
      ∃ position : Nat, records[position]? = some info ∧ connectId = position := by
  rw [entriesOf, List.mem_mapIdx]
  constructor
  · intro member
    rcases member with ⟨position, inside, same⟩
    cases same
    exact ⟨position, List.getElem?_eq_getElem inside, rfl⟩
  · intro member
    rcases member with ⟨position, found, rfl⟩
    rcases List.getElem?_eq_some_iff.mp found with ⟨inside, rfl⟩
    exact ⟨position, inside, rfl⟩

/-- Replacing one record. -/
theorem entriesOf_set (records : List BevInfor) (position : Nat) (info : BevInfor) :
    entriesOf (records.set position info) =
      (entriesOf records).map fun entry =>
        if entry.1 = (position : Int) then ((position : Int), info) else entry := by
  rw [entriesOf, entriesOf, List.mapIdx_set]
  apply List.ext_getElem?
  intro index
  rw [List.getElem?_set, List.getElem?_map, List.getElem?_mapIdx, List.length_mapIdx]
  by_cases inside : index < records.length
  · rw [List.getElem?_eq_getElem inside]
    by_cases same : position = index
    · subst same
      simp [inside]
    · have different : ¬(index : Int) = position := by omega
      simp [same, different]
  · rw [List.getElem?_eq_none (by omega)]
    by_cases same : position = index
    · subst same
      simp [inside]
    · simp [same]

/-- The id of the first entry that a search accepts. -/
theorem find?_entriesOf (records : List BevInfor) (accepts : BevInfor → Bool) :
    ((entriesOf records).find? fun entry => accepts entry.2).map Prod.fst =
      (records.findIdx? accepts).map fun position : Nat => (position : Int) := by
  induction records using List.reverseRecOn with
  | nil => rfl
  | append_singleton records info ih =>
      rw [entriesOf_concat, List.find?_append, List.findIdx?_append]
      cases found : records.findIdx? accepts with
      | some position =>
          rw [found] at ih
          rcases Option.map_eq_some_iff.mp ih with ⟨entry, search, same⟩
          simp [search, same]
      | none =>
          rw [found] at ih
          have search := Option.map_eq_none_iff.mp ih
          cases last : accepts info with
          | true => simp [search, last]
          | false => simp [search, last]

theorem hasAddress_eq (info : BevInfor) (ip : CString) (port : Int) :
    info.hasAddress ip port = decide (info.address = (ip, port)) := by
  simp [BevInfor.hasAddress, BevInfor.address]

namespace Shows

theorem initial : Shows LibeventHandle.initHandle [] := ⟨rfl, rfl, rfl, rfl, by simp⟩

/-- The record of an id. -/
theorem lookup_eq (showing : Shows handle records) (position : Nat) :
    handle.bevMap.lookup position = records[position]? := by
  cases found : records[position]? with
  | none =>
      cases looked : handle.bevMap.lookup position with
      | none => rfl
      | some info =>
          rw [OrderedMap.lookup_eq_some_iff, showing.entries, mem_entriesOf] at looked
          rcases looked with ⟨other, present, same⟩
          rw [Int.natCast_inj.mp same, present] at found
          cases found
  | some info =>
      rw [OrderedMap.lookup_eq_some_iff, showing.entries, mem_entriesOf]
      exact ⟨position, found, rfl⟩

/-- The next id is larger than all ids of the table. -/
theorem below_next (showing : Shows handle records) :
    ∀ entry ∈ handle.bevMap.entries, entry.1 < handle.maxBevId := by
  intro entry member
  rw [showing.entries] at member
  rcases mem_entriesOf.mp member with ⟨position, found, same⟩
  rw [showing.next, same]
  exact_mod_cast (List.getElem?_eq_some_iff.mp found).1

/-- A record with the next id goes to the end. -/
theorem insert_next (showing : Shows handle records) (info : BevInfor) :
    (handle.bevMap.insert handle.maxBevId info).entries = entriesOf (records ++ [info]) := by
  rw [OrderedMap.entries_insert_last showing.below_next, showing.entries, showing.next,
    entriesOf_concat]

theorem addBuffereventListen_eq (showing : Shows handle records) (ip : CString) (port : Int)
    (fresh : Int × Bool) :
    ∃ after, handle.addBuffereventListen ip port fresh =
        some (after, (records.length : Int)) ∧
      Shows after (records ++ [freshRecord ip port true fresh]) := by
  have table := showing.table
  have listeners := showing.listeners
  have entries := showing.insert_next (freshRecord ip port true fresh)
  have next := showing.next
  rcases handle with ⟨maxBevId, singal, bevMap, listenSingal, listenIdVector⟩
  cases table
  cases listeners
  cases next
  refine ⟨_, rfl, rfl, rfl, ?_, entries, ?_⟩
  · simp
  · intro info member
    rcases List.mem_append.mp member with old | new
    · exact showing.writable info old
    · rw [List.mem_singleton.mp new]
      rfl

theorem addBuffereventConnect_eq (showing : Shows handle records) (ip : CString) (port : Int)
    (fresh : Int × Bool) :
    ∃ after, handle.addBuffereventConnect ip port true fresh =
        some (after, (records.length : Int)) ∧
      Shows after (records ++ [freshRecord ip port false fresh]) := by
  have table := showing.table
  have entries := showing.insert_next (freshRecord ip port false fresh)
  have next := showing.next
  rcases handle with ⟨maxBevId, singal, bevMap, listenSingal, listenIdVector⟩
  cases table
  cases next
  refine ⟨_, rfl, rfl, showing.listeners, ?_, entries, ?_⟩
  · simp
  · intro info member
    rcases List.mem_append.mp member with old | new
    · exact showing.writable info old
    · rw [List.mem_singleton.mp new]
      rfl

/-- The search for an address finds the id of its first record. -/
theorem find?_eq (showing : Shows handle records) (ip : CString) (port : Int) :
    (handle.bevMap.entries.find? fun entry => entry.2.hasAddress ip port).map Prod.fst =
      (firstOf (ip, port) records).map fun position : Nat => (position : Int) := by
  rw [showing.entries, firstOf, ← find?_entriesOf]
  simp only [hasAddress_eq]

/-- Looking for a connection without opening one. -/
theorem getConnectionId_search (showing : Shows handle records) (ip : CString) (port : Int)
    (connected : Bool) (fresh : Int × Bool) :
    handle.getConnectionId ip port false connected fresh =
      some (handle, ((firstOf (ip, port) records).map fun position : Nat => (position : Int)).getD
        (-1)) := by
  have search := showing.find?_eq ip port
  have table := showing.table
  rcases handle with ⟨maxBevId, singal, bevMap, listenSingal, listenIdVector⟩
  cases table
  rw [← search, LibeventHandle.getConnectionId]
  cases bevMap.entries.find? fun entry => entry.2.hasAddress ip port with
  | none => rfl
  | some entry => rfl

theorem getConnectionId_eq (showing : Shows handle records) (ip : CString) (port : Int)
    (connected : Bool) (fresh : Int × Bool) :
    ∃ after, handle.getConnectionId ip port true connected fresh =
        some (after, (requestRecord records ip port connected fresh).2) ∧
      Shows after (requestRecord records ip port connected fresh).1 := by
  have search := showing.find?_eq ip port
  have opening := showing.addBuffereventConnect_eq ip port fresh
  have table := showing.table
  rcases handle with ⟨maxBevId, singal, bevMap, listenSingal, listenIdVector⟩
  cases table
  rw [LibeventHandle.getConnectionId, requestRecord]
  simp only at search
  cases found : firstOf (ip, port) records with
  | some position =>
      rw [found] at search
      rcases Option.map_eq_some_iff.mp search with ⟨entry, entryFound, same⟩
      rw [entryFound]
      simp only [← same]
      exact ⟨_, rfl, showing⟩
  | none =>
      rw [found] at search
      rw [Option.map_eq_none_iff.mp search]
      cases connected with
      | true => exact opening
      | false => exact ⟨_, rfl, showing⟩

theorem setBevInfor (showing : Shows handle records) (inside : position < records.length)
    (free : info.writeSingal = 0) :
    Shows (handle.setBevInfor position info) (records.set position info) := by
  refine ⟨showing.table, showing.listeners, ?_, ?_, ?_⟩
  · rw [List.length_set]
    exact showing.next
  · have present : ∃ entry ∈ handle.bevMap.entries, entry.1 = (position : Int) := by
      rw [showing.entries]
      exact ⟨((position : Int), records[position]),
        mem_entriesOf.mpr ⟨position, List.getElem?_eq_getElem inside, rfl⟩, rfl⟩
    have replaced : (handle.setBevInfor position info).bevMap.entries = _ :=
      OrderedMap.entries_insert_present present
    rw [replaced, showing.entries, entriesOf_set]
  · intro other member
    rcases List.mem_or_eq_of_mem_set member with old | new
    · exact showing.writable other old
    · rw [new]
      exact free

/-- Writing to a connection, or to none. -/
theorem send_eq (showing : Shows handle records) (payload : Payload) {connectId : Int}
    (valid : connectId = -1 ∨ ∃ position : Nat, connectId = position ∧
      position < records.length) :
    ∃ after sent, handle.send connectId payload.bytes payload.bytes.length true true =
        some (after, sent) ∧
      Shows after (writeRecord records connectId payload.bytes) := by
  rcases valid with rfl | ⟨position, rfl, inside⟩
  · exact ⟨handle, false, rfl, showing⟩
  · have found := List.getElem?_eq_getElem inside
    have free := showing.writable _ (List.getElem_mem inside)
    have writable : handle.Writable position records[position] :=
      ⟨Int.natCast_nonneg _, showing.table, by rw [showing.lookup_eq, found], free⟩
    refine ⟨_, true, LibeventHandle.send_eq writable payload.small, ?_⟩
    have modified : writeRecord records position payload.bytes =
        records.set position
          (records[position].appendOutput (controlFormat.frame payload.bytes)) := by
      rw [writeRecord, if_neg (by omega), Int.toNat_natCast, List.modify_eq_set_getElem? _ _,
        found]
      rfl
    rw [modified]
    exact showing.setBevInfor inside free

end Shows

/-- The id a request is given: none, or the position of a record. -/
theorem requestRecord_valid (records : List BevInfor) (ip : CString) (port : Int)
    (connected : Bool) (fresh : Int × Bool) :
    (requestRecord records ip port connected fresh).2 = -1 ∨
      ∃ position : Nat, (requestRecord records ip port connected fresh).2 = position ∧
        position < (requestRecord records ip port connected fresh).1.length := by
  rw [requestRecord]
  cases found : firstOf (ip, port) records with
  | some position =>
      exact .inr ⟨position, rfl, (List.findIdx?_eq_some_iff_getElem.mp found).1⟩
  | none =>
      cases connected with
      | true => exact .inr ⟨records.length, rfl, by simp⟩
      | false => exact .inl rfl

/-- The list of records follows the handle, event by event. -/
theorem recordTable_follows :
    Machine.Simulation LibeventHandle.connections recordTable Shows (fun _ _ => True)
      (fun _ _ => True) id some where
  follows := by
    intro handle records event showing _
    refine ⟨trivial, ?_⟩
    cases event with
    | accept ip port fresh =>
        rcases showing.addBuffereventListen_eq ip port fresh with ⟨after, accepted, later⟩
        simp only [LibeventHandle.connections, LibeventHandle.runEvent, accepted]
        exact ⟨later, rfl⟩
    | connect ip port connected fresh =>
        rcases showing.getConnectionId_eq ip port connected fresh with
          ⟨after, requested, later⟩
        simp only [LibeventHandle.connections, LibeventHandle.runEvent, requested]
        exact ⟨later, rfl⟩
    | send ip port payload connected fresh =>
        rcases showing.getConnectionId_eq ip port connected fresh with
          ⟨middle, requested, opened⟩
        rcases opened.send_eq payload (requestRecord_valid records ip port connected fresh)
          with ⟨after, sent, sending, later⟩
        simp only [LibeventHandle.connections, LibeventHandle.runEvent, requested, sending,
          Option.bind_eq_bind, Option.bind_some, Option.pure_def]
        exact ⟨later, rfl⟩

end MultiMaster.NetIO
