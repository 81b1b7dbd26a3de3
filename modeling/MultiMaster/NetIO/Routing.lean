import MultiMaster.NetIO.Connections

/-!
# Routing to a destination

Records are added at the end of the table and keep their addresses, so the first record of
an address stays the first.  A destination that was reached once is reached by the same
connection ever after, and everything sent to it enters one output in the order of the
calls.
-/

namespace MultiMaster.NetIO

open Foundation

variable {records after : List BevInfor} {event : ConnectionEvent} {address : Address}
variable {position : Nat} {info : BevInfor}

namespace ConnectionEvent

/-- The address an event asks a connection for. -/
def request? : ConnectionEvent → Option Address
  | accept _ _ _ => none
  | connect ip port _ _ => some (ip, port)
  | send ip port _ _ _ => some (ip, port)

/-- Does an attempt to connect succeed, if the event makes one? -/
def connects : ConnectionEvent → Bool
  | accept _ _ _ => false
  | connect _ _ connected _ => connected
  | send _ _ _ connected _ => connected

/-- Does the event write? -/
def isSend : ConnectionEvent → Bool
  | send _ _ _ _ _ => true
  | accept _ _ _ | connect _ _ _ _ => false

/-- The payload of an event, if it was sent to the address. -/
def sent? (address : Address) (event : ConnectionEvent) (connectId : Int) : Option Bytes :=
  match event with
  | send ip port payload _ _ =>
      if (ip, port) = address ∧ 0 ≤ connectId then some payload.bytes else none
  | accept _ _ _ | connect _ _ _ _ => none

end ConnectionEvent

/-- The payloads sent to an address, oldest first. -/
def sentTo (address : Address) (history : List (ConnectionEvent × Int)) : List Bytes :=
  history.filterMap fun event => event.1.sent? address event.2

/-! ## One event -/

@[simp] theorem address_appendOutput (info : BevInfor) (bytes : Bytes) :
    (info.appendOutput bytes).address = info.address := rfl

@[simp] theorem appendOutput_nil (info : BevInfor) : info.appendOutput [] = info := by
  simp [BevInfor.appendOutput]

theorem appendOutput_append (info : BevInfor) (first second : Bytes) :
    (info.appendOutput first).appendOutput second = info.appendOutput (first ++ second) := by
  simp [BevInfor.appendOutput]

/-- Only outputs of records change, and records are added at the end. -/
def Grows (records after : List BevInfor) : Prop :=
  ∀ (position : Nat) (info : BevInfor), records[position]? = some info →
    ∃ bytes, after[position]? = some (info.appendOutput bytes)

/-- The records after a request: as before, or with a new one. -/
theorem requestRecord_fst (records : List BevInfor) (ip : CString) (port : Int)
    (connected : Bool) (fresh : Int × Bool) :
    (requestRecord records ip port connected fresh).1 = records ∨
      firstOf (ip, port) records = none ∧
        (requestRecord records ip port connected fresh).1 =
          records ++ [freshRecord ip port false fresh] := by
  rw [requestRecord]
  cases found : firstOf (ip, port) records with
  | some position => exact .inl rfl
  | none =>
      cases connected with
      | true => exact .inr ⟨rfl, rfl⟩
      | false => exact .inl rfl

theorem getElem?_concat {more : BevInfor} (found : records[position]? = some info) :
    (records ++ [more])[position]? = some info := by
  rw [List.getElem?_append_left (List.getElem?_eq_some_iff.mp found).1, found]

theorem requestRecord_keeps (found : records[position]? = some info) (ip : CString)
    (port : Int) (connected : Bool) (fresh : Int × Bool) :
    (requestRecord records ip port connected fresh).1[position]? = some info := by
  rcases requestRecord_fst records ip port connected fresh with same | ⟨_, more⟩
  · rw [same, found]
  · rw [more, getElem?_concat found]

theorem writeRecord_grows (found : records[position]? = some info) (connectId : Int)
    (payload : Bytes) :
    ∃ bytes, (writeRecord records connectId payload)[position]? =
      some (info.appendOutput bytes) := by
  rw [writeRecord]
  split
  · exact ⟨[], by rw [found, appendOutput_nil]⟩
  · rw [List.getElem?_modify, found]
    by_cases here : connectId.toNat = position
    · exact ⟨controlFormat.frame payload, by simp [here]⟩
    · exact ⟨[], by simp [here]⟩

theorem Grows.refl (records : List BevInfor) : Grows records records := by
  intro position info found
  exact ⟨[], by rw [appendOutput_nil]; exact found⟩

theorem Grows.trans {middle : List BevInfor} (left : Grows records middle)
    (right : Grows middle after) : Grows records after := by
  intro position info found
  rcases left position info found with ⟨early, present⟩
  rcases right position _ present with ⟨late, final⟩
  exact ⟨early ++ late, by rw [← appendOutput_append]; exact final⟩

theorem Grows.concat (records : List BevInfor) (info : BevInfor) :
    Grows records (records ++ [info]) := by
  intro position other found
  exact ⟨[], by rw [appendOutput_nil]; exact getElem?_concat found⟩

/-- A record keeps everything but its output, and that only grows when something is sent. -/
theorem step_grows (records : List BevInfor) (event : ConnectionEvent) :
    Grows records (recordTable.step records event).1 := by
  cases event with
  | accept ip port fresh => exact Grows.concat records _
  | connect ip port connected fresh =>
      intro position info found
      exact ⟨[], by rw [appendOutput_nil]; exact requestRecord_keeps found _ _ _ _⟩
  | send ip port payload connected fresh =>
      intro position info found
      exact writeRecord_grows (requestRecord_keeps found _ _ _ _) _ _

/-- An event that does not write leaves the records that were there alone. -/
theorem step_keeps (quiet : event.isSend = false) (found : records[position]? = some info) :
    (recordTable.step records event).1[position]? = some info := by
  cases event with
  | accept ip port fresh => exact getElem?_concat found
  | connect ip port connected fresh => exact requestRecord_keeps found _ _ _ _
  | send ip port payload connected fresh => cases quiet

/-- The first record of an address stays the first. -/
theorem Grows.firstOf_eq (grows : Grows records after)
    (found : firstOf address records = some position) :
    firstOf address after = some position := by
  rw [firstOf, List.findIdx?_eq_some_iff_getElem] at found ⊢
  rcases found with ⟨inside, matching, others⟩
  have kept : ∀ index, (within : index < records.length) →
      ∃ later, after[index]? = some later ∧ later.address = records[index].address := by
    intro index within
    rcases grows index _ (List.getElem?_eq_getElem within) with ⟨bytes, later⟩
    exact ⟨_, later, rfl⟩
  rcases kept position inside with ⟨later, laterFound, sameAddress⟩
  rcases List.getElem?_eq_some_iff.mp laterFound with ⟨laterInside, rfl⟩
  refine ⟨laterInside, by rw [sameAddress]; exact matching, ?_⟩
  intro index before
  rcases kept index (by omega) with ⟨earlier, earlierFound, sameEarlier⟩
  rcases List.getElem?_eq_some_iff.mp earlierFound with ⟨earlierInside, rfl⟩
  rw [sameEarlier]
  exact others index before

/-! ## Answers -/

theorem firstOf_eq_map (address : Address) (records : List BevInfor) :
    firstOf address records =
      (records.map BevInfor.address).findIdx? fun other => other = address := by
  rw [firstOf, List.findIdx?_map]
  rfl

theorem firstOf_concat (address : Address) (records : List BevInfor) (info : BevInfor) :
    firstOf address (records ++ [info]) =
      (firstOf address records).or (if info.address = address then some records.length
        else none) := by
  rw [firstOf, List.findIdx?_append, firstOf]
  by_cases same : info.address = address
  · simp [same]
  · simp [same]

/-- An address has a first record when it has any. -/
theorem firstOf_isSome_iff :
    (firstOf address records).isSome ↔
      ∃ entry ∈ entriesOf records, entry.2.address = address := by
  rw [firstOf, List.findIdx?_isSome, List.any_eq_true]
  constructor
  · rintro ⟨info, member, same⟩
    rcases List.getElem?_of_mem member with ⟨position, found⟩
    exact ⟨(position, info), mem_entriesOf.mpr ⟨position, found, rfl⟩, of_decide_eq_true same⟩
  · rintro ⟨entry, member, same⟩
    rcases mem_entriesOf.mp member with ⟨position, found, _⟩
    exact ⟨entry.2, List.mem_of_getElem? found, decide_eq_true same⟩

/-- Writing leaves the addresses alone. -/
theorem firstOf_writeRecord (address : Address) (records : List BevInfor) (connectId : Int)
    (payload : Bytes) :
    firstOf address (writeRecord records connectId payload) = firstOf address records := by
  have same : (writeRecord records connectId payload).map BevInfor.address =
      records.map BevInfor.address := by
    rw [writeRecord]
    split
    · rfl
    · apply List.ext_getElem?
      intro index
      rw [List.getElem?_map, List.getElem?_map, List.getElem?_modify]
      cases records[index]? with
      | none => rfl
      | some info =>
          by_cases here : connectId.toNat = index
          · simp [here]
          · simp [here]
  rw [firstOf_eq_map, firstOf_eq_map, same]

/-- A request is answered with the first record of its address. -/
theorem requestRecord_first {ip : CString} {port : Int} {connected : Bool}
    {fresh : Int × Bool} (valid : 0 ≤ (requestRecord records ip port connected fresh).2) :
    firstOf (ip, port) (requestRecord records ip port connected fresh).1 =
      some (requestRecord records ip port connected fresh).2.toNat := by
  rw [requestRecord] at valid ⊢
  cases found : firstOf (ip, port) records with
  | some position => exact found
  | none =>
      rw [found] at valid
      cases connected with
      | true => simp [firstOf_concat, found, freshRecord, BevInfor.address]
      | false => simp at valid

/-- A request is given an id if its address has a record or the attempt to connect succeeds. -/
theorem requestRecord_nonneg_iff {ip : CString} {port : Int} {connected : Bool}
    {fresh : Int × Bool} :
    0 ≤ (requestRecord records ip port connected fresh).2 ↔
      connected = true ∨ (firstOf (ip, port) records).isSome := by
  rw [requestRecord]
  cases firstOf (ip, port) records with
  | some position => simp
  | none =>
      cases connected with
      | true => simp
      | false => simp

theorem step_nonneg_iff (requests : event.request? = some address) :
    0 ≤ (recordTable.step records event).2 ↔
      event.connects = true ∨ (firstOf address records).isSome := by
  cases event with
  | accept ip port fresh => cases requests
  | connect ip port connected fresh =>
      cases requests
      exact requestRecord_nonneg_iff
  | send ip port payload connected fresh =>
      cases requests
      exact requestRecord_nonneg_iff

/-- What a request does: it is answered with the first record of its address, which stays
the first, and it adds a record only if there is none. -/
theorem step_request (records : List BevInfor) (requests : event.request? = some address) :
    (∀ position, firstOf address records = some position →
      (recordTable.step records event).2 = position) ∧
    (0 ≤ (recordTable.step records event).2 →
      firstOf address (recordTable.step records event).1 =
        some (recordTable.step records event).2.toNat) ∧
    ((recordTable.step records event).1.length = records.length ∨
      (recordTable.step records event).1.length = records.length + 1 ∧
        firstOf address records = none) := by
  have answer : ∀ ip port connected fresh position,
      firstOf (ip, port) records = some position →
        (requestRecord records ip port connected fresh).2 = position := by
    intro ip port connected fresh position found
    rw [requestRecord, found]
  have size : ∀ ip port connected fresh,
      (requestRecord records ip port connected fresh).1.length = records.length ∨
        (requestRecord records ip port connected fresh).1.length = records.length + 1 ∧
          firstOf (ip, port) records = none := by
    intro ip port connected fresh
    rcases requestRecord_fst records ip port connected fresh with same | ⟨none, more⟩
    · exact .inl (by rw [same])
    · exact .inr ⟨by rw [more, List.length_append]; rfl, none⟩
  cases event with
  | accept ip port fresh => cases requests
  | connect ip port connected fresh =>
      cases requests
      exact ⟨answer ip port connected fresh, requestRecord_first, size _ _ _ _⟩
  | send ip port payload connected fresh =>
      cases requests
      refine ⟨answer ip port connected fresh, ?_, ?_⟩
      · intro valid
        exact (firstOf_writeRecord _ _ _ _).trans (requestRecord_first valid)
      · have length : ∀ connectId, (writeRecord (requestRecord records ip port connected
            fresh).1 connectId payload.bytes).length =
              (requestRecord records ip port connected fresh).1.length := by
          intro connectId
          rw [writeRecord]
          split
          · rfl
          · rw [List.length_modify]
        change (writeRecord _ _ _).length = _ ∨ (writeRecord _ _ _).length = _ ∧ _
        rw [length]
        exact size _ _ _ _

/-! ## Output streams -/

/-- The first record of an address has taken everything that was sent to the address, and
the other records nothing. -/
structure Streams (history : List (ConnectionEvent × Int)) (records : List BevInfor) :
    Prop where
  output : ∀ (position : Nat) (info : BevInfor), records[position]? = some info →
    info.bev.output =
      if firstOf info.address records = some position then
        controlFormat.frames (sentTo info.address history)
      else []
  unsent : ∀ address, firstOf address records = none → sentTo address history = []

variable {history : List (ConnectionEvent × Int)}

theorem sentTo_concat (address : Address) (history : List (ConnectionEvent × Int))
    (event : ConnectionEvent) (connectId : Int) :
    sentTo address (history ++ [(event, connectId)]) =
      sentTo address history ++ (event.sent? address connectId).toList := by
  rw [sentTo, List.filterMap_append, sentTo]
  cases found : event.sent? address connectId with
  | none => simp [found]
  | some payload => simp [found]

/-- A record matches its own address. -/
theorem firstOf_isSome (found : records[position]? = some info) :
    (firstOf info.address records).isSome := by
  rw [firstOf, List.findIdx?_isSome, List.any_eq_true]
  exact ⟨info, List.mem_of_getElem? found, by simp⟩

namespace Streams

theorem initial : Streams [] [] := ⟨by simp, by simp [sentTo]⟩

/-- Nothing was written by the last event. -/
theorem quiet (streams : Streams history records) {connectId : Int}
    (nothing : ∀ address, event.sent? address connectId = none) :
    Streams (history ++ [(event, connectId)]) records := by
  constructor
  · intro position info found
    rw [sentTo_concat, nothing, Option.toList_none, List.append_nil]
    exact streams.output position info found
  · intro address none
    rw [sentTo_concat, nothing, Option.toList_none, List.append_nil]
    exact streams.unsent address none

/-- A new record has not taken anything. -/
theorem concat (streams : Streams history records) (blank : info.bev.output = []) :
    Streams history (records ++ [info]) := by
  constructor
  · intro position other found
    rw [firstOf_concat]
    by_cases old : position < records.length
    · rw [List.getElem?_append_left old] at found
      have same := firstOf_isSome found
      rw [Option.or_of_isSome same]
      exact streams.output position other found
    · rw [List.getElem?_append_right (by omega), List.getElem?_singleton] at found
      split at found
      · next last =>
          cases found
          rw [blank, if_pos rfl]
          cases before : firstOf info.address records with
          | none => rw [streams.unsent _ before, HeaderFormat.frames_nil, ite_self]
          | some earlier =>
              have inside := (List.findIdx?_eq_some_iff_getElem.mp before).1
              rw [Option.some_or, if_neg]
              rw [Option.some.injEq]
              omega
      · cases found
  · intro address none
    rw [firstOf_concat, Option.or_eq_none_iff] at none
    exact streams.unsent address none.1

/-- A payload goes to the first record of its address. -/
theorem write (streams : Streams history records) {payload : Payload} {ip : CString}
    {port : Int} {connected : Bool} {fresh : Int × Bool}
    (first : firstOf (ip, port) records = some position) :
    Streams (history ++ [(.send ip port payload connected fresh, (position : Int))])
      (writeRecord records position payload.bytes) := by
  have sent : ∀ address, sentTo address
      (history ++ [(.send ip port payload connected fresh, (position : Int))]) =
        sentTo address history ++ if (ip, port) = address then [payload.bytes] else [] := by
    intro address
    rw [sentTo_concat, ConnectionEvent.sent?]
    by_cases same : (ip, port) = address
    · simp [same]
    · simp [same]
  constructor
  · intro index info found
    rw [firstOf_writeRecord, sent]
    rw [writeRecord, if_neg (by omega), Int.toNat_natCast, List.getElem?_modify] at found
    rcases Option.map_eq_some_iff.mp found with ⟨old, oldFound, changed⟩
    have before := streams.output index old oldFound
    by_cases here : position = index
    · subst here
      rw [if_pos rfl] at changed
      subst changed
      have matching : old.address = (ip, port) := by
        have accepted := (List.findIdx?_eq_some_iff_getElem.mp first).2.1
        rw [(List.getElem?_eq_some_iff.mp oldFound).2] at accepted
        simpa using accepted
      rw [matching, if_pos first] at before
      rw [address_appendOutput, matching, if_pos first, if_pos rfl, HeaderFormat.frames_append]
      change old.bev.output ++ _ = _
      rw [before]
      simp
    · rw [if_neg here] at changed
      subst changed
      rw [before]
      by_cases same : (ip, port) = old.address
      · rw [← same, first, if_neg (by simpa using here), if_neg (by simpa using here)]
      · rw [if_neg same, List.append_nil]
  · intro address none
    rw [firstOf_writeRecord] at none
    have other : (ip, port) ≠ address := by
      intro same
      rw [← same, first] at none
      cases none
    rw [sent, if_neg other, List.append_nil]
    exact streams.unsent address none

end Streams

/-- The outputs after any events. -/
theorem streams_run (events : List ConnectionEvent) :
    Streams (recordTable.trace [] events) (recordTable.exec [] events) := by
  apply Machine.trace_invariant Streams.initial
  intro history records event streams
  have requested : ∀ ip port connected fresh,
      Streams history (requestRecord records ip port connected fresh).1 := by
    intro ip port connected fresh
    rcases requestRecord_fst records ip port connected fresh with same | ⟨_, more⟩
    · rw [same]
      exact streams
    · rw [more]
      exact streams.concat rfl
  cases event with
  | accept ip port fresh => exact (streams.concat rfl).quiet fun _ => rfl
  | connect ip port connected fresh => exact (requested _ _ _ _).quiet fun _ => rfl
  | send ip port payload connected fresh =>
      rcases requestRecord_valid records ip port connected fresh with
        failed | ⟨position, given, _⟩
      · have unchanged : (recordTable.step records
            (.send ip port payload connected fresh)) =
              ((requestRecord records ip port connected fresh).1, -1) := by
          simp [recordTable, failed, writeRecord]
        rw [unchanged]
        exact (requested _ _ _ _).quiet fun _ => by simp [ConnectionEvent.sent?]
      · have written : (recordTable.step records
            (.send ip port payload connected fresh)) =
              (writeRecord (requestRecord records ip port connected fresh).1 position
                payload.bytes, (position : Int)) := by
          simp [recordTable, given]
        have first : firstOf (ip, port) (requestRecord records ip port connected fresh).1 =
            some (requestRecord records ip port connected fresh).2.toNat :=
          requestRecord_first (by omega)
        rw [given, Int.toNat_natCast] at first
        rw [written]
        exact (requested _ _ _ _).write first

/-! ## Runs of the list -/

theorem grows_run (records : List BevInfor) (events : List ConnectionEvent) :
    Grows records (recordTable.exec records events) := by
  induction events generalizing records with
  | nil => exact Grows.refl records
  | cons event rest ih => exact (step_grows records event).trans (ih _)

theorem keeps_run (found : records[position]? = some info) {events : List ConnectionEvent}
    (quiet : ∀ event ∈ events, event.isSend = false) :
    (recordTable.exec records events)[position]? = some info := by
  induction events generalizing records with
  | nil => exact found
  | cons event rest ih =>
      apply ih
      · exact step_keeps (quiet event List.mem_cons_self) found
      · intro later member
        exact quiet later (List.mem_cons_of_mem _ member)

/-- An address that was reached is reached by the same record ever after. -/
theorem recordTable_sticky {first second : ConnectionEvent}
    (requested : first.request? = some address) (again : second.request? = some address)
    (valid : 0 ≤ (recordTable.step records first).2) (middle : List ConnectionEvent) :
    (recordTable.step (recordTable.exec records (first :: middle)) second).2 =
      (recordTable.step records first).2 := by
  have found := (step_request records requested).2.1 valid
  have still := (grows_run _ middle).firstOf_eq found
  rw [Machine.exec_cons, (step_request _ again).1 _ still, Int.toNat_of_nonneg valid]

/-- The record that an address was given takes everything that is sent to the address. -/
theorem recordTable_streams {events : List ConnectionEvent} {first : ConnectionEvent}
    (requested : first.request? = some address)
    (valid : 0 ≤ (recordTable.step (recordTable.exec [] events) first).2)
    (middle : List ConnectionEvent) :
    ∃ info, (recordTable.exec [] (events ++ first :: middle))[
        (recordTable.step (recordTable.exec [] events) first).2.toNat]? = some info ∧
      info.address = address ∧
      info.bev.output = controlFormat.frames
        (sentTo address (recordTable.trace [] (events ++ first :: middle))) := by
  have found := (step_request _ requested).2.1 valid
  have still := (grows_run _ middle).firstOf_eq found
  rw [← Machine.exec_cons, ← Machine.exec_append] at still
  rcases List.findIdx?_eq_some_iff_getElem.mp still with ⟨inside, matching, _⟩
  have present := List.getElem?_eq_getElem inside
  have output := (streams_run (events ++ first :: middle)).output _ _ present
  rw [of_decide_eq_true matching, if_pos still] at output
  exact ⟨_, present, of_decide_eq_true matching, output⟩

theorem length_step_le (records : List BevInfor) (event : ConnectionEvent) :
    (recordTable.step records event).1.length ≤ records.length + 1 := by
  cases requested : event.request? with
  | some address =>
      rcases (step_request records requested).2.2 with same | ⟨more, _⟩
      · omega
      · omega
  | none =>
      cases event with
      | accept ip port fresh => simp [recordTable]
      | connect ip port connected fresh => cases requested
      | send ip port payload connected fresh => cases requested

theorem length_run_le (events : List ConnectionEvent) :
    (recordTable.exec [] events).length ≤ events.length := by
  induction events using List.reverseRecOn with
  | nil => exact le_rfl
  | append_singleton events event ih =>
      have one := length_step_le (recordTable.exec [] events) event
      rw [Machine.exec_concat, List.length_append, List.length_singleton]
      omega

/-! ## Runs of a handle -/

namespace LibeventHandle

/-- A handle after any events. -/
def reached (events : List ConnectionEvent) : LibeventHandle :=
  connections.exec initHandle events

/-- The id that is returned for an event after others. -/
def answered (events : List ConnectionEvent) (event : ConnectionEvent) : Option Int :=
  (connections.step (reached events) event).2

/-- The events with the ids returned for them. -/
def routed (events : List ConnectionEvent) : List (ConnectionEvent × Int) :=
  (connections.trace initHandle events).map fun event => (event.1, event.2.getD (-1))

theorem reached_shows (events : List ConnectionEvent) :
    Shows (reached events) (recordTable.exec [] events) := by
  have free : connections.Respects initHandle (fun _ _ _ => True) events :=
    fun _ _ _ _ => trivial
  have run := recordTable_follows.run Shows.initial free
  rw [List.map_id] at run
  exact run.2.1

theorem answered_eq (events : List ConnectionEvent) (event : ConnectionEvent) :
    answered events event =
      some (recordTable.step (recordTable.exec [] events) event).2 :=
  (recordTable_follows.follows _ _ event (reached_shows events) trivial).2.2

theorem routed_eq (events : List ConnectionEvent) :
    routed events = recordTable.trace [] events := by
  induction events using List.reverseRecOn with
  | nil => rfl
  | append_singleton events event ih =>
      have answer := answered_eq events event
      rw [answered, reached] at answer
      rw [routed] at ih ⊢
      rw [Machine.trace_concat, List.map_append, ih, Machine.trace_concat, List.map_singleton,
        answer]
      rfl

end LibeventHandle

open LibeventHandle

/-- What holds for routing after any events, whatever follows them. -/
structure StickyRouting (events : List ConnectionEvent) : Prop where
  /-- No event finds a lock taken or a record missing. -/
  defined : ∀ event, (answered events event).isSome
  /-- Ids are distinct, below the next id, and there are no more of them than events. -/
  distinct : ((reached events).bevMap.entries.map Prod.fst).Nodup
  below : ∀ entry ∈ (reached events).bevMap.entries,
    0 ≤ entry.1 ∧ entry.1 < (reached events).maxBevId
  counted : (reached events).maxBevId ≤ events.length
  /-- A record is never replaced; frames are added to its output by sending only. -/
  kept : ∀ connectId info later, (reached events).bevMap.lookup connectId = some info →
    (∃ frames, (reached (events ++ later)).bevMap.lookup connectId =
      some (info.appendOutput frames)) ∧
    ((∀ event ∈ later, event.isSend = false) →
      (reached (events ++ later)).bevMap.lookup connectId = some info)
  /-- A request is given an id exactly when the attempt to connect succeeds or its address has
  a record. -/
  given : ∀ event address, event.request? = some address →
    ∃ connectId, answered events event = some connectId ∧
      (0 ≤ connectId ↔ event.connects = true ∨
        ∃ entry ∈ (reached events).bevMap.entries, entry.2.address = address)
  /-- A request adds a record only for an address that has none. -/
  created : ∀ event address, event.request? = some address →
    (reached (events ++ [event])).bevMap.entries.length =
        (reached events).bevMap.entries.length ∨
      (reached (events ++ [event])).bevMap.entries.length =
          (reached events).bevMap.entries.length + 1 ∧
        ∀ entry ∈ (reached events).bevMap.entries, entry.2.address ≠ address
  /-- Once an address was given an id, it is given that id. -/
  sticky : ∀ first middle second address connectId,
    first.request? = some address → second.request? = some address → 0 ≤ connectId →
    answered events first = some connectId →
    answered (events ++ first :: middle) second = some connectId
  /-- The connection of that id takes all frames of the address, in the order of the
  calls. -/
  streams : ∀ first middle address connectId,
    first.request? = some address → 0 ≤ connectId →
    answered events first = some connectId →
    ∃ info, (reached (events ++ first :: middle)).bevMap.lookup connectId = some info ∧
      info.address = address ∧
      info.bev.output =
        controlFormat.frames (sentTo address (routed (events ++ first :: middle)))

/-- Routing to a destination is sticky. -/
theorem routing_sticky (events : List ConnectionEvent) : StickyRouting events := by
  have showing := reached_shows events
  have exec_later : ∀ later, recordTable.exec [] (events ++ later) =
      recordTable.exec (recordTable.exec [] events) later :=
    fun later => Machine.exec_append _ _ _ _
  constructor
  case defined =>
    intro event
    rw [answered_eq]
    rfl
  case distinct => exact OrderedMap.nodup_keys _
  case below =>
    intro entry member
    refine ⟨?_, showing.below_next entry member⟩
    rw [showing.entries] at member
    rcases mem_entriesOf.mp member with ⟨position, _, same⟩
    omega
  case counted =>
    rw [showing.next]
    exact_mod_cast length_run_le events
  case kept =>
    intro connectId info later found
    rw [OrderedMap.lookup_eq_some_iff, showing.entries] at found
    rcases mem_entriesOf.mp found with ⟨position, present, rfl⟩
    rw [(reached_shows (events ++ later)).lookup_eq, exec_later]
    exact ⟨grows_run _ later position info present, keeps_run present⟩
  case given =>
    intro event address requested
    refine ⟨_, answered_eq events event, ?_⟩
    rw [step_nonneg_iff requested, showing.entries, firstOf_isSome_iff]
  case created =>
    intro event address requested
    rw [(reached_shows (events ++ [event])).entries, showing.entries, Machine.exec_concat,
      length_entriesOf, length_entriesOf]
    rcases (step_request (recordTable.exec [] events) requested).2.2 with same | ⟨more, none⟩
    · exact .inl same
    · refine .inr ⟨more, ?_⟩
      intro entry member
      rcases mem_entriesOf.mp member with ⟨position, found, _⟩
      have rejected := List.findIdx?_eq_none_iff.mp none _ (List.mem_of_getElem? found)
      exact of_decide_eq_false rejected
  case sticky =>
    intro first middle second address connectId requested again valid answer
    rw [answered_eq, Option.some.injEq] at answer ⊢
    rw [exec_later, recordTable_sticky requested again (by omega), answer]
  case streams =>
    intro first middle address connectId requested valid answer
    rw [answered_eq, Option.some.injEq] at answer
    subst answer
    rcases recordTable_streams requested valid middle with ⟨info, present, same, output⟩
    refine ⟨info, ?_, same, ?_⟩
    · rw [← present, ← (reached_shows (events ++ first :: middle)).lookup_eq,
        Int.toNat_of_nonneg valid]
    · rw [routed_eq, output]

end MultiMaster.NetIO
