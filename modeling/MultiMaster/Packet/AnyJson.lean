import MultiMaster.Packet.ParseControl

/-!
# Arbitrary JSON documents

The handler expects the documents that packets are written as.  In another document a
string or a number can take an entry from the stack that a surrounding scope put there.
Documents in which every value finds the entries it takes in its own scope are read
without taking from an empty stack.
-/

namespace MultiMaster.Packet

open Foundation

/-- Values for which the handler does nothing. -/
inductive JsonScalar where
  | null
  | bool (value : Bool)
  | int (value : Int)
  | int64 (value : Int)
  | uint64 (value : Nat)
  | double

mutual

/-- JSON values as the reader tells them apart. -/
inductive Json where
  | scalar (value : JsonScalar)
  | uint (value : UInt32)
  | string (value : Bytes)
  | array (elements : JsonElements)
  | object (members : JsonMembers)

inductive JsonElements where
  | nil
  | cons (first : Json) (rest : JsonElements)

inductive JsonMembers where
  | nil
  | cons (name : Bytes) (first : Json) (rest : JsonMembers)

end

/-! ## Calls for a document -/

def JsonScalar.event : JsonScalar → JsonEvent
  | .null => .null
  | .bool value => .bool value
  | .int value => .int value
  | .int64 value => .int64 value
  | .uint64 value => .uint64 value
  | .double => .double

mutual

/-- The calls of the handler for a value. -/
def Json.events : Json → List JsonEvent
  | .scalar value => [value.event]
  | .uint value => [.uint value]
  | .string value => [.string value]
  | .array elements => .startArray :: (elements.events ++ [.endArray])
  | .object members => .startObject :: (members.events ++ [.endObject])

def JsonElements.events : JsonElements → List JsonEvent
  | .nil => []
  | .cons first rest => first.events ++ rest.events

def JsonMembers.events : JsonMembers → List JsonEvent
  | .nil => []
  | .cons name first rest => .key name :: (first.events ++ rest.events)

end

/-! ## Placement of values -/

/-- What comes of a part of a document: a value is at a place where it finds no entries
of its own, the handler returns false, or the part is read.  Then the flag says whether
any value has been stored. -/
inductive Reading where
  | misplaced
  | stopped
  | passed (stored : Bool)
  deriving DecidableEq

def Reading.andThen : Reading → (Bool → Reading) → Reading
  | .passed stored, next => next stored
  | .misplaced, _ => .misplaced
  | .stopped, _ => .stopped

mutual

/-- A value that is the document or an element of an array: strings and non-negative
32-bit numbers have no name there. -/
def Json.reading (stored : Bool) : Json → Reading
  | .scalar _ => .passed stored
  | .uint _ => .misplaced
  | .string _ => .misplaced
  | .array elements => elements.reading stored
  | .object members => members.reading stored 0

def JsonElements.reading (stored : Bool) : JsonElements → Reading
  | .nil => .passed stored
  | .cons first rest => (first.reading stored).andThen fun stored => rest.reading stored

/-- The members of an object, after members that left `pending` entries.  A `ptr_val`
takes two entries and needs a stored value; an object with entries left stops the
reader. -/
def JsonMembers.reading (stored : Bool) (pending : Nat) : JsonMembers → Reading
  | .nil => if pending = 0 then .passed stored else .stopped
  | .cons name (.string _) rest =>
      if name = literal "ptr_key" then rest.reading stored (pending + 1)
      else if name = literal "ptr_val" then
        if 2 ≤ pending ∧ stored = true then rest.reading stored (pending - 2) else .misplaced
      else rest.reading true pending
  | .cons name (.uint _) rest =>
      if name = literal "ptr_offset" then rest.reading stored (pending + 1)
      else if name = literal "SegmentType" then rest.reading stored pending
      else rest.reading true pending
  | .cons _ (.scalar _) rest => rest.reading stored (pending + 1)
  | .cons _ (.array elements) rest =>
      (elements.reading stored).andThen fun stored => rest.reading stored pending
  | .cons _ (.object members) rest =>
      (members.reading stored 0).andThen fun stored => rest.reading stored (pending + 1)

end

/-- No value is misplaced.  With a document that is an array the handler compares the
type of an uninitialised item, which must not be that of a key. -/
def Json.WellPlaced (memory : ParseType) (document : Json) : Prop :=
  document.reading false ≠ .misplaced ∧
    match document with
    | .array _ => memory ≠ .key
    | _ => True

/-! ## Entries of other scopes -/

namespace ParseControl

variable {memory : ParseType} {control after : ParseControl} {heights : List Nat}

/-- The heights of the stack when the open scopes began. -/
def heightsAfter (heights : List Nat) (event : JsonEvent) (after : ParseControl) : List Nat :=
  match event with
  | .startArray | .startObject => after.parseStack.length :: heights
  | .endArray | .endObject => heights.tail
  | _ => heights

/-- Some call takes from an empty stack or looks up an offset that is not there, or
leaves the stack lower than it was when the innermost scope began. -/
def TakesForeign (memory : ParseType) (control : ParseControl) (heights : List Nat) :
    List JsonEvent → Prop
  | [] => False
  | event :: rest =>
      match control.handle memory event with
      | none => True
      | some (_, false) => False
      | some (after, true) =>
          after.parseStack.length < (heightsAfter heights event after).headD 0 ∨
            TakesForeign memory after (heightsAfter heights event after) rest

/-- Without such a call the reading ends or is stopped. -/
theorem read_of_not_takesForeign {events : List JsonEvent}
    (own : ¬TakesForeign memory control heights events) : control.read memory events ≠ none := by
  induction events generalizing control heights with
  | nil => simp [read]
  | cons event rest ih =>
      rw [TakesForeign] at own
      rw [read]
      cases handled : control.handle memory event with
      | none => simp [handled] at own
      | some called =>
          rcases called with ⟨after, proceed⟩
          cases proceed with
          | false => simp
          | true =>
              rw [handled, not_or] at own
              exact ih own.2

/-- The numbers of the names are those of offsets, or the zero of a name that was never
stored. -/
def Indexed (control : ParseControl) : Prop :=
  ∀ name id, control.nameIdMap.lookup name = some id →
    0 ≤ id ∧ (id = 0 ∨ id < control.ptrCount)

def hasStored (control : ParseControl) : Bool := decide (0 < control.ptrCount)

theorem Indexed.store {name : Bytes} (indexed : control.Indexed) :
    (control.store name).Indexed := by
  have grown : (control.store name).ptrCount = control.ptrCount + 1 := rfl
  exact IdsBelow.insert indexed (by omega) (Int.natCast_nonneg _) (.inr (by omega))

theorem Indexed.enter {name : Bytes} (indexed : control.Indexed) :
    (control.enter name).Indexed := by
  rw [ParseControl.enter]
  cases control.nameIdMap.lookup name with
  | some _ => exact indexed
  | none => exact IdsBelow.insert indexed (Nat.le_refl _) (Int.le_refl 0) (.inl rfl)

/-- A looked up number is that of an offset as soon as there is one. -/
theorem Indexed.index_inside (indexed : control.Indexed) (name : Bytes) :
    (0 ≤ control.index name ∧ control.index name < control.ptrCount) ↔ 0 < control.ptrCount := by
  rw [index]
  cases known : control.nameIdMap.lookup name with
  | none => simp
  | some id =>
      have inside := indexed name id known
      simp only [Option.getD_some]
      omega

/-! ## Parts of documents -/

/-- The calls for a part of a document do what `reading` says, and leave the stack and
the heights as given. -/
def Follows (memory : ParseType) (control : ParseControl) (heights : List Nat)
    (events : List JsonEvent) (stack : List ParseItem) (ending : List Nat) : Reading → Prop
  | .misplaced => ∀ rest, TakesForeign memory control heights (events ++ rest)
  | .stopped => ∀ rest, ¬TakesForeign memory control heights (events ++ rest)
  | .passed stored =>
      ∃ after : ParseControl, after.parseStack = stack ∧ after.Indexed ∧
        stored = after.hasStored ∧ ∀ rest,
          TakesForeign memory control heights (events ++ rest) ↔
            TakesForeign memory after ending rest

variable {events more : List JsonEvent} {event : JsonEvent} {reading : Reading}
variable {stack middle : List ParseItem} {between ending : List Nat}

theorem takesForeign_cons_of_own (handled : control.handle memory event = some (after, true))
    (own : (heightsAfter heights event after).headD 0 ≤ after.parseStack.length)
    (rest : List JsonEvent) :
    TakesForeign memory control heights (event :: rest) ↔
      TakesForeign memory after (heightsAfter heights event after) rest := by
  rw [TakesForeign, handled]
  exact or_iff_right (by omega)

/-- A call that keeps to its scope goes before a part. -/
theorem Follows.cons (handled : control.handle memory event = some (after, true))
    (own : (heightsAfter heights event after).headD 0 ≤ after.parseStack.length)
    (follows : Follows memory after (heightsAfter heights event after) events stack ending
      reading) :
    Follows memory control heights (event :: events) stack ending reading := by
  have step := takesForeign_cons_of_own handled own
  cases reading with
  | misplaced => exact fun rest => (step _).mpr (follows rest)
  | stopped => exact fun rest => mt (step _).mp (follows rest)
  | passed stored =>
      rcases follows with ⟨last, same, indexed, count, follows⟩
      exact ⟨last, same, indexed, count, fun rest => (step _).trans (follows rest)⟩

/-- Nothing is done. -/
theorem Follows.nil (indexed : control.Indexed) :
    Follows memory control heights [] control.parseStack heights (.passed control.hasStored) :=
  ⟨control, rfl, indexed, rfl, fun _ => Iff.rfl⟩

/-- One part after another. -/
theorem Follows.append {next : Bool → Reading}
    (first : Follows memory control heights events middle between reading)
    (second : ∀ after : ParseControl, after.parseStack = middle → after.Indexed →
      Follows memory after between more stack ending (next after.hasStored)) :
    Follows memory control heights (events ++ more) stack ending (reading.andThen next) := by
  cases reading with
  | misplaced =>
      intro rest
      rw [List.append_assoc]
      exact first _
  | stopped =>
      intro rest
      rw [List.append_assoc]
      exact first _
  | passed stored =>
      rcases first with ⟨after, same, indexed, rfl, first⟩
      have second := second after same indexed
      rw [Reading.andThen]
      cases result : next after.hasStored with
      | misplaced =>
          rw [result] at second
          intro rest
          rw [List.append_assoc]
          exact (first _).mpr (second rest)
      | stopped =>
          rw [result] at second
          intro rest
          rw [List.append_assoc]
          exact mt (first _).mp (second rest)
      | passed stored =>
          rw [result] at second
          rcases second with ⟨last, ends, indexed, count, second⟩
          refine ⟨last, ends, indexed, count, fun rest => ?_⟩
          rw [List.append_assoc]
          exact (first _).trans (second rest)

/-- A call with nothing to take is misplaced. -/
theorem takesForeign_of_none (failed : control.handle memory event = none)
    (rest : List JsonEvent) : TakesForeign memory control heights (event :: rest) := by
  rw [TakesForeign, failed]
  trivial

/-- So is a call that leaves the stack below its scope. -/
theorem takesForeign_of_below (handled : control.handle memory event = some (after, true))
    (below : after.parseStack.length < (heightsAfter heights event after).headD 0)
    (rest : List JsonEvent) : TakesForeign memory control heights (event :: rest) := by
  rw [TakesForeign, handled]
  exact .inl below

/-! ## Every document -/

theorem handle_scalar (value : JsonScalar) :
    control.handle memory value.event = some (control, true) := by
  cases value <;> rfl

theorem heightsAfter_scalar (value : JsonScalar) :
    heightsAfter heights value.event after = heights := by
  cases value <;> rfl

theorem handle_uint {value : UInt32} (called : control.uint value = some after) :
    control.handle memory (.uint value) = some (after, true) :=
  congrArg (Option.map (·, true)) called

theorem handle_string {value : Bytes} (called : control.string value = some after) :
    control.handle memory (.string value) = some (after, true) :=
  congrArg (Option.map (·, true)) called

theorem handle_startArray (called : control.startArray memory = some after) :
    control.handle memory .startArray = some (after, true) :=
  congrArg (Option.map (·, true)) called

/-- The entry of an open array. -/
def arrayItem : ParseItem := ⟨.array, []⟩

/-- The entry of an open object. -/
def objectItem : ParseItem := ⟨.object, []⟩

/-- The stack and the heights where an element is read. -/
def AtElement (control : ParseControl) (heights : List Nat) : Prop :=
  (control.parseStack = [] ∧ heights = []) ∨
    ∃ tail outer, control.parseStack = arrayItem :: tail ∧ heights = (tail.length + 1) :: outer

theorem AtElement.own (place : control.AtElement heights) :
    heights.headD 0 ≤ control.parseStack.length := by
  rcases place with ⟨empty, rfl⟩ | ⟨tail, outer, scope, rfl⟩
  · simp
  · simp [scope]

/-- A number has no name among the elements. -/
theorem AtElement.uint (place : control.AtElement heights) (value : UInt32)
    (rest : List JsonEvent) : TakesForeign memory control heights (.uint value :: rest) := by
  rcases place with ⟨empty, rfl⟩ | ⟨tail, outer, scope, rfl⟩
  · apply takesForeign_of_none
    simp [handle, ParseControl.uint, empty]
  · have taken : control.uint value = some ({ control with parseStack := tail }.store []) := by
      rw [ParseControl.uint, scope]
      exact (if_neg (by decide)).trans (if_neg (by decide))
    apply takesForeign_of_below (handle_uint taken)
    exact Nat.lt_succ_self tail.length

/-- Nor has a string. -/
theorem AtElement.string (place : control.AtElement heights) (value : Bytes)
    (rest : List JsonEvent) : TakesForeign memory control heights (.string value :: rest) := by
  rcases place with ⟨empty, rfl⟩ | ⟨tail, outer, scope, rfl⟩
  · apply takesForeign_of_none
    simp [handle, ParseControl.string, empty]
  · have taken : control.string value = some ({ control with parseStack := tail }.store []) := by
      rw [ParseControl.string, scope]
      exact (if_neg (by decide)).trans (if_neg (by decide))
    apply takesForeign_of_below (handle_string taken)
    exact Nat.lt_succ_self tail.length

/-- An array among the elements begins a scope of its own. -/
theorem AtElement.startArray (place : control.AtElement heights)
    (defined : control.parseStack = [] → memory ≠ .key) :
    control.startArray memory =
      some { control with parseStack := arrayItem :: control.parseStack } := by
  rcases place with ⟨empty, rfl⟩ | ⟨tail, outer, scope, rfl⟩
  · rw [ParseControl.startArray, empty]
    exact if_neg (defined empty)
  · rw [ParseControl.startArray, scope]
    exact if_neg (by decide)

/-- The end of a scope whose own entry is on top. -/
theorem Follows.endScope {tail : List ParseItem} {outer : List Nat}
    (indexed : control.Indexed)
    (handled : control.handle memory event =
      some ({ control with parseStack := tail }, true))
    (popped : heightsAfter heights event { control with parseStack := tail } = outer)
    (own : outer.headD 0 ≤ tail.length) :
    Follows memory control heights [event] tail outer (.passed control.hasStored) := by
  apply Follows.cons handled
  · rw [popped]
    exact own
  · rw [popped]
    exact Follows.nil indexed

/-! ### Members -/

/-- The stack and the heights where a member is read.  Above the entry of the object there
are the entries that earlier members left. -/
structure AtMember (control : ParseControl) (pending tail : List ParseItem) : Prop where
  indexed : control.Indexed
  scope : control.parseStack = pending ++ objectItem :: tail
  left : ∀ item ∈ pending, item.type ≠ .object

/-- The members that are left and the end of the object are read as their `reading` says,
with whatever entries the members before left. -/
def MembersFollow (memory : ParseType) (tail : List ParseItem) (outer : List Nat)
    (members : JsonMembers) : Prop :=
  ∀ (control : ParseControl) (pending : List ParseItem), AtMember control pending tail →
    Follows memory control ((tail.length + 1) :: outer) (members.events ++ [.endObject]) tail outer
      (members.reading control.hasStored pending.length)

variable {pending tail : List ParseItem} {outer : List Nat} {members : JsonMembers} {name : Bytes}

/-- The control after the name of a member. -/
def named (control : ParseControl) (name : Bytes) : ParseControl :=
  { control with parseStack := ⟨.key, name⟩ :: control.parseStack }

theorem AtMember.left_cons {item : ParseItem} (place : AtMember control pending tail)
    (other : item.type ≠ .object) : ∀ left ∈ item :: pending, left.type ≠ .object :=
  List.forall_mem_cons.mpr ⟨other, place.left⟩

/-- The name stays on the stack. -/
theorem AtMember.named (place : AtMember control pending tail) :
    AtMember (control.named name) (⟨.key, name⟩ :: pending) tail :=
  { indexed := place.indexed
    scope := by simp [ParseControl.named, place.scope]
    left := place.left_cons ParseType.noConfusion }

/-- The member is stored. -/
theorem AtMember.store (place : AtMember control pending tail) :
    AtMember (control.store name) pending tail :=
  { indexed := place.indexed.store
    scope := place.scope
    left := place.left }

theorem hasStored_store : (control.store name).hasStored = true := by
  simp [hasStored, ParseControl.store]

/-- The stack where a member is read is not below the object. -/
theorem AtMember.own (place : AtMember control pending tail) :
    tail.length + 1 ≤ control.parseStack.length := by
  rw [place.scope, List.length_append, List.length_cons]
  omega

/-- The calls for a member whose value does nothing but its own call. -/
theorem AtMember.follows_value {reading : Reading} {value : JsonEvent}
    {later : List ParseItem}
    (place : AtMember control pending tail)
    (handled : (control.named name).handle memory value = some (after, true))
    (same : heightsAfter ((tail.length + 1) :: outer) value after = (tail.length + 1) :: outer)
    (next : AtMember after later tail)
    (follows : Follows memory after ((tail.length + 1) :: outer) events tail outer reading) :
    Follows memory control ((tail.length + 1) :: outer) (.key name :: value :: events) tail outer
      reading := by
  have keyed : control.handle memory (.key name) = some (control.named name, true) := rfl
  apply Follows.cons keyed
  · exact place.named.own
  · have still : heightsAfter ((tail.length + 1) :: outer) (.key name) (control.named name) =
        (tail.length + 1) :: outer := rfl
    rw [still]
    apply Follows.cons handled
    · rw [same]
      exact next.own
    · rw [same]
      exact follows

/-- A value for which the handler does nothing leaves the name of its member. -/
theorem MembersFollow.scalar (rest : MembersFollow memory tail outer members)
    (place : AtMember control pending tail) (value : JsonScalar) :
    Follows memory control ((tail.length + 1) :: outer)
      ((JsonMembers.cons name (.scalar value) members).events ++ [.endObject]) tail outer
      ((JsonMembers.cons name (.scalar value) members).reading control.hasStored
        pending.length) := by
  rw [JsonMembers.reading]
  exact place.follows_value (handle_scalar value) (heightsAfter_scalar value) place.named
    (rest _ _ place.named)

theorem MembersFollow.uint (rest : MembersFollow memory tail outer members)
    (place : AtMember control pending tail) (value : UInt32) :
    Follows memory control ((tail.length + 1) :: outer)
      ((JsonMembers.cons name (.uint value) members).events ++ [.endObject]) tail outer
      ((JsonMembers.cons name (.uint value) members).reading control.hasStored
        pending.length) := by
  rw [JsonMembers.reading]
  by_cases offset : name = literal "ptr_offset"
  · rw [if_pos offset]
    let item : ParseItem := ⟨.ptrOffset, leBytes 4 value.toNat⟩
    have called : (control.named name).uint value =
        some { control with parseStack := item :: control.parseStack } := if_pos offset
    have next : AtMember { control with parseStack := item :: control.parseStack }
        (item :: pending) tail :=
      { indexed := place.indexed
        scope := by simp [place.scope]
        left := place.left_cons ParseType.noConfusion }
    exact place.follows_value (handle_uint called) rfl next (rest _ _ next)
  · rw [if_neg offset]
    by_cases segment : name = literal "SegmentType"
    · rw [if_pos segment]
      have called : (control.named name).uint value = some control :=
        (if_neg offset).trans (if_pos segment)
      exact place.follows_value (handle_uint called) rfl place (rest _ _ place)
    · rw [if_neg segment]
      have called : (control.named name).uint value = some (control.store name) :=
        (if_neg offset).trans (if_neg segment)
      have next : AtMember (control.store name) pending tail := place.store
      have follows := rest _ _ next
      rw [hasStored_store] at follows
      exact place.follows_value (handle_uint called) rfl next follows

@[simp] theorem enter_parseStack : (control.enter name).parseStack = control.parseStack := by
  rw [enter]
  split <;> rfl

@[simp] theorem enter_ptrCount : (control.enter name).ptrCount = control.ptrCount := by
  rw [enter]
  split <;> rfl

/-- A `ptr_val` takes two entries of the members before, when a value is stored. -/
theorem string_ptrVal_of_pending {offset key : ParseItem} {value : Bytes}
    (indexed : control.Indexed) (scope : control.parseStack = offset :: key :: stack)
    (counted : control.hasStored = true) :
    (control.named (literal "ptr_val")).string value =
      some ({ control with parseStack := stack }.enter key.key) := by
  have inside := (indexed.index_inside key.key).mpr (of_decide_eq_true counted)
  rw [ParseControl.string, ParseControl.named, scope]
  exact (if_neg (by decide)).trans ((if_pos rfl).trans (if_pos inside))

/-- It takes them from whatever is there, or fails. -/
theorem string_ptrVal_of_some {value : Bytes} (indexed : control.Indexed)
    (called : (control.named (literal "ptr_val")).string value = some after) :
    control.hasStored = true ∧ after.parseStack.length + 2 = control.parseStack.length := by
  have other : literal "ptr_val" ≠ literal "ptr_key" := by decide
  simp only [ParseControl.string, named, if_neg other, if_true] at called
  split at called
  · rename_i itemOffset itemKey stack scope
    rcases Option.ite_none_right_eq_some.mp called with ⟨inside, same⟩
    cases same
    refine ⟨decide_eq_true ((indexed.index_inside _).mp inside), ?_⟩
    simp [scope]
  · cases called

/-- A `ptr_val` without two entries of its own object or any stored value. -/
theorem AtMember.misplaced_ptrVal {value : Bytes} (place : AtMember control pending tail)
    (lacking : ¬(2 ≤ pending.length ∧ control.hasStored = true)) (rest : List JsonEvent) :
    TakesForeign memory control ((tail.length + 1) :: outer)
      (.key (literal "ptr_val") :: .string value :: rest) := by
  let keyed := control.named (literal "ptr_val")
  have handled : control.handle memory (.key (literal "ptr_val")) = some (keyed, true) := rfl
  have own : tail.length + 1 ≤ keyed.parseStack.length := place.named.own
  have still : heightsAfter ((tail.length + 1) :: outer) (.key (literal "ptr_val")) keyed =
      (tail.length + 1) :: outer := rfl
  apply (takesForeign_cons_of_own handled (by rw [still]; exact own) _).mpr
  cases called : keyed.string value with
  | none =>
      apply takesForeign_of_none
      rw [handle, called]
      rfl
  | some after =>
      have counted := string_ptrVal_of_some place.indexed called
      have few : pending.length < 2 := by
        by_contra many
        exact lacking ⟨by omega, counted.1⟩
      have height : control.parseStack.length = pending.length + (tail.length + 1) := by
        rw [place.scope, List.length_append, List.length_cons]
      have below : after.parseStack.length < tail.length + 1 := by omega
      apply takesForeign_of_below (handle_string called)
      exact below

theorem MembersFollow.string (rest : MembersFollow memory tail outer members)
    (place : AtMember control pending tail) (value : Bytes) :
    Follows memory control ((tail.length + 1) :: outer)
      ((JsonMembers.cons name (.string value) members).events ++ [.endObject]) tail outer
      ((JsonMembers.cons name (.string value) members).reading control.hasStored
        pending.length) := by
  rw [JsonMembers.reading]
  by_cases ptrKey : name = literal "ptr_key"
  · rw [if_pos ptrKey]
    let item : ParseItem := ⟨.ptrKey, value⟩
    have called : (control.named name).string value =
        some { control with parseStack := item :: control.parseStack } := if_pos ptrKey
    have next : AtMember { control with parseStack := item :: control.parseStack }
        (item :: pending) tail :=
      { indexed := place.indexed
        scope := by simp [place.scope]
        left := place.left_cons ParseType.noConfusion }
    exact place.follows_value (handle_string called) rfl next (rest _ _ next)
  · rw [if_neg ptrKey]
    by_cases ptrVal : name = literal "ptr_val"
    · rw [if_pos ptrVal]
      subst ptrVal
      by_cases enough : 2 ≤ pending.length ∧ control.hasStored = true
      · rw [if_pos enough]
        match pending, place, enough with
        | offset :: key :: pending, place, enough =>
            have called := (string_ptrVal_of_pending place.indexed place.scope enough.2 :
              (control.named (literal "ptr_val")).string value = _)
            let after := ParseControl.enter
              { control with parseStack := pending ++ objectItem :: tail } key.key
            have next : AtMember after pending tail :=
              { indexed := Indexed.enter place.indexed
                scope := enter_parseStack
                left := (List.forall_mem_cons.mp (List.forall_mem_cons.mp place.left).2).2 }
            have counted : after.hasStored = control.hasStored :=
              congrArg (fun count => decide (0 < count)) enter_ptrCount
            have follows := rest _ _ next
            rw [counted] at follows
            exact place.follows_value (handle_string called) rfl next follows
      · rw [if_neg enough]
        exact fun more => place.misplaced_ptrVal enough _
    · rw [if_neg ptrVal]
      have called : (control.named name).string value = some (control.store name) :=
        (if_neg ptrKey).trans (if_neg ptrVal)
      have next : AtMember (control.store name) pending tail := place.store
      have follows := rest _ _ next
      rw [hasStored_store] at follows
      exact place.follows_value (handle_string called) rfl next follows

/-! ### Arrays and objects -/

/-- The elements that are left and the end of the array are read as their `reading` says. -/
def ElementsFollow (memory : ParseType) (elements : JsonElements) : Prop :=
  ∀ (control : ParseControl) (tail : List ParseItem) (outer : List Nat), control.Indexed →
    control.parseStack = arrayItem :: tail → outer.headD 0 ≤ tail.length →
      Follows memory control ((tail.length + 1) :: outer) (elements.events ++ [.endArray])
        tail outer (elements.reading control.hasStored)

variable {elements : JsonElements}

/-- An array as the value of a member takes the name of the member. -/
theorem MembersFollow.array (rest : MembersFollow memory tail outer members)
    (inner : ElementsFollow memory elements) (place : AtMember control pending tail) :
    Follows memory control ((tail.length + 1) :: outer)
      ((JsonMembers.cons name (.array elements) members).events ++ [.endObject]) tail outer
      ((JsonMembers.cons name (.array elements) members).reading control.hasStored
        pending.length) := by
  have split : (JsonMembers.cons name (.array elements) members).events ++ [.endObject] =
      .key name :: .startArray :: ((elements.events ++ [.endArray]) ++
        (members.events ++ [.endObject])) := by
    simp [JsonMembers.events, Json.events]
  rw [split, JsonMembers.reading]
  let opened : ParseControl :=
    { control with parseStack := arrayItem :: control.parseStack }
  have keyed : control.handle memory (.key name) = some (control.named name, true) := rfl
  have called : (control.named name).startArray memory = some opened := by
    rw [startArray, named]
    exact if_pos rfl
  have own : tail.length + 1 ≤ control.parseStack.length := place.own
  apply Follows.cons keyed
  · exact place.named.own
  · apply Follows.cons (handle_startArray called) (Nat.le_refl _)
    have elementsFollow := inner opened control.parseStack ((tail.length + 1) :: outer)
      place.indexed rfl own
    refine Follows.append elementsFollow fun after same indexed => ?_
    exact rest after pending ⟨indexed, same.trans place.scope, place.left⟩

/-- An object as the value of a member leaves the name of the member. -/
theorem MembersFollow.object {inner : JsonMembers}
    (rest : MembersFollow memory tail outer members)
    (innerFollow : ∀ tail outer, outer.headD 0 ≤ tail.length →
      MembersFollow memory tail outer inner)
    (place : AtMember control pending tail) :
    Follows memory control ((tail.length + 1) :: outer)
      ((JsonMembers.cons name (.object inner) members).events ++ [.endObject]) tail outer
      ((JsonMembers.cons name (.object inner) members).reading control.hasStored
        pending.length) := by
  have split : (JsonMembers.cons name (.object inner) members).events ++ [.endObject] =
      .key name :: .startObject :: ((inner.events ++ [.endObject]) ++
        (members.events ++ [.endObject])) := by
    simp [JsonMembers.events, Json.events]
  rw [split, JsonMembers.reading]
  let keyed := control.named name
  let opened : ParseControl := { keyed with parseStack := objectItem :: keyed.parseStack }
  have own : tail.length + 1 ≤ keyed.parseStack.length := place.named.own
  have inside : AtMember opened [] keyed.parseStack :=
    { indexed := place.indexed
      scope := rfl
      left := List.forall_mem_nil _ }
  have key : control.handle memory (.key name) = some (keyed, true) := rfl
  have start : keyed.handle memory .startObject = some (opened, true) := rfl
  apply Follows.cons key
  · exact own
  · apply Follows.cons start (Nat.le_refl _)
    have membersFollow := innerFollow keyed.parseStack ((tail.length + 1) :: outer) own opened []
      inside
    refine Follows.append membersFollow fun after same indexed => ?_
    exact rest after (⟨.key, name⟩ :: pending)
      ⟨indexed, same.trans place.named.scope, place.named.left⟩

/-- An object ends with its own entry when its members left none. -/
theorem MembersFollow.nil (own : outer.headD 0 ≤ tail.length) :
    MembersFollow memory tail outer .nil := by
  intro control pending place
  rw [JsonMembers.reading]
  cases pending with
  | nil =>
      have ended : control.handle memory .endObject =
          some ({ control with parseStack := tail }, true) := by
        rw [handle, ParseControl.endScope, place.scope]
        rfl
      exact Follows.endScope place.indexed ended rfl own
  | cons item pending =>
      have other : item.type ≠ .object := place.left item List.mem_cons_self
      intro rest
      have ended : control.handle memory .endObject =
          some ({ control with parseStack := pending ++ objectItem :: tail }, false) := by
        rw [handle, ParseControl.endScope, place.scope]
        simp [other]
      rw [JsonMembers.events, List.nil_append, List.singleton_append, TakesForeign, ended]
      exact not_false

/-- A value that is the document or an element. -/
def ValueFollows (memory : ParseType) (value : Json) : Prop :=
  ∀ (control : ParseControl) (heights : List Nat), control.Indexed → AtElement control heights →
    (control.parseStack = [] → (∃ elements, value = .array elements) → memory ≠ .key) →
      Follows memory control heights value.events control.parseStack heights
        (value.reading control.hasStored)

theorem ValueFollows.array (inner : ElementsFollow memory elements) :
    ValueFollows memory (.array elements) := by
  intro control heights indexed place defined
  rw [Json.events, Json.reading]
  have called := place.startArray fun empty => defined empty ⟨elements, rfl⟩
  apply Follows.cons (handle_startArray called) (Nat.le_refl _)
  exact inner _ control.parseStack heights indexed rfl place.own

theorem ValueFollows.object
    (inner : ∀ tail outer, outer.headD 0 ≤ tail.length → MembersFollow memory tail outer members) :
    ValueFollows memory (.object members) := by
  intro control heights indexed place defined
  rw [Json.events, Json.reading]
  let opened : ParseControl := { control with parseStack := objectItem :: control.parseStack }
  have start : control.handle memory .startObject = some (opened, true) := rfl
  apply Follows.cons start (Nat.le_refl _)
  exact inner control.parseStack heights place.own opened []
    ⟨indexed, rfl, List.forall_mem_nil _⟩

theorem ElementsFollow.nil : ElementsFollow memory .nil := by
  intro control tail outer indexed scope own
  have ended : control.handle memory .endArray =
      some ({ control with parseStack := tail }, true) := by
    rw [handle, ParseControl.endScope, scope]
    rfl
  exact Follows.endScope indexed ended rfl own

theorem ElementsFollow.cons {first : Json} (value : ValueFollows memory first)
    (rest : ElementsFollow memory elements) : ElementsFollow memory (.cons first elements) := by
  intro control tail outer indexed scope own
  rw [JsonElements.events, JsonElements.reading, List.append_assoc]
  have place : AtElement control ((tail.length + 1) :: outer) := .inr ⟨tail, outer, scope, rfl⟩
  have nonempty : control.parseStack ≠ [] := by simp [scope]
  have firstFollows := value control _ indexed place fun empty => absurd empty nonempty
  refine Follows.append firstFollows fun after same indexed => ?_
  exact rest after tail outer indexed (same.trans scope) own

mutual

/-- The calls for a value do what its `reading` says. -/
theorem value_follows : ∀ value : Json, ValueFollows memory value
  | .scalar value => by
      intro control heights indexed place defined
      apply Follows.cons (handle_scalar value)
      · rw [heightsAfter_scalar]
        exact place.own
      · rw [heightsAfter_scalar]
        exact Follows.nil indexed
  | .uint value => fun _ _ _ place _ => place.uint value
  | .string value => fun _ _ _ place _ => place.string value
  | .array elements => ValueFollows.array (elements_follow elements)
  | .object members => ValueFollows.object fun tail outer own => members_follow members own

theorem elements_follow : ∀ elements : JsonElements, ElementsFollow memory elements
  | .nil => ElementsFollow.nil
  | .cons first rest => ElementsFollow.cons (value_follows first) (elements_follow rest)

theorem members_follow {tail : List ParseItem} {outer : List Nat} :
    ∀ members : JsonMembers, outer.headD 0 ≤ tail.length → MembersFollow memory tail outer members
  | .nil, own => MembersFollow.nil own
  | .cons _ (.scalar value) rest, own => fun _ _ place =>
      (members_follow rest own).scalar place value
  | .cons _ (.uint value) rest, own => fun _ _ place =>
      (members_follow rest own).uint place value
  | .cons _ (.string value) rest, own => fun _ _ place =>
      (members_follow rest own).string place value
  | .cons _ (.array elements) rest, own => fun _ _ place =>
      (members_follow rest own).array (elements_follow elements) place
  | .cons _ (.object inner) rest, own => fun _ _ place =>
      (members_follow rest own).object (fun _ _ => members_follow inner) place

end

/-- A document that is read from the start. -/
theorem document_follows (document : Json)
    (defined : (∃ elements, document = .array elements) → memory ≠ .key) :
    Follows memory new [] document.events [] [] (document.reading false) := by
  have indexed : new.Indexed := by
    intro name id found
    cases found
  exact value_follows document new [] indexed (.inl ⟨rfl, rfl⟩) fun _ => defined

/-- In a document every call keeps to its scope exactly when every value finds its entries
there.  Then a fresh handler, whatever its buffer is, takes from no empty stack and looks up no
offset that is not there. -/
theorem document_keeps_scopes (memory : ParseType) (document : Json) :
    (¬BufferReadHandler.new.control.TakesForeign memory [] document.events ↔
        document.WellPlaced memory) ∧
      (document.WellPlaced memory →
        BufferReadHandler.new.control.read memory document.events ≠ none ∧
          ∀ handler : BufferReadHandler, handler.control = BufferReadHandler.new.control →
            handler.ReadsSafely memory document.events) := by
  have placed : ¬TakesForeign memory new [] document.events ↔ document.WellPlaced memory := by
    by_cases defined : (∃ elements, document = .array elements) → memory ≠ .key
    · have follows := document_follows document defined
      have typed : document.WellPlaced memory ↔ document.reading false ≠ .misplaced := by
        refine and_iff_left ?_
        cases document with
        | array elements => exact defined ⟨elements, rfl⟩
        | scalar _ | uint _ | string _ | object _ => trivial
      rw [typed]
      cases result : document.reading false with
      | misplaced =>
          rw [result] at follows
          have foreign := follows []
          rw [List.append_nil] at foreign
          simp [foreign]
      | stopped =>
          rw [result] at follows
          have own := follows []
          rw [List.append_nil] at own
          simp [own]
      | passed stored =>
          rw [result] at follows
          rcases follows with ⟨after, _, _, _, follows⟩
          have own := follows []
          rw [List.append_nil] at own
          simp [own, TakesForeign]
    · rw [Classical.not_imp, not_ne_iff] at defined
      rcases defined with ⟨⟨elements, rfl⟩, key⟩
      have failed : new.handle memory .startArray = none := by
        simp [handle, startArray, new, key]
      have foreign : TakesForeign memory new [] (Json.array elements).events :=
        takesForeign_of_none failed _
      have undefined : ¬(Json.array elements).WellPlaced memory := fun placed => placed.2 key
      exact iff_of_false (not_not_intro foreign) undefined
  refine ⟨placed, fun wellPlaced => ?_⟩
  have done := read_of_not_takesForeign (placed.mpr wellPlaced)
  exact ⟨done, fun handler fresh => BufferReadHandler.readsSafely_of_control (fresh ▸ done)⟩

/-- The object `{"a":1}` is read. -/
theorem number_in_object_keeps_scopes :
    (Json.object (.cons (literal "a") (.uint 1) .nil)).WellPlaced .key ∧
      BufferReadHandler.new.control.read .key
        (Json.object (.cons (literal "a") (.uint 1) .nil)).events ≠ none ∧
      ∀ handler : BufferReadHandler, handler.control = BufferReadHandler.new.control →
        handler.ReadsSafely .key
          (Json.object (.cons (literal "a") (.uint 1) .nil)).events := by
  have placed : (Json.object (.cons (literal "a") (.uint 1) .nil)).WellPlaced .key :=
    ⟨by decide, trivial⟩
  exact ⟨placed, (document_keeps_scopes .key _).2 placed⟩

/-- In `[1]` the number takes the entry of the array, whose end then finds none. -/
theorem number_in_array_takes_its_entry :
    BufferReadHandler.new.control.read .object (Json.array (.cons (.uint 1) .nil)).events =
      none ∧
    ¬({ BufferReadHandler.new with objectBuffer := .holding 4096 8 [] } :
      BufferReadHandler).ReadsSafely .object (Json.array (.cons (.uint 1) .nil)).events := by
  refine ⟨rfl, fun safe => ?_⟩
  exact safe [.startArray, .uint 1] .endArray [] rfl _ rfl rfl

end ParseControl

end MultiMaster.Packet
