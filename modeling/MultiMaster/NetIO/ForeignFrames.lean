import MultiMaster.NetIO.Transport

/-!
# Frames of any content

A frame that arrives need not have been written by `sendMessage`.  `init_message_ptr` sets
the pointers of a message by the offsets of its cursor and `check_mess_type` reads the names
they lead to, with no check in between.  The module says for which frames this is safe.
-/

namespace MultiMaster.NetIO

open Foundation

/-- A pointer leads to a terminated string inside the buffer. -/
def Ptr.Terminated (bufferStr : Bytes) : Ptr CString → Prop
  | .buffer offset => 0 ∈ bufferStr.drop offset.toNat
  | .uninit | .null | .outside _ => False

/-- The cursor of a message, its four names and its payload lie inside its frame. -/
structure EventMessage.Inside (mess : EventMessage) : Prop where
  size : mess.bufferSize.toNat = mess.bufferStr.length
  cursor : cursorSize ≤ mess.bufferStr.length
  groupName : mess.groupName.Terminated mess.bufferStr
  messType : mess.messType.Terminated mess.bufferStr
  sendHostName : mess.sendHostName.Terminated mess.bufferStr
  reciveHostName : mess.reciveHostName.Terminated mess.bufferStr
  message : ∃ offset, mess.message = .buffer offset ∧
    offset.toNat + mess.messageSize.toNat ≤ mess.bufferStr.length

/-- The message object of a frame that was received. -/
def messageOf (frame : Bytes) : EventMessage :=
  EventMessage.initMessagePtr { EventMessage.clear with
    bufferStr := frame
    bufferSize := UInt32.ofNat frame.length }

/-- The string that a word of the cursor leads to. -/
def nameAt (frame : Bytes) (field : Nat) : Option CString :=
  Ptr.cString frame (.buffer (cursorField frame field))

theorem nameAt_isSome {frame : Bytes} {field : Nat} :
    (nameAt frame field).isSome ↔ (cursorField frame field).toNat ≤ frame.length := by
  rw [nameAt, Ptr.cString]
  split
  · simp [*]
  · simp [*]

/-- The four names end inside the frame and the payload lies in it. -/
structure OffsetsInside (frame : Bytes) : Prop where
  names : ∀ field < 4, 0 ∈ frame.drop (cursorField frame field).toNat
  message : (cursorField frame 4).toNat + (cursorField frame 5).toNat ≤ frame.length

namespace EventMessageHandle

variable {Callback Arg : Type} {handle after : EventMessageHandle Callback Arg}
variable {frame : Bytes} {mess : EventMessage}

/-- A group of that name is configured. -/
def KnowsGroup (handle : EventMessageHandle Callback Arg) (groupName : CString) : Prop :=
  (handle.messGroupMap.lookup groupName).isSome

/-- A frame larger than a cursor whose offsets are inside as far as they are followed: always
that of the group, that of the type if the group is known, and all if the type is, too. -/
structure SafeFrame (handle : EventMessageHandle Callback Arg) (frame : Bytes) : Prop where
  large : cursorSize < frame.length
  groupName : (cursorField frame 0).toNat ≤ frame.length
  messType : ∀ groupName, nameAt frame 0 = some groupName → handle.KnowsGroup groupName →
    (cursorField frame 1).toNat ≤ frame.length
  offsets : ∀ groupName messType, nameAt frame 0 = some groupName →
    nameAt frame 1 = some messType → handle.Configured (groupName, messType) →
    OffsetsInside frame

/-- The verdict of `check_mess_type`, if it has one. -/
def verdict (handle : EventMessageHandle Callback Arg) (mess : EventMessage) : Option Bool :=
  (handle.checkMessType mess).map Prod.fst

/-- Both handles know the same groups and types. -/
structure SameNames (handle after : EventMessageHandle Callback Arg) : Prop where
  groups : ∀ groupName, after.KnowsGroup groupName ↔ handle.KnowsGroup groupName
  types : ∀ key, after.Configured key ↔ handle.Configured key

theorem SameNames.refl : SameNames handle handle := ⟨fun _ => .rfl, fun _ => .rfl⟩

theorem SameNames.trans {middle : EventMessageHandle Callback Arg}
    (first : SameNames handle middle) (second : SameNames middle after) :
    SameNames handle after :=
  ⟨fun groupName => (second.groups groupName).trans (first.groups groupName),
    fun key => (second.types key).trans (first.types key)⟩

theorem setCallbackInfor_knowsGroup (key : MessKey) (infor : CallbackInfor Callback Arg)
    (groupName : CString) :
    (handle.setCallbackInfor key infor).KnowsGroup groupName ↔ handle.KnowsGroup groupName := by
  rw [setCallbackInfor, KnowsGroup, KnowsGroup]
  cases found : handle.messGroupMap.lookup key.1 with
  | none => rfl
  | some group =>
      by_cases same : groupName = key.1
      · subst same
        simp [found]
      · simp [AList.lookup_insert_ne same]

/-- The type is looked at only when the group is known. -/
theorem verdict_eq_none_iff : handle.verdict mess = none ↔
    mess.groupName.cString mess.bufferStr = none ∨
      ∃ groupName, mess.groupName.cString mess.bufferStr = some groupName ∧
        handle.KnowsGroup groupName ∧ mess.messType.cString mess.bufferStr = none := by
  rw [verdict, checkMessType]
  cases group : mess.groupName.cString mess.bufferStr with
  | none => simp
  | some groupName =>
      cases found : handle.messGroupMap.lookup groupName with
      | none => simp [found, KnowsGroup]
      | some infor =>
          cases type : mess.messType.cString mess.bufferStr with
          | none => simp [found, KnowsGroup]
          | some messType =>
              cases entry : infor.messCallbackMap.lookup messType with
              | none => simp [found, entry]
              | some callback => simp [found, entry]

theorem verdict_eq_true_iff : handle.verdict mess = some true ↔
    ∃ key, mess.key? = some key ∧ handle.Configured key := by
  constructor
  · intro accepted
    rw [verdict, Option.map_eq_some_iff] at accepted
    rcases accepted with ⟨checked, found, agreed⟩
    cases group : mess.groupName.cString mess.bufferStr with
    | none => simp [checkMessType, group] at found
    | some groupName =>
        cases type : mess.messType.cString mess.bufferStr with
        | none =>
            cases known : handle.messGroupMap.lookup groupName with
            | none =>
                simp [checkMessType, group, known] at found
                rw [← found] at agreed
                cases agreed
            | some infor => simp [checkMessType, group, type, known] at found
        | some messType =>
            have named : mess.key? = some (groupName, messType) :=
              EventMessage.key?_eq_some.mpr ⟨group, type⟩
            refine ⟨_, named, ?_⟩
            by_contra unconfigured
            rcases checkMessType_unconfigured named unconfigured with ⟨error, rejected⟩
            rw [rejected] at found
            cases found
            cases agreed
  · rintro ⟨key, named, configured⟩
    rw [verdict, checkMessType_configured named configured]
    rfl

theorem SameNames.verdict_eq (same : SameNames handle after) (mess : EventMessage) :
    after.verdict mess = handle.verdict mess := by
  have undefined : after.verdict mess = none ↔ handle.verdict mess = none := by
    rw [verdict_eq_none_iff, verdict_eq_none_iff]
    simp only [same.groups]
  have accepted : after.verdict mess = some true ↔ handle.verdict mess = some true := by
    rw [verdict_eq_true_iff, verdict_eq_true_iff]
    simp only [same.types]
  cases before : handle.verdict mess with
  | none => exact undefined.mpr before
  | some agreed =>
      cases agreed with
      | true => exact accepted.mpr before
      | false =>
          cases later : after.verdict mess with
          | none =>
              rw [undefined.mp later] at before
              cases before
          | some disagreed =>
              cases disagreed with
              | true =>
                  rw [accepted.mp later] at before
                  cases before
              | false => rfl

/-! ## The handler of frames -/

theorem handMessage_undefined (storage : Nat → EventMessage) (handed : List EventMessage)
    (undefined : handle.verdict (messageOf frame) = none) :
    handMessage storage (handle, handed) frame frame.length = none := by
  rw [verdict, Option.map_eq_none_iff] at undefined
  rw [messageOf] at undefined
  simp [handMessage, tryRunCallback, undefined]

theorem handMessage_decided (storage : Nat → EventMessage) (handed : List EventMessage)
    {accepted : Bool} (decided : handle.verdict (messageOf frame) = some accepted) :
    ∃ after, handMessage storage (handle, handed) frame frame.length =
        some ((after, handed ++ [messageOf frame]), accepted) ∧ SameNames handle after := by
  have message : messageOf frame = EventMessage.initMessagePtr { EventMessage.clear with
      bufferStr := frame
      bufferSize := UInt32.ofNat (frame.length : Int).toNat } := by
    rw [messageOf, Int.toNat_natCast]
  cases accepted with
  | false =>
      rw [verdict, Option.map_eq_some_iff] at decided
      rcases decided with ⟨checked, found, rejected⟩
      refine ⟨handle, ?_, .refl⟩
      rw [handMessage, ← message, tryRunCallback, found]
      simp [rejected]
  | true =>
      rcases verdict_eq_true_iff.mp decided with ⟨key, named, configured⟩
      rcases exists_found configured with ⟨infor, found⟩
      have ran := tryRunCallback_of_found named found (storage handed.length)
      rw [handMessage, ← message]
      cases function : infor.cbFunction with
      | some cb => exact ⟨handle, by simp [ran, function], .refl⟩
      | none =>
          have setup := (setCallbackInfor_list found
            (infor.unprocessedMessList ++ [(storage handed.length).copy (messageOf frame)])).2
          exact ⟨_, by simp [ran, function], setCallbackInfor_knowsGroup _ _,
            setup.configured⟩

/-! ## Safe frames -/

theorem messageOf_large (small : frame.length < 2 ^ 32) (large : cursorSize < frame.length) :
    messageOf frame = { EventMessage.clear with
      groupName := .buffer (cursorField frame 0)
      messType := .buffer (cursorField frame 1)
      sendHostName := .buffer (cursorField frame 2)
      reciveHostName := .buffer (cursorField frame 3)
      message := .buffer (cursorField frame 4)
      messageSize := cursorField frame 5
      bufferStr := frame
      bufferSize := UInt32.ofNat frame.length } := by
  have size : (UInt32.ofNat frame.length).toNat = frame.length :=
    EventMessage.toNat_ofNat_of_lt small
  rw [messageOf, EventMessage.initMessagePtr, if_neg (by rw [size]; omega)]

theorem inside_iff (small : frame.length < 2 ^ 32) (large : cursorSize < frame.length) :
    (messageOf frame).Inside ↔ OffsetsInside frame := by
  rw [messageOf_large small large]
  constructor
  · intro inside
    rcases inside.message with ⟨offset, same, within⟩
    cases same
    refine ⟨?_, within⟩
    intro field four
    match field, four with
    | 0, _ => exact inside.groupName
    | 1, _ => exact inside.messType
    | 2, _ => exact inside.sendHostName
    | 3, _ => exact inside.reciveHostName
  · intro offsets
    exact ⟨EventMessage.toNat_ofNat_of_lt small, Nat.le_of_lt large,
      offsets.names 0 (by omega), offsets.names 1 (by omega), offsets.names 2 (by omega),
      offsets.names 3 (by omega), ⟨_, rfl, offsets.message⟩⟩

/-- A frame no larger than a cursor leaves the pointers of its message unset. -/
theorem verdict_small (small : frame.length ≤ cursorSize) :
    handle.verdict (messageOf frame) = none := by
  have size : (UInt32.ofNat frame.length).toNat = frame.length := by
    apply EventMessage.toNat_ofNat_of_lt
    unfold cursorSize at small
    omega
  rw [verdict_eq_none_iff, messageOf, EventMessage.initMessagePtr,
    if_pos (by rw [size]; exact small)]
  exact .inl rfl

/-- The group of a frame is read, and its type if the group is known. -/
theorem verdict_large_eq_none_iff (small : frame.length < 2 ^ 32)
    (large : cursorSize < frame.length) :
    handle.verdict (messageOf frame) = none ↔ nameAt frame 0 = none ∨
      ∃ groupName, nameAt frame 0 = some groupName ∧ handle.KnowsGroup groupName ∧
        nameAt frame 1 = none := by
  rw [verdict_eq_none_iff, messageOf_large small large]
  rfl

theorem verdict_large_eq_true_iff (small : frame.length < 2 ^ 32)
    (large : cursorSize < frame.length) :
    handle.verdict (messageOf frame) = some true ↔ ∃ groupName messType,
      nameAt frame 0 = some groupName ∧ nameAt frame 1 = some messType ∧
        handle.Configured (groupName, messType) := by
  rw [messageOf_large small large]
  simp only [verdict_eq_true_iff, EventMessage.key?_eq_some, Prod.exists, and_assoc]
  rfl

/-- A frame is safe exactly if `check_mess_type` is defined on its message and accepts it
only when everything it points to lies inside. -/
theorem safeFrame_iff (small : frame.length < 2 ^ 32) : handle.SafeFrame frame ↔
    ∃ accepted, handle.verdict (messageOf frame) = some accepted ∧
      (accepted = true → (messageOf frame).Inside) := by
  by_cases large : cursorSize < frame.length
  · have undefined := @verdict_large_eq_none_iff _ _ handle frame small large
    have accepts := @verdict_large_eq_true_iff _ _ handle frame small large
    constructor
    · intro safe
      cases decided : handle.verdict (messageOf frame) with
      | none =>
          rcases undefined.mp decided with unnamed | ⟨groupName, named, known, untyped⟩
          · have present := nameAt_isSome.mpr safe.groupName
            rw [unnamed] at present
            cases present
          · have present := nameAt_isSome.mpr (safe.messType groupName named known)
            rw [untyped] at present
            cases present
      | some accepted =>
          refine ⟨accepted, rfl, ?_⟩
          rintro rfl
          rcases accepts.mp decided with ⟨groupName, messType, named, typed, configured⟩
          exact (inside_iff small large).mpr
            (safe.offsets groupName messType named typed configured)
    · rintro ⟨accepted, decided, inside⟩
      refine ⟨large, ?_, ?_, ?_⟩
      · rw [← nameAt_isSome, Option.isSome_iff_ne_none]
        intro unnamed
        rw [undefined.mpr (.inl unnamed)] at decided
        cases decided
      · intro groupName named known
        rw [← nameAt_isSome, Option.isSome_iff_ne_none]
        intro untyped
        rw [undefined.mpr (.inr ⟨groupName, named, known, untyped⟩)] at decided
        cases decided
      · intro groupName messType named typed configured
        rw [accepts.mpr ⟨groupName, messType, named, typed, configured⟩] at decided
        cases decided
        exact (inside_iff small large).mp (inside rfl)
  · rw [verdict_small (Nat.not_lt.mp large)]
    constructor
    · intro safe
      exact absurd safe.large large
    · rintro ⟨accepted, decided, _⟩
      cases decided

/-- What becomes of a frame that is not safe: the handler is undefined on it, or accepts a
message that points outside. -/
theorem handMessage_unsafe (small : frame.length < 2 ^ 32) (unsafeFrame : ¬handle.SafeFrame frame)
    (same : SameNames handle after) (storage : Nat → EventMessage)
    (handed : List EventMessage) :
    handMessage storage (after, handed) frame frame.length = none ∨
      ∃ result, handMessage storage (after, handed) frame frame.length = some result ∧
        messageOf frame ∈ result.1.2 ∧ handle.verdict (messageOf frame) = some true ∧
        ¬(messageOf frame).Inside := by
  have now := same.verdict_eq (messageOf frame)
  cases decided : handle.verdict (messageOf frame) with
  | none =>
      rw [decided] at now
      exact .inl (handMessage_undefined storage handed now)
  | some accepted =>
      rw [decided] at now
      rcases handMessage_decided storage handed now with ⟨later, handled, _⟩
      have outside : accepted = true ∧ ¬(messageOf frame).Inside := by
        by_contra inside
        apply unsafeFrame
        refine (safeFrame_iff small).mpr ⟨accepted, decided, ?_⟩
        intro agreed
        by_contra points
        exact inside ⟨agreed, points⟩
      exact .inr ⟨_, handled, by simp, by rw [outside.1], outside.2⟩

end EventMessageHandle

end MultiMaster.NetIO
