import Mathlib.Data.List.Perm.Basic
import MultiMaster.NetIO.MessageHandle

/-!
# Every received message is handled once and in order

Arrivals, registrations and reads of a handle may interleave in any order.  Each
arrival goes to the callback registered at that moment or to the end of the
unprocessed list of its group and type, and reads take entries out of that list
only.

A read copies the queued message over the caller's and only then looks up the
list to erase from, under the name just copied.  This is right because every
queued buffer names the key it is queued under.
-/

namespace MultiMaster.NetIO

open Foundation

variable {Callback Arg : Type} {key : MessKey} {mess source target : EventMessage}

/-! ## Names of messages -/

namespace EventMessage

/-- The group and type a message names, read through its pointers. -/
def key? (mess : EventMessage) : Option MessKey := do
  let groupName ← mess.groupName.cString mess.bufferStr
  let messType ← mess.messType.cString mess.bufferStr
  return (groupName, messType)

/-- The buffer of a message names the key by its cursor. -/
structure BufferNames (mess : EventMessage) (key : MessKey) : Prop where
  large : cursorSize < mess.bufferSize.toNat
  groupName : Ptr.cString mess.bufferStr (.buffer (cursorField mess.bufferStr 0)) =
    some key.1
  messType : Ptr.cString mess.bufferStr (.buffer (cursorField mess.bufferStr 1)) =
    some key.2

/-- A message decoded by `init_message_ptr` whose buffer names the key. -/
structure Decoded (mess : EventMessage) (key : MessKey) : Prop where
  named : mess.BufferNames key
  pointed : mess.initMessagePtr = mess

/-- The bytes of a message. -/
def content (mess : EventMessage) : Bytes × UInt32 :=
  (mess.bufferStr, mess.bufferSize)

theorem key?_eq_some : mess.key? = some key ↔
    mess.groupName.cString mess.bufferStr = some key.1 ∧
      mess.messType.cString mess.bufferStr = some key.2 := by
  rcases key with ⟨groupName, messType⟩
  cases first : mess.groupName.cString mess.bufferStr <;>
    cases second : mess.messType.cString mess.bufferStr <;>
    simp [key?, first, second]

@[simp] theorem content_initMessagePtr : mess.initMessagePtr.content = mess.content := by
  rw [initMessagePtr]
  split
  · rfl
  · rfl

@[simp] theorem content_copy : (target.copy source).content = source.content :=
  content_initMessagePtr

/-- Pointing into a buffer that names a key gives a message that names it. -/
theorem BufferNames.key?_initMessagePtr (named : mess.BufferNames key) :
    mess.initMessagePtr.key? = some key := by
  have large : ¬mess.bufferSize.toNat ≤ cursorSize := Nat.not_le.mpr named.large
  rw [key?_eq_some, initMessagePtr, if_neg large]
  exact ⟨named.groupName, named.messType⟩

theorem BufferNames.of_content (named : source.BufferNames key)
    (same : mess.content = source.content) : mess.BufferNames key := by
  rcases Prod.mk.inj same with ⟨sameBytes, sameSize⟩
  constructor
  · rw [sameSize]
    exact named.large
  · rw [sameBytes]
    exact named.groupName
  · rw [sameBytes]
    exact named.messType

/-- A copy of a message whose buffer names a key names it as well. -/
theorem BufferNames.key?_copy (named : source.BufferNames key) (target : EventMessage) :
    (target.copy source).key? = some key := by
  have moved : BufferNames { target with
      bufferStr := source.bufferStr
      bufferSize := source.bufferSize } key := named.of_content rfl
  exact moved.key?_initMessagePtr

theorem Decoded.key?_eq (decoded : mess.Decoded key) : mess.key? = some key := by
  rw [← decoded.pointed]
  exact decoded.named.key?_initMessagePtr

@[simp] theorem initMessagePtr_idem :
    mess.initMessagePtr.initMessagePtr = mess.initMessagePtr := by
  by_cases small : mess.bufferSize.toNat ≤ cursorSize
  · simp [initMessagePtr, small]
  · simp [initMessagePtr, small]

end EventMessage

namespace MessageFields

/-- The key that fields name. -/
def messKey (fields : MessageFields) : MessKey := (fields.groupName, fields.messType)

/-- The message object a receiver decodes from the wire format. -/
def received (fields : MessageFields) : EventMessage :=
  EventMessage.initMessagePtr { EventMessage.clear with
    bufferStr := fields.encode
    bufferSize := UInt32.ofNat fields.encodedSize }

theorem decoded_received (fields : MessageFields) (fits : fields.encodedSize < 2 ^ 32) :
    fields.received.Decoded fields.messKey := by
  have large : cursorSize < (UInt32.ofNat fields.encodedSize).toNat := by
    rw [EventMessage.toNat_ofNat_of_lt fits, encodedSize, cursorSize]
    omega
  have stores := fields.stores_encode fits EventMessage.clear
  simp only [EventMessage.initMessagePtr, Nat.not_le.mpr large, if_false] at stores
  refine ⟨EventMessage.BufferNames.of_content ⟨large, stores.groupName.cString_eq,
    stores.messType.cString_eq⟩ ?_, EventMessage.initMessagePtr_idem⟩
  exact EventMessage.content_initMessagePtr

/-- The bytes of a message with the fields. -/
def wire (fields : MessageFields) : Bytes × UInt32 :=
  (fields.encode, UInt32.ofNat fields.encodedSize)

theorem content_received (fields : MessageFields) : fields.received.content = fields.wire :=
  EventMessage.content_initMessagePtr

theorem stores_received {fields : MessageFields} (fits : fields.encodedSize < 2 ^ 32) :
    fields.received.Stores fields :=
  fields.stores_encode fits .clear

/-- A copy of the bytes of a message stores its fields. -/
theorem stores_copy {fields : MessageFields} (fits : fields.encodedSize < 2 ^ 32)
    (same : source.content = fields.wire) (target : EventMessage) :
    (target.copy source).Stores fields := by
  rcases Prod.mk.inj same with ⟨sameBytes, sameSize⟩
  rw [EventMessage.copy, sameBytes, sameSize]
  exact fields.stores_encode fits target

end MessageFields

/-! ## One operation -/

namespace EventMessageHandle

variable {handle after : EventMessageHandle Callback Arg}

theorem checkMessType_configured (named : mess.key? = some key)
    (configured : handle.Configured key) :
    handle.checkMessType mess = some (true, mess) := by
  rw [EventMessage.key?_eq_some] at named
  simp only [Configured, callbackInfor?] at configured
  cases group : handle.messGroupMap.lookup key.1 with
  | none => simp [group] at configured
  | some infor =>
      cases type : infor.messCallbackMap.lookup key.2 with
      | none => simp [group, type] at configured
      | some entry => simp [checkMessType, named, group, type]

theorem checkMessType_unconfigured (named : mess.key? = some key)
    (unconfigured : ¬handle.Configured key) :
    ∃ error, handle.checkMessType mess = some (false, { mess with errorNo := error }) := by
  rw [EventMessage.key?_eq_some] at named
  simp only [Configured, callbackInfor?] at unconfigured
  cases group : handle.messGroupMap.lookup key.1 with
  | none => exact ⟨.groupNotFound, by simp [checkMessType, named, group]⟩
  | some infor =>
      cases type : infor.messCallbackMap.lookup key.2 with
      | none => exact ⟨.messTypeNotFound, by simp [checkMessType, named, group, type]⟩
      | some entry => simp [group, type] at unconfigured

/-- All lists are as before, except that the list of `key` is `list`. -/
def ListChanged (handle after : EventMessageHandle Callback Arg) (key : MessKey)
    (list : List EventMessage) : Prop :=
  ∀ other, after.unprocessed other =
    if other = key then list else handle.unprocessed other

/-- All lists are as before. -/
def SameLists (handle after : EventMessageHandle Callback Arg) : Prop :=
  ∀ other, after.unprocessed other = handle.unprocessed other

/-- The configuration and the callbacks are as before. -/
structure SameSetup (handle after : EventMessageHandle Callback Arg) : Prop where
  configured : ∀ other, after.Configured other ↔ handle.Configured other
  callback : ∀ other, after.callback other = handle.callback other

theorem SameSetup.refl : SameSetup handle handle := ⟨fun _ => .rfl, fun _ => rfl⟩

theorem SameSetup.trans {middle : EventMessageHandle Callback Arg}
    (first : SameSetup handle middle) (second : SameSetup middle after) :
    SameSetup handle after :=
  ⟨fun other => (second.configured other).trans (first.configured other),
    fun other => (second.callback other).trans (first.callback other)⟩

/-- Replacing the list of a configured key changes nothing else. -/
theorem setCallbackInfor_list {infor : CallbackInfor Callback Arg}
    (found : handle.callbackInfor? key = some infor) (list : List EventMessage) :
    ListChanged handle
        (handle.setCallbackInfor key { infor with unprocessedMessList := list }) key list ∧
      SameSetup handle
        (handle.setCallbackInfor key { infor with unprocessedMessList := list }) := by
  have configured : handle.Configured key := by
    rw [Configured, found]
    rfl
  have entry := callbackInfor?_setCallbackInfor configured
    { infor with unprocessedMessList := list }
  refine ⟨?_, ?_, ?_⟩
  · intro other
    rw [unprocessed, entry other]
    by_cases same : other = key
    · simp [same]
    · simp only [same, if_false]
      rfl
  · intro other
    rw [Configured, entry other]
    by_cases same : other = key
    · simp [same, configured]
    · simp only [same, if_false]
      rfl
  · intro other
    rw [callback, entry other]
    by_cases same : other = key
    · subst other
      simp [callback, found]
    · simp only [same, if_false]
      rfl

/-- What an arrival does: the callback of its key is run, or a copy goes to the end
of the list of its key. -/
def ArriveEffect (handle after : EventMessageHandle Callback Arg)
    (registered : MessKey → Option (Callback × Option Arg)) (storage mess : EventMessage)
    (result : Option (OpResult Callback Arg)) : Prop :=
  ∃ key, mess.key? = some key ∧ handle.Configured key ∧
    match registered key with
    | some (cb, arg) => result = some (.handled cb arg mess) ∧ SameLists handle after
    | none => result = some .queued ∧
        ListChanged handle after key (handle.unprocessed key ++ [storage.copy mess])

/-- What a read does: the oldest accepted entry of the list the caller names moves
into the caller's message, or nothing changes. -/
def ReadEffect (handle after : EventMessageHandle Callback Arg) (mess : EventMessage)
    (accepts : EventMessage → Bool) (result : Option (OpResult Callback Arg)) : Prop :=
  (∃ key front entry back, mess.key? = some key ∧
    handle.unprocessed key = front ++ entry :: back ∧
    (∀ earlier ∈ front, accepts earlier = false) ∧ accepts entry = true ∧
    result = some (.read 1 (mess.copy entry)) ∧
    ListChanged handle after key (front ++ back)) ∨
  (∃ key left, mess.key? = some key ∧
    (∀ entry ∈ handle.unprocessed key, accepts entry = false) ∧
    result = some (.read 0 left) ∧ SameLists handle after) ∨
  (∃ left, result = some (.read (-1) left) ∧ SameLists handle after)

/-- What one operation does to the lists, given the registered callbacks. -/
def OpEffect (handle after : EventMessageHandle Callback Arg)
    (registered : MessKey → Option (Callback × Option Arg)) :
    HandleOp Callback Arg → Option (OpResult Callback Arg) → Prop
  | .arrive storage mess, result =>
      ArriveEffect handle after registered storage mess result
  | .register _ _ _ _, result =>
      (∃ ok, result = some (.registered ok)) ∧ SameLists handle after
  | .read mess, result => ReadEffect handle after mess (fun _ => true) result
  | .readFiltered mess filter, result => ReadEffect handle after mess filter result

/-- Arrivals are decoded and configured, and whoever wants to receive passes names
that can be read. -/
def Proper (handle : EventMessageHandle Callback Arg) : HandleOp Callback Arg → Prop
  | .arrive _ mess => ∃ key, mess.Decoded key ∧ handle.Configured key
  | .register _ _ _ _ => True
  | .read mess | .readFiltered mess _ => mess.willRecive = true → ∃ key, mess.key? = some key

/-- Every queued buffer names the key it is queued under. -/
def QueuesNamed (handle : EventMessageHandle Callback Arg) : Prop :=
  ∀ key, ∀ entry ∈ handle.unprocessed key, entry.BufferNames key

theorem exists_found (configured : handle.Configured key) :
    ∃ infor, handle.callbackInfor? key = some infor :=
  Option.isSome_iff_exists.mp configured

theorem tryRunCallback_of_found {infor : CallbackInfor Callback Arg}
    (named : mess.key? = some key) (found : handle.callbackInfor? key = some infor)
    (storage : EventMessage) :
    handle.tryRunCallback storage mess =
      match infor.cbFunction with
      | some cb => some (handle, some (cb, infor.cbArg), true)
      | none => some (handle.setCallbackInfor key { infor with
          unprocessedMessList := infor.unprocessedMessList ++ [storage.copy mess] },
          none, true) := by
  have configured : handle.Configured key := by
    rw [Configured, found]
    rfl
  have checked := checkMessType_configured named configured
  rw [EventMessage.key?_eq_some] at named
  rw [tryRunCallback, checked]
  simp only [Option.bind_eq_bind, Option.bind_some, if_true, named, found]
  cases infor.cbFunction <;> rfl

/-- Erasing the entry found at a position removes that entry of the list. -/
theorem eraseUnprocessed_of_split {front back : List EventMessage} {entry : EventMessage}
    (configured : handle.Configured key)
    (list : handle.unprocessed key = front ++ entry :: back) :
    ∃ after, handle.eraseUnprocessed key front.length = some after ∧
      ListChanged handle after key (front ++ back) ∧ SameSetup handle after := by
  rcases exists_found configured with ⟨infor, found⟩
  rw [unprocessed_of_found found] at list
  have inside : front.length < infor.unprocessedMessList.length := by simp [list]
  have erased : infor.unprocessedMessList.eraseIdx front.length = front ++ back := by
    simp [list, List.eraseIdx_append_of_length_le]
  refine ⟨handle.setCallbackInfor key { infor with unprocessedMessList := front ++ back },
    ?_, setCallbackInfor_list found _⟩
  rw [eraseUnprocessed, found, ← erased]
  exact if_pos inside

/-- Where the first accepted entry is found, with the entries before and after. -/
theorem findIdx?_split {list : List EventMessage} {accepts : EventMessage → Bool}
    {position : Nat} (found : list.findIdx? accepts = some position) :
    ∃ front entry back, list = front ++ entry :: back ∧ position = front.length ∧
      (∀ earlier ∈ front, accepts earlier = false) ∧ accepts entry = true := by
  rw [List.findIdx?_eq_some_iff_getElem] at found
  rcases found with ⟨inside, accepted, rejected⟩
  refine ⟨list.take position, list[position], list.drop (position + 1), ?_, ?_, ?_, accepted⟩
  · simp
  · simp [Nat.min_eq_left (Nat.le_of_lt inside)]
  · intro earlier member
    rcases List.mem_take_iff_getElem.mp member with ⟨index, bound, rfl⟩
    simpa using rejected index (by omega)

theorem readMessageFiltered_effect (named : handle.QueuesNamed)
    (readable : mess.willRecive = true → ∃ key, mess.key? = some key)
    (filter : EventMessage → Bool) :
    ∃ after returned left,
      handle.readMessageFiltered mess filter = some (after, left, returned) ∧
      ReadEffect handle after mess filter (some (.read returned left)) ∧
      SameSetup handle after := by
  by_cases receiving : mess.willRecive = true
  · rcases readable receiving with ⟨key, names⟩
    by_cases configured : handle.Configured key
    · have checked := checkMessType_configured names configured
      rcases exists_found configured with ⟨infor, found⟩
      have fields := EventMessage.key?_eq_some.mp names
      have list := unprocessed_of_found found
      rw [readMessageFiltered, if_pos receiving, checked]
      simp only [Option.bind_eq_bind, Option.bind_some, if_true, fields, found]
      cases entries : infor.unprocessedMessList with
      | nil =>
          refine ⟨handle, 0, _, rfl, .inr (.inl ⟨key, _, names, ?_, rfl, fun _ => rfl⟩), .refl⟩
          simp [list, entries]
      | cons head tail =>
          simp only
          rw [← entries]
          cases position : infor.unprocessedMessList.findIdx? filter with
          | none =>
              refine ⟨handle, 0, _, rfl, .inr (.inl ⟨key, _, names, ?_, rfl, fun _ => rfl⟩),
                .refl⟩
              rw [list]
              exact List.findIdx?_eq_none_iff.mp position
          | some iter =>
              rcases findIdx?_split position with
                ⟨front, entry, back, split, rfl, rejected, accepted⟩
              rw [split] at list
              have entryNamed := named key entry (by simp [list])
              have copied := EventMessage.key?_eq_some.mp (entryNamed.key?_copy mess)
              rcases eraseUnprocessed_of_split configured list with
                ⟨after, erased, changed, setup⟩
              refine ⟨after, 1, mess.copy entry, ?_,
                .inl ⟨key, front, entry, back, names, list, rejected, accepted, rfl, changed⟩,
                setup⟩
              simp [split, copied, erased]
    · rcases checkMessType_unconfigured names configured with ⟨error, checked⟩
      refine ⟨handle, -1, { mess with errorNo := error }, ?_,
        .inr (.inr ⟨_, rfl, fun _ => rfl⟩), .refl⟩
      rw [readMessageFiltered, if_pos receiving, checked]
      rfl
  · refine ⟨handle, -1, { mess with errorNo := .incompleteMessage }, ?_,
      .inr (.inr ⟨_, rfl, fun _ => rfl⟩), .refl⟩
    rw [readMessageFiltered, if_neg receiving]

/-- An unfiltered read takes the entry a filter accepting everything would take. -/
theorem readMessage_eq_filtered (named : handle.QueuesNamed)
    (readable : mess.willRecive = true → ∃ key, mess.key? = some key) :
    handle.readMessage mess = handle.readMessageFiltered mess fun _ => true := by
  rw [readMessage, readMessageFiltered]
  by_cases receiving : mess.willRecive = true
  · rcases readable receiving with ⟨key, names⟩
    rw [if_pos receiving, if_pos receiving]
    by_cases configured : handle.Configured key
    · rw [checkMessType_configured names configured]
      rcases exists_found configured with ⟨infor, found⟩
      have fields := EventMessage.key?_eq_some.mp names
      simp only [Option.bind_eq_bind, Option.bind_some, if_true, fields, found]
      cases entries : infor.unprocessedMessList with
      | nil => rfl
      | cons front rest =>
          have frontNamed := named key front (by simp [unprocessed_of_found found, entries])
          have copied := EventMessage.key?_eq_some.mp (frontNamed.key?_copy mess)
          simp [List.findIdx?_cons, copied]
    · rcases checkMessType_unconfigured names configured with ⟨error, checked⟩
      rw [checked]
      rfl
  · rw [if_neg receiving, if_neg receiving]

theorem tryRunCallback_effect (decoded : mess.Decoded key)
    (configured : handle.Configured key) (storage : EventMessage) :
    ∃ after result, handle.runOp (.arrive storage mess) = some (after, result) ∧
      ArriveEffect handle after handle.callback storage mess (some result) ∧
      SameSetup handle after := by
  have names := decoded.key?_eq
  rcases exists_found configured with ⟨infor, found⟩
  have ran := tryRunCallback_of_found names found storage
  have registered := callback_of_found found
  have list := unprocessed_of_found found
  rcases setCallbackInfor_list found (infor.unprocessedMessList ++ [storage.copy mess]) with
    ⟨changed, setup⟩
  cases function : infor.cbFunction with
  | some cb =>
      refine ⟨handle, .handled cb infor.cbArg mess, ?_, ⟨key, names, configured, ?_⟩, .refl⟩
      · simp [runOp, ran, function]
      · simp [registered, function, SameLists]
  | none =>
      refine ⟨_, .queued, ?_, ⟨key, names, configured, ?_⟩, setup⟩
      · simp [runOp, ran, function]
      · simpa [registered, function, list] using changed

/-- A registration replaces the callback of its key when that is configured. -/
theorem registerReciveHandler_effect (handle : EventMessageHandle Callback Arg)
    (groupName messType : CString) (cb : Option Callback) (arg : Option Arg) :
    ∃ after ok,
      handle.registerReciveHandler groupName messType cb arg = some (after, ok) ∧
      SameLists handle after ∧
      (∀ other, after.Configured other ↔ handle.Configured other) ∧
      ∀ other, handle.Configured other → after.callback other =
        if other = (groupName, messType) then cb.map fun function => (function, arg)
        else handle.callback other := by
  have names : EventMessage.key? { EventMessage.clear with
      groupName := .outside groupName
      messType := .outside messType } = some (groupName, messType) := rfl
  by_cases configured : handle.Configured (groupName, messType)
  · rcases exists_found configured with ⟨infor, found⟩
    have entry := callbackInfor?_setCallbackInfor configured
      { infor with cbFunction := cb, cbArg := arg }
    refine ⟨handle.setCallbackInfor (groupName, messType)
      { infor with cbFunction := cb, cbArg := arg }, true, ?_, ?_, ?_, ?_⟩
    · rw [registerReciveHandler, checkMessType_configured names configured]
      simp only [Option.bind_eq_bind, Option.bind_some, if_true, found]
      rfl
    · intro other
      rw [unprocessed, entry other]
      by_cases same : other = (groupName, messType)
      · subst other
        simp [unprocessed, found]
      · simp only [same, if_false]
        rfl
    · intro other
      rw [Configured, entry other]
      by_cases same : other = (groupName, messType)
      · simp [same, configured]
      · simp only [same, if_false]
        rfl
    · intro other _
      rw [callback, entry other]
      by_cases same : other = (groupName, messType)
      · simp [same]
      · simp only [same, if_false]
        rfl
  · rcases checkMessType_unconfigured names configured with ⟨error, checked⟩
    refine ⟨handle, false, ?_, fun _ => rfl, fun _ => .rfl, ?_⟩
    · rw [registerReciveHandler, checked]
      rfl
    · intro other otherConfigured
      have different : other ≠ (groupName, messType) := by
        rintro rfl
        exact configured otherConfigured
      rw [if_neg different]

/-- The callback a key has after one more operation. -/
def registeredStep (key : MessKey) (current : Option (Callback × Option Arg)) :
    HandleOp Callback Arg → Option (Callback × Option Arg)
  | .register groupName messType cb arg =>
      if key = (groupName, messType) then cb.map fun function => (function, arg) else current
  | .arrive _ _ | .read _ | .readFiltered _ _ => current

/-- Everything one proper operation does, from a handle whose queues are named. -/
theorem dispatcher_step_effect (named : handle.QueuesNamed) {op : HandleOp Callback Arg}
    (proper : handle.Proper op) :
    OpEffect handle ((dispatcher Callback Arg).step handle op).1 handle.callback op
        ((dispatcher Callback Arg).step handle op).2 ∧
      (∀ key, ((dispatcher Callback Arg).step handle op).1.Configured key ↔
        handle.Configured key) ∧
      ∀ key, handle.Configured key →
        ((dispatcher Callback Arg).step handle op).1.callback key =
          registeredStep key (handle.callback key) op := by
  cases op with
  | arrive storage mess =>
      rcases proper with ⟨key, decoded, configured⟩
      rcases tryRunCallback_effect decoded configured storage with
        ⟨after, result, ran, effect, setup⟩
      simp only [dispatcher, ran]
      exact ⟨effect, setup.configured, fun other _ => setup.callback other⟩
  | register groupName messType cb arg =>
      rcases handle.registerReciveHandler_effect groupName messType cb arg with
        ⟨after, ok, ran, lists, configured, callbacks⟩
      simp only [dispatcher, runOp, ran]
      exact ⟨⟨⟨ok, rfl⟩, lists⟩, configured, callbacks⟩
  | read mess =>
      rcases readMessageFiltered_effect named proper fun _ => true with
        ⟨after, returned, left, ran, effect, setup⟩
      rw [← readMessage_eq_filtered named proper] at ran
      simp only [dispatcher, runOp, ran]
      exact ⟨effect, setup.configured, fun other _ => setup.callback other⟩
  | readFiltered mess filter =>
      rcases readMessageFiltered_effect named proper filter with
        ⟨after, returned, left, ran, effect, setup⟩
      simp only [dispatcher, runOp, ran]
      exact ⟨effect, setup.configured, fun other _ => setup.callback other⟩

/-! ## Every run -/

/-- No callback is registered and nothing is queued, as after initialisation. -/
def Idle (handle : EventMessageHandle Callback Arg) : Prop :=
  ∀ key, handle.callback key = none ∧ handle.unprocessed key = []

/-- A handle is idle when all entries of its maps are. -/
theorem idle_of_entries
    (fresh : ∀ group ∈ handle.messGroupMap.entries,
      ∀ type ∈ group.2.messCallbackMap.entries,
        type.2.cbFunction.isNone ∧ type.2.unprocessedMessList = []) : handle.Idle := by
  intro key
  cases found : handle.callbackInfor? key with
  | none => simp [callback, unprocessed, found]
  | some infor =>
      rcases Option.bind_eq_some_iff.mp found with ⟨group, groupFound, typeFound⟩
      have entry := fresh _ (AList.mem_lookup_iff.mp groupFound)
        _ (AList.mem_lookup_iff.mp typeFound)
      rw [callback_of_found found, unprocessed_of_found found,
        Option.isNone_iff_eq_none.mp entry.1]
      exact ⟨rfl, entry.2⟩

/-- The callback that a sequence of operations leaves registered for a key. -/
def registeredAfter (key : MessKey) (ops : List (HandleOp Callback Arg)) :
    Option (Callback × Option Arg) :=
  ops.foldl (registeredStep key) none

/-- An operation with its result. -/
abbrev HandleEvent (Callback Arg : Type) :=
  HandleOp Callback Arg × Option (OpResult Callback Arg)

/-- Content of the message that an event appends to the list of a key. -/
def appendedContent? (key : MessKey) : HandleEvent Callback Arg → Option (Bytes × UInt32)
  | (.arrive _ mess, some .queued) =>
      if mess.key? = some key then some mess.content else none
  | _ => none

/-- Content of the message that an event returns from the list of a key. -/
def returnedContent? (key : MessKey) : HandleEvent Callback Arg → Option (Bytes × UInt32)
  | (.read mess, some (.read returned left))
  | (.readFiltered mess _, some (.read returned left)) =>
      if returned = 1 ∧ mess.key? = some key then some left.content else none
  | _ => none

/-- Contents of the arrivals appended to the list of a key, in arrival order. -/
def appended (key : MessKey) (history : List (HandleEvent Callback Arg)) :
    List (Bytes × UInt32) :=
  history.filterMap (appendedContent? key)

/-- Contents of the messages that reads returned from the list of a key. -/
def returned (key : MessKey) (history : List (HandleEvent Callback Arg)) :
    List (Bytes × UInt32) :=
  history.filterMap (returnedContent? key)

/-- The list of a key grows by an arrival, shrinks by a returned entry, or stays. -/
inductive ListMove (key : MessKey) (list after : List EventMessage)
    (event : HandleEvent Callback Arg) : Prop where
  | append (storage mess : EventMessage) (op : event.1 = .arrive storage mess)
      (names : mess.key? = some key) (appends : appendedContent? key event = some mess.content)
      (returns : returnedContent? key event = none)
      (changed : after = list ++ [storage.copy mess])
  | take (front : List EventMessage) (entry : EventMessage) (back : List EventMessage)
      (split : list = front ++ entry :: back) (appends : appendedContent? key event = none)
      (returns : returnedContent? key event = some entry.content)
      (changed : after = front ++ back)
  | keep (appends : appendedContent? key event = none)
      (returns : returnedContent? key event = none) (changed : after = list)

theorem readEffect_listMove {accepts : EventMessage → Bool}
    {event : HandleEvent Callback Arg}
    (effect : ReadEffect handle after mess accepts event.2)
    (appends : appendedContent? key event = none)
    (returns : ∀ returned left, event.2 = some (.read returned left) →
      returnedContent? key event =
        if returned = 1 ∧ mess.key? = some key then some left.content else none) :
    ListMove key (handle.unprocessed key) (after.unprocessed key) event := by
  rcases effect with ⟨other, front, entry, back, names, list, _, _, result, changed⟩ |
    ⟨_, left, _, _, result, same⟩ | ⟨left, result, same⟩
  · have here := changed key
    by_cases found : key = other
    · subst other
      rw [if_pos rfl] at here
      refine .take front entry back list appends ?_ here
      simp [returns _ _ result, names]
    · rw [if_neg found] at here
      refine .keep appends ?_ here
      simp [returns _ _ result, names, Ne.symm found]
  · exact .keep appends (by simp [returns _ _ result]) (same key)
  · exact .keep appends (by simp [returns _ _ result]) (same key)

/-- Each operation moves each list in one of the three ways. -/
theorem opEffect_listMove {registered : MessKey → Option (Callback × Option Arg)}
    {event : HandleEvent Callback Arg}
    (effect : OpEffect handle after registered event.1 event.2) (key : MessKey) :
    ListMove key (handle.unprocessed key) (after.unprocessed key) event := by
  rcases event with ⟨op, result⟩
  cases op with
  | arrive storage mess =>
      rcases effect with ⟨other, names, _, outcome⟩
      split at outcome
      · rcases outcome with ⟨rfl, same⟩
        exact .keep rfl rfl (same key)
      · rcases outcome with ⟨rfl, changed⟩
        have here := changed key
        by_cases found : key = other
        · subst other
          rw [if_pos rfl] at here
          exact .append storage mess rfl names (by simp [appendedContent?, names]) rfl here
        · rw [if_neg found] at here
          exact .keep (by simp [appendedContent?, names, Ne.symm found]) rfl here
  | register groupName messType cb arg =>
      rcases effect with ⟨⟨ok, rfl⟩, same⟩
      exact .keep rfl rfl (same key)
  | read mess =>
      apply readEffect_listMove effect
      · cases result <;> rfl
      · rintro returned left rfl
        rfl
  | readFiltered mess filter =>
      apply readEffect_listMove effect
      · cases result <;> rfl
      · rintro returned left rfl
        rfl

/-- What the handle reached by a history owes to that history. -/
structure Accounts (start : EventMessageHandle Callback Arg)
    (history : List (HandleEvent Callback Arg))
    (handle : EventMessageHandle Callback Arg) : Prop where
  configured : ∀ key, handle.Configured key ↔ start.Configured key
  callback : ∀ key, start.Configured key →
    handle.callback key = registeredAfter key (history.map Prod.fst)
  named : handle.QueuesNamed
  balance : ∀ key, (appended key history).Perm
    (returned key history ++ (handle.unprocessed key).map EventMessage.content)
  ordered : ∀ key,
    ((handle.unprocessed key).map EventMessage.content).Sublist (appended key history)

theorem accounts_idle {start : EventMessageHandle Callback Arg} (idle : start.Idle) :
    Accounts start [] start := by
  constructor
  · exact fun _ => .rfl
  · exact fun key _ => (idle key).1
  · intro key entry member
    simp [(idle key).2] at member
  · intro key
    simp [(idle key).2, appended, returned]
  · intro key
    simp [(idle key).2]

theorem proper_congr {other : EventMessageHandle Callback Arg}
    (configured : ∀ key, handle.Configured key ↔ other.Configured key)
    (op : HandleOp Callback Arg) : handle.Proper op ↔ other.Proper op := by
  cases op with
  | arrive storage mess => simp only [Proper, configured]
  | register groupName messType cb arg => rfl
  | read mess => rfl
  | readFiltered mess filter => rfl

/-- A proper arrival's buffer names the key that its pointers name. -/
theorem bufferNames_of_proper {storage : EventMessage}
    (proper : handle.Proper (.arrive storage mess)) (names : mess.key? = some key) :
    mess.BufferNames key := by
  rcases proper with ⟨other, decoded, _⟩
  have same : other = key := Option.some.inj (decoded.key?_eq.symm.trans names)
  exact same ▸ decoded.named

theorem queuesNamed_step {event : HandleEvent Callback Arg} (named : handle.QueuesNamed)
    (proper : handle.Proper event.1)
    (moves : ∀ key, ListMove key (handle.unprocessed key) (after.unprocessed key) event) :
    after.QueuesNamed := by
  intro key entry member
  cases moves key with
  | append storage mess op names _ _ changed =>
      rw [changed, List.mem_append, List.mem_singleton] at member
      rcases member with old | new
      · exact named key entry old
      · subst new
        rw [op] at proper
        exact (bufferNames_of_proper proper names).of_content EventMessage.content_copy
  | take front taken back split _ _ changed =>
      apply named key entry
      rw [changed, List.mem_append] at member
      rw [split, List.mem_append, List.mem_cons]
      rcases member with before | behind
      · exact .inl before
      · exact .inr (.inr behind)
  | keep _ _ changed =>
      rw [changed] at member
      exact named key entry member

theorem accounts_step {start handle : EventMessageHandle Callback Arg}
    {history : List (HandleEvent Callback Arg)} {op : HandleOp Callback Arg}
    (accounts : Accounts start history handle) (proper : start.Proper op) :
    Accounts start (history ++ [(op, ((dispatcher Callback Arg).step handle op).2)])
      ((dispatcher Callback Arg).step handle op).1 := by
  have properHere := (proper_congr accounts.configured op).mpr proper
  rcases dispatcher_step_effect accounts.named properHere with
    ⟨effect, configured, callbacks⟩
  generalize (dispatcher Callback Arg).step handle op = stepped at *
  rcases stepped with ⟨after, result⟩
  have moves : ∀ key, ListMove key (handle.unprocessed key) (after.unprocessed key)
      (op, result) := fun key => opEffect_listMove effect key
  constructor
  · exact fun key => (configured key).trans (accounts.configured key)
  · intro key present
    rw [callbacks key ((accounts.configured key).mpr present), accounts.callback key present]
    simp [registeredAfter]
  · exact queuesNamed_step accounts.named properHere moves
  · intro key
    have before := accounts.balance key
    simp only [appended, returned, List.filterMap_append] at before ⊢
    cases moves key with
    | append storage mess _ _ appends returns changed =>
        simp only [List.filterMap_cons, List.filterMap_nil, appends, returns, changed,
          List.map_append, List.map_cons, List.map_nil, EventMessage.content_copy,
          List.append_nil, ← List.append_assoc]
        exact before.append_right _
    | take front entry back split appends returns changed =>
        simp only [split, List.map_append, List.map_cons] at before
        simp only [List.filterMap_cons, List.filterMap_nil, appends, returns, changed,
          List.map_append, List.append_nil, List.append_assoc, List.singleton_append]
        refine before.trans (List.Perm.append_left _ ?_)
        exact List.perm_middle
    | keep appends returns changed =>
        simpa [appends, returns, changed] using before
  · intro key
    have before := accounts.ordered key
    simp only [appended, List.filterMap_append] at before ⊢
    cases moves key with
    | append storage mess _ _ appends _ changed =>
        simp only [List.filterMap_cons, List.filterMap_nil, appends, changed,
          List.map_append, List.map_cons, List.map_nil, EventMessage.content_copy]
        exact before.append_right _
    | take front entry back split appends _ changed =>
        simp only [split, List.map_append, List.map_cons] at before
        simp only [List.filterMap_cons, List.filterMap_nil, appends, changed,
          List.map_append, List.append_nil]
        refine List.Sublist.trans (List.Sublist.append_left ?_ _) before
        exact List.sublist_cons_self _ _
    | keep appends _ changed =>
        simpa [appends, changed] using before

theorem accounts_run {start : EventMessageHandle Callback Arg} (idle : start.Idle)
    {ops : List (HandleOp Callback Arg)} (proper : ∀ op ∈ ops, start.Proper op) :
    Accounts start ((dispatcher Callback Arg).trace start ops)
      ((dispatcher Callback Arg).exec start ops) := by
  have respects : (dispatcher Callback Arg).Respects start
      (fun _ _ op => start.Proper op) ops := by
    intro before op rest split
    exact proper op (by simp [split])
  exact Machine.guarded_invariant (accounts_idle idle)
    (fun _ _ _ accounts properOp => accounts_step accounts properOp) respects

theorem getUnprocessedMessageCount_eq (configured : handle.Configured key) :
    handle.getUnprocessedMessageCount key.1 key.2 =
      some (UInt32.ofNat (handle.unprocessed key).length) := by
  have names : EventMessage.key? { EventMessage.clear with
      groupName := .outside key.1
      messType := .outside key.2 } = some key := rfl
  rcases exists_found configured with ⟨infor, found⟩
  rw [getUnprocessedMessageCount, checkMessType_configured names configured,
    unprocessed_of_found found]
  simp [found]

/-- In every run from an idle handle, each list is what was appended to it less what
reads returned, in arrival order; the count is its length modulo `2 ^ 32`; and the
next operation, whatever it is, has exactly its intended effect. -/
theorem received_once_in_order {start : EventMessageHandle Callback Arg}
    (idle : start.Idle) {ops : List (HandleOp Callback Arg)}
    (proper : ∀ op ∈ ops, start.Proper op) :
    let history := (dispatcher Callback Arg).trace start ops
    let handle := (dispatcher Callback Arg).exec start ops
    (∀ key, (appended key history).Perm
        (returned key history ++ (handle.unprocessed key).map EventMessage.content) ∧
      ((handle.unprocessed key).map EventMessage.content).Sublist (appended key history)) ∧
    (∀ key, start.Configured key → ∃ count,
      handle.getUnprocessedMessageCount key.1 key.2 = some count ∧
        count.toNat = (handle.unprocessed key).length % 2 ^ 32) ∧
    ∀ op, start.Proper op →
      OpEffect handle ((dispatcher Callback Arg).step handle op).1
        (fun key => registeredAfter key ops) op
        ((dispatcher Callback Arg).step handle op).2 := by
  intro history handle
  have accounts : Accounts start history handle := accounts_run idle proper
  refine ⟨fun key => ⟨accounts.balance key, accounts.ordered key⟩, ?_, ?_⟩
  · intro key configured
    have present := (accounts.configured key).mpr configured
    exact ⟨_, getUnprocessedMessageCount_eq present, UInt32.toNat_ofNat⟩
  · intro op properOp
    have properHere := (proper_congr accounts.configured op).mpr properOp
    have effect := (dispatcher_step_effect accounts.named properHere).1
    cases op with
    | arrive storage mess =>
        rcases effect with ⟨key, names, configured, outcome⟩
        refine ⟨key, names, configured, ?_⟩
        have registered := accounts.callback key ((accounts.configured key).mp configured)
        rw [Machine.map_fst_trace] at registered
        rw [registered] at outcome
        exact outcome
    | register groupName messType cb arg => exact effect
    | read mess => exact effect
    | readFiltered mess filter => exact effect

/-- A handle with one group and its two message types. -/
def lockGroupHandle : EventMessageHandle Unit Unit where
  localHostName := .ofString "host1"
  hostConfigMap := ∅
  messGroupMap := (∅ : AList _).insert (.ofString "centralized_lock")
    { hostPortMap := ∅
      messCallbackMap := ((∅ : AList _).insert (.ofString "PageLockRequest")
        ⟨none, none, []⟩).insert (.ofString "PageLockReply") ⟨none, none, []⟩ }

/-- The key of lock replies. -/
def replyKey : MessKey := (.ofString "centralized_lock", .ofString "PageLockReply")

/-- A reply as it arrives. -/
def sampleReply : EventMessage :=
  MessageFields.received ⟨replyKey.1, replyKey.2, .ofString "server", .ofString "host1", [7]⟩

theorem lockGroupHandle_idle : lockGroupHandle.Idle := idle_of_entries (by decide)

theorem lockGroupHandle_configured : lockGroupHandle.Configured replyKey := by
  rw [Configured]
  decide

theorem sampleReply_proper :
    lockGroupHandle.Proper (.arrive .clear sampleReply) :=
  ⟨replyKey, MessageFields.decoded_received _ (by decide), lockGroupHandle_configured⟩

/-- An arrival, a registration, a second arrival and a read. -/
theorem received_once_in_order_handover :
    let ops := [.arrive .clear sampleReply, .register replyKey.1 replyKey.2 (some ()) none,
      .arrive .clear sampleReply,
      .read (EventMessage.clear.prepareRecive (.outside replyKey.1) (.outside replyKey.2))]
    let history := (dispatcher Unit Unit).trace lockGroupHandle ops
    (∀ op ∈ ops, lockGroupHandle.Proper op) ∧
      (appended replyKey history).Perm (returned replyKey history ++
        (((dispatcher Unit Unit).exec lockGroupHandle ops).unprocessed replyKey).map
          EventMessage.content) := by
  intro ops history
  have proper : ∀ op ∈ ops, lockGroupHandle.Proper op := by
    simp only [ops, List.forall_mem_cons]
    exact ⟨sampleReply_proper, trivial, sampleReply_proper, fun _ => ⟨replyKey, rfl⟩,
      by simp⟩
  exact ⟨proper, ((received_once_in_order lockGroupHandle_idle proper).1 replyKey).1⟩

theorem arrivals_proper (count : Nat) :
    ∀ op ∈ List.replicate count (.arrive .clear sampleReply),
      lockGroupHandle.Proper op := by
  intro op member
  rw [List.eq_of_mem_replicate member]
  exact sampleReply_proper

theorem registeredAfter_arrivals (count : Nat) :
    registeredAfter replyKey
      (List.replicate count (.arrive .clear sampleReply) : List (HandleOp Unit Unit)) =
        none := by
  rw [registeredAfter]
  induction count with
  | zero => rfl
  | succ count ih =>
      rw [List.replicate_succ, List.foldl_cons]
      exact ih

theorem length_unprocessed_arrivals (count : Nat) :
    (((dispatcher Unit Unit).exec lockGroupHandle
      (List.replicate count (.arrive .clear sampleReply))).unprocessed replyKey).length =
        count := by
  induction count with
  | zero => rfl
  | succ count ih =>
      have accounts := accounts_run lockGroupHandle_idle (arrivals_proper count)
      have properHere := (proper_congr accounts.configured _).mpr sampleReply_proper
      rcases (dispatcher_step_effect accounts.named properHere).1 with
        ⟨key, names, _, outcome⟩
      have same : key = replyKey := by
        rw [sampleReply, (MessageFields.decoded_received _ (by decide)).key?_eq] at names
        exact (Option.some.inj names).symm
      subst key
      have unregistered := accounts.callback replyKey lockGroupHandle_configured
      rw [Machine.map_fst_trace, registeredAfter_arrivals] at unregistered
      rw [unregistered] at outcome
      rw [List.replicate_succ', Machine.exec_concat, outcome.2 replyKey, if_pos rfl,
        List.length_append, ih]
      rfl

/-- With `2 ^ 32` queued replies the count is zero. -/
theorem unprocessedCount_not_length :
    let ops : List (HandleOp Unit Unit) :=
      List.replicate (2 ^ 32) (.arrive .clear sampleReply)
    let handle := (dispatcher Unit Unit).exec lockGroupHandle ops
    lockGroupHandle.Idle ∧ (∀ op ∈ ops, lockGroupHandle.Proper op) ∧
      (handle.unprocessed replyKey).length = 2 ^ 32 ∧
      handle.getUnprocessedMessageCount replyKey.1 replyKey.2 = some 0 := by
  intro ops handle
  have accounts := accounts_run lockGroupHandle_idle (arrivals_proper (2 ^ 32))
  have length : (handle.unprocessed replyKey).length = 2 ^ 32 :=
    length_unprocessed_arrivals (2 ^ 32)
  refine ⟨lockGroupHandle_idle, arrivals_proper (2 ^ 32), length, ?_⟩
  rw [getUnprocessedMessageCount_eq
    ((accounts.configured replyKey).mpr lockGroupHandle_configured), length]
  rfl

end EventMessageHandle

end MultiMaster.NetIO
