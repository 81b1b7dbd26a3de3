import MultiMaster.NetIO.SendReport

/-!
# Copies of messages

The fields of a message are pointers, and a copy takes over the buffer alone and points into
it.  The buffer is written when a message is sent, read or copied; until then, and after
`prepare_send`, `prepare_recive` and `clear`, the fields say something else.

A message is followed through any calls together with what it said when its buffer was last
written.
-/

namespace MultiMaster.NetIO

open Foundation

/-! ## What a message says -/

/-- What a name pointer says: that it is unset, or a string.  Other pointers cannot be
read. -/
def Ptr.reading (bufferStr : Bytes) : Ptr CString → Option (Option CString)
  | .null => some none
  | .uninit => none
  | .outside string => some (some string)
  | .buffer offset => (Ptr.cString bufferStr (.buffer offset)).map some

/-- The names, the size and the bytes of a message, as far as they can be read. -/
structure MessageView where
  groupName : Option (Option CString)
  messType : Option (Option CString)
  sendHostName : Option (Option CString)
  reciveHostName : Option (Option CString)
  messageSize : UInt32
  message : Option Bytes
  deriving DecidableEq

def EventMessage.view (mess : EventMessage) : MessageView where
  groupName := mess.groupName.reading mess.bufferStr
  messType := mess.messType.reading mess.bufferStr
  sendHostName := mess.sendHostName.reading mess.bufferStr
  reciveHostName := mess.reciveHostName.reading mess.bufferStr
  messageSize := mess.messageSize
  message := mess.message.data mess.bufferStr mess.messageSize.toNat

def MessageFields.view (fields : MessageFields) : MessageView where
  groupName := some (some fields.groupName)
  messType := some (some fields.messType)
  sendHostName := some (some fields.sendHostName)
  reciveHostName := some (some fields.reciveHostName)
  messageSize := UInt32.ofNat fields.message.length
  message := some fields.message

/-- A copy says what the message says, whatever memory it is made in. -/
def EventMessage.CopiesAgree (mess : EventMessage) : Prop :=
  ∀ target : EventMessage, (target.copy mess).view = mess.view

/-! ## Messages after any calls -/

/-- What the buffer of a message was last written with. -/
inductive Written where
  /-- Nothing that is longer than a cursor. -/
  | never
  /-- A message whose names do not fit the cursor. -/
  | wrapped
  /-- A message that said this. -/
  | said (view : MessageView)
  deriving DecidableEq

namespace Written

/-- After a message was read. -/
def byRead (mess : EventMessage) : Written :=
  if cursorSize < mess.bufferSize.toNat then said mess.view else never

/-- After a message was sent.  Its names end where its payload begins. -/
def bySend (mess : EventMessage) : Written :=
  if mess.bufferStr.length < 2 ^ 32 + mess.messageSize.toNat then byRead mess else wrapped

/-- After a message was copied; the buffer is that of the source. -/
def byCopy (copy : EventMessage) : Written → Written
  | .said _ => .said copy.view
  | .never => .never
  | .wrapped => .wrapped

end Written

/-- Messages that come from any calls, and what their buffers were last written with. -/
inductive Reached (Callback Arg : Type) : EventMessage → Written → Prop where
  /-- The constructor and `clear` leave the same state. -/
  | clear : Reached Callback Arg .clear .never
  | prepareSend {mess : EventMessage} {written : Written} (gName mType rHost : Ptr CString)
      (message : Ptr Bytes) (messSize : UInt32) (reached : Reached Callback Arg mess written) :
      Reached Callback Arg (mess.prepareSend gName mType rHost message messSize) written
  | prepareRecive {mess : EventMessage} {written : Written} (gName msgType : Ptr CString)
      (reached : Reached Callback Arg mess written) :
      Reached Callback Arg (mess.prepareRecive gName msgType) written
  | sendMessage {mess after : EventMessage} {written : Written}
      {handle handleAfter : EventMessageHandle Callback Arg}
      {eventHandle eventAfter : LibeventHandle} {outcome : NetOutcome} {returned : Int}
      (reached : Reached Callback Arg mess written)
      (sent : handle.sendMessage eventHandle mess outcome =
        some (handleAfter, eventAfter, after, returned)) :
      Reached Callback Arg after (if returned = 1 then .bySend after else written)
  | readMessage {mess after : EventMessage} {written : Written}
      {handle handleAfter : EventMessageHandle Callback Arg} {returned : Int}
      (reached : Reached Callback Arg mess written)
      (read : handle.readMessage mess = some (handleAfter, after, returned)) :
      Reached Callback Arg after (if returned = 1 then .byRead after else written)
  | readMessageFiltered {mess after : EventMessage} {written : Written}
      {handle handleAfter : EventMessageHandle Callback Arg} {returned : Int}
      (filter : EventMessage → Bool) (reached : Reached Callback Arg mess written)
      (read : handle.readMessageFiltered mess filter = some (handleAfter, after, returned)) :
      Reached Callback Arg after (if returned = 1 then .byRead after else written)
  | copy {target source : EventMessage} {before written : Written}
      (reached : Reached Callback Arg target before)
      (other : Reached Callback Arg source written) :
      Reached Callback Arg (target.copy source) (.byCopy (target.copy source) written)
  | copyConstruct {source : EventMessage} {written : Written} (storage : EventMessage)
      (other : Reached Callback Arg source written) :
      Reached Callback Arg (storage.copy source) (.byCopy (storage.copy source) written)

/-! ## Copies and buffers -/

variable {mess after source target : EventMessage} {fields : MessageFields}

theorem reading_of_cString {bufferStr : Bytes} {pointer : Ptr CString} {name : CString}
    (found : pointer.cString bufferStr = some name) :
    pointer.reading bufferStr = some (some name) := by
  cases pointer with
  | uninit => cases found
  | null => cases found
  | outside string => exact congrArg some found
  | buffer offset => rw [Ptr.reading, found, Option.map_some]

theorem view_of_stores (stores : mess.Stores fields) : mess.view = fields.view := by
  have size : mess.messageSize = UInt32.ofNat fields.message.length := by
    rw [← stores.messageSize, UInt32.ofNat_toNat]
  rw [EventMessage.view, reading_of_cString stores.groupName.cString_eq,
    reading_of_cString stores.messType.cString_eq,
    reading_of_cString stores.sendHostName.cString_eq,
    reading_of_cString stores.reciveHostName.cString_eq, stores.messageSize,
    stores.message.data_eq, size]
  rfl

namespace EventMessage

/-- A copy depends on the buffer of the source alone. -/
theorem copy_congr (same : after.content = mess.content) (target : EventMessage) :
    target.copy after = target.copy mess := by
  rcases Prod.mk.inj same with ⟨bytes, size⟩
  rw [copy, copy, bytes, size]

/-- Copies of a buffer that is longer than a cursor say the same, wherever they are. -/
theorem view_copy_eq (large : cursorSize < source.bufferSize.toNat) (first second : EventMessage) :
    (first.copy source).view = (second.copy source).view := by
  have room : ¬source.bufferSize.toNat ≤ cursorSize := Nat.not_le.mpr large
  rw [copy, copy, initMessagePtr, if_neg room, initMessagePtr, if_neg room]
  rfl

/-- A buffer that is not longer than a cursor leaves the size of the target as it was. -/
theorem not_copiesAgree_of_small (small : mess.bufferSize.toNat ≤ cursorSize) :
    ¬mess.CopiesAgree := by
  intro agree
  have sizes : ∀ target : EventMessage, target.messageSize = mess.messageSize := by
    intro target
    have same := congrArg MessageView.messageSize (agree target)
    rw [copy, initMessagePtr, if_pos small] at same
    exact same
  have zero := sizes { clear with messageSize := 0 }
  have one := sizes { clear with messageSize := 1 }
  exact absurd (zero.trans one.symm) (by decide)

/-! ## What the calls do -/

/-- Bytes that are read without a buffer are read with any buffer. -/
theorem data_of_nil {pointer : Ptr Bytes} {size : Nat} {bytes : Bytes}
    (found : pointer.data [] size = some bytes) :
    bytes.length = size ∧ ∀ bufferStr, pointer.data bufferStr size = some bytes := by
  cases pointer with
  | uninit => cases found
  | null =>
      refine ⟨?_, fun _ => found⟩
      rw [Ptr.data] at found
      split at found
      · rename_i empty
        cases found
        exact empty.symm
      · cases found
  | outside object =>
      refine ⟨?_, fun _ => found⟩
      rw [Ptr.data] at found
      split at found
      · cases found
        rw [List.length_take]
        omega
      · cases found
  | buffer offset =>
      rw [Ptr.data, List.length_nil] at found
      split at found
      · rename_i nothing
        have empty : size = 0 := by omega
        have start : offset.toNat = 0 := by omega
        subst empty
        cases found
        refine ⟨by simp [slice], fun bufferStr => ?_⟩
        rw [Ptr.data, start, if_pos (Nat.zero_le _)]
        simp [slice]
      · cases found

theorem outside?_eq_some {Object : Type} {pointer : Ptr Object} {object : Object}
    (found : pointer.outside? = some object) : pointer = .outside object := by
  cases pointer with
  | outside other => exact congrArg Ptr.outside (Option.some.inj found)
  | uninit => cases found
  | null => cases found
  | buffer offset => cases found

/-- Encoding keeps what the message says, and with names that fit the cursor the buffer is
the wire format of it. -/
theorem initBufferStr_view (built : mess.initBufferStr = some after) :
    ∃ fields : MessageFields, after.view = fields.view ∧
      after.messageSize.toNat = fields.message.length ∧
      after.bufferStr.length = fields.encodedSize ∧
      (fields.CursorFits → after.content = fields.wire) := by
  rw [initBufferStr] at built
  rcases Option.bind_eq_some_iff.mp built with ⟨groupName, groupFound, rest⟩
  rcases Option.bind_eq_some_iff.mp rest with ⟨messType, typeFound, rest⟩
  rcases Option.bind_eq_some_iff.mp rest with ⟨sendHostName, sendFound, rest⟩
  rcases Option.bind_eq_some_iff.mp rest with ⟨reciveHostName, reciveFound, rest⟩
  rcases Option.bind_eq_some_iff.mp rest with ⟨message, messageFound, same⟩
  cases same
  rcases data_of_nil messageFound with ⟨length, read⟩
  have size : mess.messageSize = UInt32.ofNat message.length := by
    rw [length, UInt32.ofNat_toNat]
  have sized : message.length < 2 ^ 32 := by
    rw [length]
    exact mess.messageSize.toNat_lt
  let fields : MessageFields := ⟨groupName, messType, sendHostName, reciveHostName, message⟩
  refine ⟨fields, ?_, length.symm, ?_, ?_⟩
  · simp only [view, outside?_eq_some groupFound, outside?_eq_some typeFound,
      outside?_eq_some sendFound, outside?_eq_some reciveFound, Ptr.reading, read]
    rw [size]
    rfl
  · rw [size]
    exact (bufferOf_counted fields sized).2
  · intro fits
    have wire := bufferOf_eq fields fits
    rw [content, size, wire]
    rfl

end EventMessage

namespace EventMessageHandle

variable {Callback Arg : Type} {handle handleAfter : EventMessageHandle Callback Arg}

/-- The check of a message leaves at most an error number. -/
theorem checkMessType_error_only {checked : Bool × EventMessage}
    (done : handle.checkMessType mess = some checked) :
    ∃ error, checked.2 = { mess with errorNo := error } := by
  rcases Option.bind_eq_some_iff.mp done with ⟨groupName, _, looked⟩
  split at looked
  · cases looked
    exact ⟨_, rfl⟩
  · rcases Option.bind_eq_some_iff.mp looked with ⟨messType, _, typed⟩
    split at typed
    · cases typed
      exact ⟨_, rfl⟩
    · cases typed
      exact ⟨_, rfl⟩

/-- Staging fails and leaves at most an error number, or it encodes the message. -/
theorem stageMessage_cases {address : Option Address}
    (staged : handle.stageMessage mess = some (handleAfter, after, address)) :
    (address = none ∧ ∃ error, after = { mess with errorNo := error }) ∨
      (address.isSome ∧ ∃ sender, { mess with sendHostName := .outside sender }.initBufferStr =
        some after) := by
  rw [stageMessage] at staged
  split at staged
  · rcases Option.bind_eq_some_iff.mp staged with ⟨checked, checking, rest⟩
    split at rest
    · rcases Option.bind_eq_some_iff.mp rest with ⟨reciveHostName, _, rest⟩
      rcases Option.bind_eq_some_iff.mp rest with ⟨groupName, _, rest⟩
      dsimp only at rest
      split at rest
      · cases rest
        exact .inl ⟨rfl, _, rfl⟩
      · split at rest
        · cases rest
          exact .inl ⟨rfl, _, rfl⟩
        · rcases Option.bind_eq_some_iff.mp rest with ⟨encoded, built, same⟩
          cases same
          exact .inr ⟨rfl, _, built⟩
    · cases rest
      rcases checkMessType_error_only checking with ⟨error, same⟩
      exact .inl ⟨rfl, error, same⟩
  · cases staged
    exact .inl ⟨rfl, _, rfl⟩

/-- A call of `sendMessage` fails and leaves at most an error number, or it encodes the
message. -/
theorem sendMessage_cases {eventHandle eventAfter : LibeventHandle} {outcome : NetOutcome}
    {returned : Int} (sent : handle.sendMessage eventHandle mess outcome =
      some (handleAfter, eventAfter, after, returned)) :
    (returned ≠ 1 ∧ ∃ error, after = { mess with errorNo := error }) ∨
      (returned = 1 ∧ ∃ sender, { mess with sendHostName := .outside sender }.initBufferStr =
        some after) := by
  cases staged : handle.stageMessage mess with
  | none =>
      rw [sendMessage, staged] at sent
      cases sent
  | some result =>
      rcases result with ⟨handleStaged, encoded, address⟩
      cases address with
      | none =>
          rw [sendMessage, staged] at sent
          cases sent
          rcases stageMessage_cases staged with ⟨_, failed⟩ | ⟨addressed, _⟩
          · exact .inl ⟨by decide, failed⟩
          · cases addressed
      | some address =>
          rw [sendMessage_of_staged staged] at sent
          rcases Option.map_eq_some_iff.mp sent with ⟨_, _, same⟩
          cases same
          rcases stageMessage_cases staged with ⟨unaddressed, _⟩ | ⟨_, built⟩
          · cases unaddressed
          · exact .inr ⟨rfl, built⟩

/-- A read fails and leaves at most an error number, or it copies a message. -/
theorem readMessageFiltered_cases {filter : EventMessage → Bool} {returned : Int}
    (read : handle.readMessageFiltered mess filter = some (handleAfter, after, returned)) :
    (returned ≠ 1 ∧ ∃ error, after = { mess with errorNo := error }) ∨
      (returned = 1 ∧ ∃ source, after = mess.copy source) := by
  rw [readMessageFiltered] at read
  split at read
  · rcases Option.bind_eq_some_iff.mp read with ⟨checked, checking, rest⟩
    split at rest
    · rcases Option.bind_eq_some_iff.mp rest with ⟨groupName, _, rest⟩
      rcases Option.bind_eq_some_iff.mp rest with ⟨messType, _, rest⟩
      rcases Option.bind_eq_some_iff.mp rest with ⟨infor, _, rest⟩
      split at rest
      · cases rest
        exact .inl ⟨by decide, _, rfl⟩
      · split at rest
        · cases rest
          exact .inl ⟨by decide, _, rfl⟩
        · rcases Option.bind_eq_some_iff.mp rest with ⟨source, _, rest⟩
          rcases Option.bind_eq_some_iff.mp rest with ⟨copiedType, _, rest⟩
          split at rest
          · rcases Option.bind_eq_some_iff.mp rest with ⟨erased, _, same⟩
            cases same
            exact .inr ⟨rfl, source, rfl⟩
          · cases rest
    · cases rest
      rcases checkMessType_error_only checking with ⟨error, same⟩
      exact .inl ⟨by decide, error, same⟩
  · cases read
    exact .inl ⟨by decide, _, rfl⟩

theorem readMessage_cases {returned : Int}
    (read : handle.readMessage mess = some (handleAfter, after, returned)) :
    (returned ≠ 1 ∧ ∃ error, after = { mess with errorNo := error }) ∨
      (returned = 1 ∧ ∃ source, after = mess.copy source) := by
  rw [readMessage] at read
  split at read
  · rcases Option.bind_eq_some_iff.mp read with ⟨checked, checking, rest⟩
    split at rest
    · rcases Option.bind_eq_some_iff.mp rest with ⟨groupName, _, rest⟩
      rcases Option.bind_eq_some_iff.mp rest with ⟨messType, _, rest⟩
      rcases Option.bind_eq_some_iff.mp rest with ⟨infor, _, rest⟩
      split at rest
      · cases rest
        exact .inl ⟨by decide, _, rfl⟩
      · rename_i source _ _
        rcases Option.bind_eq_some_iff.mp rest with ⟨copiedType, _, rest⟩
        rcases Option.bind_eq_some_iff.mp rest with ⟨erased, _, same⟩
        cases same
        exact .inr ⟨rfl, source, rfl⟩
    · cases rest
      rcases checkMessType_error_only checking with ⟨error, same⟩
      exact .inl ⟨by decide, error, same⟩
  · cases read
    exact .inl ⟨by decide, _, rfl⟩

end EventMessageHandle

/-! ## Reached messages -/

/-- What the calls keep: copies say what the buffer was last written with. -/
def Written.Holds (mess : EventMessage) : Written → Prop
  | .never => mess.bufferSize.toNat ≤ cursorSize
  | .wrapped => True
  | .said view =>
      cursorSize < mess.bufferSize.toNat ∧ ∀ target : EventMessage, (target.copy mess).view = view

theorem Written.Holds.congr {written : Written} (holds : written.Holds mess)
    (same : after.content = mess.content) : written.Holds after := by
  have size : after.bufferSize = mess.bufferSize := congrArg Prod.snd same
  cases written with
  | never =>
      rw [Written.Holds, size]
      exact holds
  | wrapped => trivial
  | said view =>
      refine ⟨size ▸ holds.1, fun target => ?_⟩
      rw [EventMessage.copy_congr same]
      exact holds.2 target

/-- A buffer was written with what copies of a message say. -/
theorem Written.holds_byRead (agree : cursorSize < mess.bufferSize.toNat → mess.CopiesAgree) :
    (Written.byRead mess).Holds mess := by
  rw [Written.byRead]
  split
  · rename_i large
    exact ⟨large, agree large⟩
  · rename_i small
    exact Nat.not_lt.mp small

/-- Copies of a copy say what the copy says. -/
theorem copiesAgree_copy (target source : EventMessage)
    (large : cursorSize < (target.copy source).bufferSize.toNat) :
    (target.copy source).CopiesAgree := by
  have same : (target.copy source).content = source.content := EventMessage.content_copy
  have size : (target.copy source).bufferSize = source.bufferSize := congrArg Prod.snd same
  rw [size] at large
  intro other
  rw [EventMessage.copy_congr same]
  exact EventMessage.view_copy_eq large other target

theorem Written.Holds.byCopy {written : Written} (holds : written.Holds source)
    (target : EventMessage) :
    (Written.byCopy (target.copy source) written).Holds (target.copy source) := by
  have same : (target.copy source).content = source.content := EventMessage.content_copy
  cases written with
  | never => exact holds.congr same
  | wrapped => trivial
  | said view =>
      have seen : (target.copy source).view = view := holds.2 target
      rw [Written.byCopy, seen]
      exact holds.congr same

/-- Copies of an encoded message say what it says. -/
theorem Written.holds_bySend (built : mess.initBufferStr = some after) :
    (Written.bySend after).Holds after := by
  rcases EventMessage.initBufferStr_view built with ⟨fields, seen, size, length, encoded⟩
  rw [Written.bySend]
  split
  · rename_i fits
    rw [length, size] at fits
    have short : fields.message.length < 2 ^ 32 := by
      rw [← size]
      exact after.messageSize.toNat_lt
    rcases Prod.mk.inj (encoded ⟨fits, short⟩) with ⟨sameBytes, sameSize⟩
    apply Written.holds_byRead
    intro large target
    rw [sameSize] at large
    rw [seen, EventMessage.copy, sameBytes, sameSize]
    exact view_of_stores (fields.stores_encode_of_large ⟨fits, short⟩ large target)
  · trivial

theorem Reached.holds {Callback Arg : Type} {written : Written}
    (reached : Reached Callback Arg mess written) : written.Holds mess := by
  induction reached with
  | clear => exact Nat.zero_le _
  | prepareSend gName mType rHost message messSize reached ih => exact ih.congr rfl
  | prepareRecive gName msgType reached ih => exact ih.congr rfl
  | sendMessage reached sent ih =>
      rcases EventMessageHandle.sendMessage_cases sent with
        ⟨failed, error, rfl⟩ | ⟨rfl, sender, built⟩
      · rw [if_neg failed]
        exact ih.congr rfl
      · rw [if_pos rfl]
        exact Written.holds_bySend built
  | readMessage reached read ih =>
      rcases EventMessageHandle.readMessage_cases read with
        ⟨failed, error, rfl⟩ | ⟨rfl, source, rfl⟩
      · rw [if_neg failed]
        exact ih.congr rfl
      · rw [if_pos rfl]
        exact Written.holds_byRead (copiesAgree_copy _ source)
  | readMessageFiltered filter reached read ih =>
      rcases EventMessageHandle.readMessageFiltered_cases read with
        ⟨failed, error, rfl⟩ | ⟨rfl, source, rfl⟩
      · rw [if_neg failed]
        exact ih.congr rfl
      · rw [if_pos rfl]
        exact Written.holds_byRead (copiesAgree_copy _ source)
  | copy reached other ihTarget ihSource => exact ihSource.byCopy _
  | copyConstruct storage other ih => exact ih.byCopy storage

/-- Copies of a message agree with it if and only if its buffer has been written, with what
the message still says.  Buffers whose size has wrapped around are left out. -/
theorem copies_agree_iff {Callback Arg : Type} {written : Written}
    (reached : Reached Callback Arg mess written) (fits : written ≠ .wrapped) :
    mess.CopiesAgree ↔ written = .said mess.view := by
  have holds := reached.holds
  cases written with
  | never => exact iff_of_false (EventMessage.not_copiesAgree_of_small holds) Written.noConfusion
  | wrapped => exact absurd rfl fits
  | said view =>
      rw [Written.said.injEq]
      constructor
      · intro agree
        rw [← holds.2 mess]
        exact agree mess
      · rintro rfl target
        exact holds.2 target

open EventMessageHandle in
/-- A reply that was sent. -/
theorem copies_agree_sentReply :
    ∃ reply : EventMessage, Reached Unit Unit reply (.said reply.view) ∧ reply.CopiesAgree := by
  have sent : ((lockPeer (.ofString "server") (.ofString "host1")).sendMessage .initHandle
      (prepareOn .clear replyFields) allAccepted).map (fun result =>
        (result.2.2.2, Written.bySend result.2.2.1 == .said result.2.2.1.view)) =
          some (1, true) := by
    decide +kernel
  rcases Option.map_eq_some_iff.mp sent with
    ⟨⟨handleAfter, eventAfter, reply, returned⟩, sending, result⟩
  rcases Prod.mk.inj result with ⟨rfl, same⟩
  have reached : Reached Unit Unit reply (.bySend reply) :=
    .sendMessage (.prepareSend _ _ _ _ _ .clear) sending
  rw [eq_of_beq same] at reached
  exact ⟨reply, reached, (copies_agree_iff reached Written.noConfusion).mpr rfl⟩

open EventMessageHandle in
/-- A reply that is prepared and not sent: in a copy the group is unset. -/
theorem prepared_copy_unset :
    Reached Unit Unit (prepareOn .clear replyFields) .never ∧
      (EventMessage.clear.copy (prepareOn .clear replyFields)).view.groupName = some none ∧
      (prepareOn .clear replyFields).view.groupName = some (some replyFields.groupName) ∧
      ¬(prepareOn .clear replyFields).CopiesAgree := by
  refine ⟨.prepareSend _ _ _ _ _ .clear, rfl, rfl, ?_⟩
  exact EventMessage.not_copiesAgree_of_small (by decide)

end MultiMaster.NetIO
