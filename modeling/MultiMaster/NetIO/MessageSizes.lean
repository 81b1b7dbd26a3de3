import MultiMaster.NetIO.SendReport

/-!
# Sizes of sent messages

The size of an encoded message is an `unsigned` in `init_buffer_str`, an `int` in `send` and
in the size block, and a `size_t` in the write.  They agree while the size is below the
largest `int`.
-/

namespace MultiMaster.NetIO

open Foundation

/-- A size as the wire and the calls have it: the `int` given to `send`, the `int` in the
size block, and the number of bytes behind the block. -/
structure SizesAre (size : Nat) (encoded : EventMessage) (block payload : Bytes) : Prop where
  positive : 0 < size
  computed : encoded.bufferSize.toNat = size
  passed : toInt encoded.bufferSize.toNat = size
  width : block.length = controlBlockSize
  stored : toInt (leValue block) = size
  written : payload.length = size
  content : payload = encoded.bufferStr

/-- A size block holds the size that was meant, and that is an `int`. -/
theorem SizesAre.leValue_block {size : Nat} {encoded : EventMessage} {block payload : Bytes}
    (sizes : SizesAre size encoded block payload) : leValue block = size ∧ size < 2 ^ 31 := by
  have bound := leValue_lt block
  rw [sizes.width] at bound
  have small : leValue block < 2 ^ 32 := bound
  have stored := sizes.stored
  by_cases low : leValue block < 2 ^ 31
  · rw [toInt_of_lt low] at stored
    omega
  · have high : toInt (leValue block) = leValue block - 2 ^ 32 :=
      bmod_of_high small (by omega)
    rw [high] at stored
    omega

namespace EventMessageHandle

variable {Callback Arg : Type} {handle : EventMessageHandle Callback Arg}
variable {eventHandle : LibeventHandle} {fields : MessageFields}

/-- The call returns.  Either it reports a failure and has written nothing, or a connection
to the receiver has got one frame and all of its sizes are the size of the encoded
message. -/
def SizesAgree (handle : EventMessageHandle Callback Arg) (eventHandle : LibeventHandle)
    (fields : MessageFields) (mess : EventMessage) (outcome : NetOutcome) : Prop :=
  ∃ after eventAfter sent returned,
    handle.sendMessage eventHandle mess outcome = some (after, eventAfter, sent, returned) ∧
      ((returned < 0 ∧ eventAfter = eventHandle) ∨
        ∃ address ∈ handle.address? fields, ∃ connectId block payload,
          SizesAre (handle.ownFields fields).encodedSize sent block payload ∧
            eventAfter.outputTo address.1 address.2 connectId =
              eventHandle.outputTo address.1 address.2 connectId ++ (block ++ payload))

/-- Nothing is written for a message that fails a check. -/
theorem sizesAgree_of_unaddressed {mess failed : EventMessage}
    {after : EventMessageHandle Callback Arg}
    (staged : handle.stageMessage mess = some (after, failed, none)) (outcome : NetOutcome) :
    handle.SizesAgree eventHandle fields mess outcome := by
  refine ⟨after, eventHandle, failed, -1, ?_, .inl ⟨by decide, rfl⟩⟩
  rw [sendMessage, staged]
  rfl

/-- A message whose size is an `int` has that size everywhere. -/
theorem sizesAre_encoded {size : Nat} {encoded : EventMessage} {block : Bytes}
    (positive : 0 < size) (small : size < 2 ^ 31) (length : encoded.bufferStr.length = size)
    (counted : encoded.bufferSize = UInt32.ofNat encoded.bufferStr.length)
    (width : block.length = controlBlockSize)
    (stored : leValue block = encoded.bufferStr.length) :
    SizesAre size encoded block encoded.bufferStr := by
  have computed : encoded.bufferSize.toNat = size := by
    rw [counted, length]
    exact EventMessage.toNat_ofNat_of_lt (by omega)
  exact
    { positive := positive
      computed := computed
      passed := by rw [computed, toInt_of_lt small]
      width := width
      stored := by rw [stored, length, toInt_of_lt small]
      written := length
      content := rfl }

/-- A message with an address is written with one size exactly when it is written and the
size is an `int`. -/
theorem sizesAgree_addressed_iff {address : Address}
    (configured : handle.Configured fields.messKey)
    (found : handle.address? fields = some address) (valid : address.2 ≠ 0)
    (sized : fields.message.length < 2 ^ 32) (mess : EventMessage) (outcome : NetOutcome) :
    handle.SizesAgree eventHandle fields (prepareOn mess fields) outcome ↔
      eventHandle.Accepts address.1 address.2 outcome ∧
        (handle.ownFields fields).encodedSize < 2 ^ 31 := by
  rcases stageMessage_addressed configured found valid sized mess with
    ⟨encoded, staged, length, counted⟩
  have positive : 0 < (handle.ownFields fields).encodedSize := by
    rw [MessageFields.encodedSize]
    omega
  have nonempty : encoded.bufferStr ≠ [] := by
    rw [← List.length_pos_iff, length]
    exact positive
  have sent := sendMessage_of_staged staged eventHandle outcome
  rw [counted] at sent
  have gains : (∃ eventAfter, eventHandle.sendTo address.1 address.2 encoded.bufferStr
      (toInt (UInt32.ofNat encoded.bufferStr.length).toNat) outcome = some eventAfter ∧
        eventHandle.Gains eventAfter address.1 address.2 encoded.bufferStr) ↔
      eventHandle.Accepts address.1 address.2 outcome ∧ encoded.bufferStr.length < 2 ^ 32 :=
    LibeventHandle.sendTo_gains_iff nonempty
  rw [SizesAgree, sent]
  constructor
  · rintro ⟨after, eventAfter, same, returned, called, result⟩
    rcases Option.map_eq_some_iff.mp called with ⟨_, sending, tuple⟩
    cases tuple
    rcases result with ⟨negative, _⟩ | ⟨other, configuredAddress, connectId, block, payload,
      sizes, output⟩
    · exact absurd negative (by decide)
    · cases found.symm.trans configuredAddress
      rcases sizes.leValue_block with ⟨stored, small⟩
      have complete : CompleteFrame encoded.bufferStr (block ++ payload) :=
        ⟨block, sizes.width, by rw [stored, length], by rw [sizes.content]⟩
      exact ⟨(gains.mp ⟨_, sending, connectId, _, complete, output⟩).1, small⟩
  · rintro ⟨accepted, small⟩
    rcases gains.mpr ⟨accepted, by omega⟩ with
      ⟨eventAfter, sending, connectId, bytes, ⟨block, width, stored, rfl⟩, output⟩
    have sizes := sizesAre_encoded positive small length counted width stored
    refine ⟨handle, eventAfter, encoded, 1, ?_, .inr ⟨address, found, connectId, block,
      encoded.bufferStr, sizes, output⟩⟩
    rw [sending]
    rfl

/-- `sendMessage` fails without writing or writes one size everywhere, exactly when the
message fails a check, or else the connection is there or can be set up, nothing holds the
locks, libevent accepts both writes and the size of the encoded message is an `int`. -/
theorem sendMessage_sizesAgree_iff (handle : EventMessageHandle Callback Arg)
    (eventHandle : LibeventHandle) (fields : MessageFields)
    (sized : fields.message.length < 2 ^ 32) (mess : EventMessage) (outcome : NetOutcome) :
    handle.SizesAgree eventHandle fields (prepareOn mess fields) outcome ↔
      (handle.Configured fields.messKey →
        ∀ address ∈ handle.address? fields, address.2 ≠ 0 →
          eventHandle.Accepts address.1 address.2 outcome ∧
            (handle.ownFields fields).encodedSize < 2 ^ 31) := by
  by_cases addressed : handle.Configured fields.messKey ∧
      ∃ address ∈ handle.address? fields, address.2 ≠ 0
  · rcases addressed with ⟨configured, address, found, valid⟩
    rw [sizesAgree_addressed_iff configured found valid sized]
    constructor
    · rintro accepted _ other same _
      cases found.symm.trans same
      exact accepted
    · exact fun accepted => accepted configured address found valid
  · rcases stageMessage_unaddressed addressed mess with ⟨after, failed, staged, _⟩
    apply iff_of_true (sizesAgree_of_unaddressed staged _)
    intro configured address found valid
    exact absurd ⟨configured, address, found, valid⟩ addressed

/-- A reply over a new connection, when everything succeeds. -/
theorem sendMessage_sizesAgree_newConnection :
    (lockPeer (.ofString "server") (.ofString "host1")).SizesAgree .initHandle replyFields
      (prepareOn .clear replyFields) allAccepted := by
  have accepted : LibeventHandle.initHandle.Accepts (.ofString "127.0.0.1") 9000 allAccepted :=
    ⟨rfl, rfl, rfl, by decide, rfl⟩
  apply (sendMessage_sizesAgree_iff (lockPeer (.ofString "server") (.ofString "host1"))
    .initHandle replyFields (by decide) .clear allAccepted).mpr
  intro _ address found _
  cases replyFields_address.symm.trans found
  exact ⟨accepted, by decide⟩

theorem length_message_le (handle : EventMessageHandle Callback Arg) (fields : MessageFields) :
    fields.message.length ≤ (handle.ownFields fields).encodedSize := Nat.le_add_left _ _

/-- A reply with the largest `unsigned` size. -/
def largestReply : MessageFields :=
  { replyFields with message := List.replicate (2 ^ 32 - 1) 0 }

/-- The size of the largest reply wraps around, although everything succeeds. -/
theorem largestReply_wraps :
    largestReply.message.length < 2 ^ 32 ∧
      ¬(lockPeer (.ofString "server") (.ofString "host1")).SizesAgree .initHandle largestReply
        (prepareOn .clear largestReply) allAccepted := by
  have length : largestReply.message.length = 2 ^ 32 - 1 := by
    simp only [largestReply, List.length_replicate]
  have sized : largestReply.message.length < 2 ^ 32 := by
    rw [length]
    decide
  refine ⟨sized, ?_⟩
  have configured : (lockPeer (.ofString "server") (.ofString "host1")).Configured
      largestReply.messKey := replyFields_configured
  have found : (lockPeer (.ofString "server") (.ofString "host1")).address? largestReply =
      some (.ofString "127.0.0.1", 9000) := replyFields_address
  rw [sizesAgree_addressed_iff configured found (by decide) sized]
  rintro ⟨_, small⟩
  have parts := length_message_le (lockPeer (.ofString "server") (.ofString "host1"))
    largestReply
  rw [length] at parts
  omega

end EventMessageHandle

end MultiMaster.NetIO
