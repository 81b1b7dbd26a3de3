import MultiMaster.NetIO.CutIndependence
import MultiMaster.NetIO.ForeignFrames
import MultiMaster.NetIO.InterruptedDelivery
import MultiMaster.NetIO.Reassembly

/-!
# Messages of an unknown group or type

`read_callback_message_from_libevent` returns when `check_mess_type` rejects a message, and
leaves complete frames behind it in the input until more bytes arrive.  The messages that
reach a callback or an unprocessed list are compared with those of the stream without the
rejected ones, for every way of cutting both streams.
-/

namespace MultiMaster.NetIO

open Foundation

/-- A frame of which all fields can be read and that an `int` can count. -/
structure WellFormed (frame : Bytes) : Prop where
  large : cursorSize < frame.length
  small : frame.length < 2 ^ 31
  offsets : OffsetsInside frame

theorem NameInside.terminated {bufferStr : Bytes} {pointer : Ptr CString} {name : CString}
    (inside : NameInside bufferStr pointer name) : pointer.Terminated bufferStr := by
  rcases inside with ⟨offset, rfl, stored⟩
  have last : 0 ∈ name.toMemory := by simp [CString.toMemory]
  rw [← stored] at last
  exact List.mem_of_mem_take last

/-- What `sendMessage` writes is well formed. -/
theorem wellFormed_encode (fields : MessageFields) (fits : fields.encodedSize < 2 ^ 31) :
    WellFormed fields.encode := by
  have length := fields.length_encode
  have large : cursorSize < fields.encode.length := by
    rw [length, MessageFields.encodedSize, cursorSize]
    omega
  have decoded : (messageOf fields.encode).Stores fields := by
    rw [messageOf, length]
    exact fields.stores_encode (by omega) .clear
  have opened := EventMessageHandle.messageOf_large (by omega) large
  rw [opened] at decoded
  refine ⟨large, by omega, (EventMessageHandle.inside_iff (by omega) large).mp ?_⟩
  rw [opened]
  rcases decoded.message with ⟨offset, pointer, within, _⟩
  refine ⟨EventMessage.toNat_ofNat_of_lt (by omega), Nat.le_of_lt large,
    decoded.groupName.terminated, decoded.messType.terminated,
    decoded.sendHostName.terminated, decoded.reciveHostName.terminated, offset, pointer, ?_⟩
  rw [decoded.messageSize]
  exact within

namespace EventMessageHandle

open LibeventHandle

variable {Callback Arg : Type} {start : EventMessageHandle Callback Arg}
variable {frame : Bytes} {frames done : List Bytes}

/-- A message that reached its destination: the callback it was handed to, with the argument,
or no callback when a copy was put into the unprocessed list. -/
abbrev Delivery (Callback Arg : Type) := EventMessage × Option (Callback × Option Arg)

/-- Decode received bytes and dispatch the message.  The second component lists the
deliveries; `storage` is the memory of queued copies. -/
def deliverMessage (storage : Nat → EventMessage)
    (state : EventMessageHandle Callback Arg × List (Delivery Callback Arg)) (bufferStr : Bytes)
    (reciveSize : Int) :
    Option ((EventMessageHandle Callback Arg × List (Delivery Callback Arg)) × Bool) := do
  let mess := EventMessage.initMessagePtr { EventMessage.clear with
    bufferStr := bufferStr
    bufferSize := UInt32.ofNat reciveSize.toNat }
  let (handle, ran, accepted) ← state.1.tryRunCallback (storage state.2.length) mess
  return ((handle, if accepted then state.2 ++ [(mess, ran)] else state.2), accepted)

/-- The read callback of a connection, with the deliveries it makes. -/
def deliverFromLibevent (storage : Nat → EventMessage) (connectId : Int) :
    ReadCallback
      (EventMessageHandle Callback Arg × List (Delivery Callback Arg)) :=
  receiveLoop connectId (deliverMessage storage)

/-- Group and type of the message in a frame are configured. -/
def knows (start : EventMessageHandle Callback Arg) (frame : Bytes) : Bool :=
  start.verdict (messageOf frame) = some true

/-- Where the message in a frame goes. -/
def delivery (start : EventMessageHandle Callback Arg) (frame : Bytes) :
    Delivery Callback Arg :=
  (messageOf frame, (messageOf frame).key?.bind start.callback)

/-- `check_mess_type` has a verdict on a well-formed frame. -/
theorem verdict_wellFormed (wellFormed : WellFormed frame) :
    start.verdict (messageOf frame) = some (start.knows frame) := by
  have named : ∀ field < 4, (cursorField frame field).toNat ≤ frame.length := by
    intro field four
    have terminated := List.length_pos_of_mem (wellFormed.offsets.names field four)
    rw [List.length_drop] at terminated
    omega
  have safe : start.SafeFrame frame :=
    ⟨wellFormed.large, named 0 (by omega), fun _ _ _ => named 1 (by omega),
      fun _ _ _ _ _ => wellFormed.offsets⟩
  have small := wellFormed.small
  rcases (safeFrame_iff (by omega)).mp safe with ⟨accepted, decided, _⟩
  rw [knows, decided]
  cases accepted with
  | true => rfl
  | false => rfl

theorem knows_iff : start.knows frame = true ↔
    ∃ key, (messageOf frame).key? = some key ∧ start.Configured key := by
  rw [knows, decide_eq_true_eq, verdict_eq_true_iff]

theorem SameSetup.knows_eq {after : EventMessageHandle Callback Arg}
    (same : SameSetup start after) : after.knows frame = start.knows frame := by
  rw [Bool.eq_iff_iff, knows_iff, knows_iff]
  simp only [same.configured]

/-- The configuration is that of the start, and the known messages of the frames so far were
delivered. -/
structure Delivered (start : EventMessageHandle Callback Arg)
    (state : EventMessageHandle Callback Arg × List (Delivery Callback Arg))
    (done : List Bytes) : Prop where
  setup : SameSetup start state.1
  deliveries : state.2 = (done.filter start.knows).map start.delivery

/-- The read callback stops at the frames of unknown messages. -/
theorem deliverMessage_judges (storage : Nat → EventMessage)
    (wellFormed : ∀ frame ∈ frames, WellFormed frame) :
    Judges (deliverMessage storage) (fun frame => !start.knows frame)
      start.Delivered frames := by
  rintro ⟨handle, deliveries⟩ done frame delivered among
  have setup : SameSetup start handle := delivered.setup
  have earlier : deliveries = (done.filter start.knows).map start.delivery :=
    delivered.deliveries
  have decided : handle.verdict (messageOf frame) = some (start.knows frame) := by
    rw [← setup.knows_eq]
    exact verdict_wellFormed (wellFormed frame (among.subset (by simp)))
  have message : messageOf frame = EventMessage.initMessagePtr { EventMessage.clear with
      bufferStr := frame
      bufferSize := UInt32.ofNat (frame.length : Int).toNat } := by
    rw [messageOf, Int.toNat_natCast]
  rw [deliverMessage, ← message]
  cases known : start.knows frame with
  | false =>
      rw [known, verdict, Option.map_eq_some_iff] at decided
      rcases decided with ⟨checked, found, rejected⟩
      refine ⟨(handle, deliveries), by simp [tryRunCallback, found, rejected, known], setup, ?_⟩
      simp [earlier, known]
  | true =>
      rw [known] at decided
      rcases verdict_eq_true_iff.mp decided with ⟨key, named, configured⟩
      have logged : deliveries ++ [(messageOf frame, handle.callback key)] =
          ((done ++ [frame]).filter start.knows).map start.delivery := by
        simp [earlier, known, delivery, named, setup.callback]
      cases function : handle.callback key with
      | some registered =>
          have ran := tryRunCallback_registered named function (storage deliveries.length)
          rw [function] at logged
          exact ⟨(handle, deliveries ++ [(messageOf frame, some registered)]),
            by simp [ran, known], setup, logged⟩
      | none =>
          rcases tryRunCallback_unhandled named configured function
            (storage deliveries.length) with ⟨after, ran, _, same, _⟩
          rw [function] at logged
          exact ⟨(after, deliveries ++ [(messageOf frame, none)]), by simp [ran, known],
            setup.trans same, logged⟩

/-! ## The end of a stream -/

variable {chunks others : List Bytes}

/-- Behind each unknown message that has a known one behind it there are chunks enough: even
without as many of the last chunks as there are unknown messages from it up to the known
one, its frame has arrived. -/
def UnknownInTime (start : EventMessageHandle Callback Arg) (frames chunks : List Bytes) :
    Prop :=
  ∀ before unknown between known rest,
    frames = before ++ unknown :: (between ++ known :: rest) →
    start.knows unknown = false → start.knows known = true →
    controlFormat.frames (before ++ [unknown]) <+:
      (chunks.take (chunks.length -
        (unknown :: between).countP fun frame => !start.knows frame)).flatten

theorem wellFormed_sized (wellFormed : WellFormed frame) :
    controlFormat.width < frame.length ∧ frame.length < controlFormat.limit := by
  refine ⟨?_, wellFormed.small⟩
  have large := wellFormed.large
  simp only [cursorSize, controlFormat, controlBlockSize] at large ⊢
  omega

/-- When the whole stream has arrived, only the unknown messages matter. -/
theorem unknownInTime_iff (cut : CutOf chunks (controlFormat.frames frames)) :
    start.UnknownInTime frames chunks ↔ ∀ front known, front ++ [known] <+: frames →
      start.knows known = true → InTime (fun frame => !start.knows frame)
        (ArrivedWith chunks) chunks.length front known := by
  constructor
  · rintro early front known ⟨rest, whole⟩ wanted
    refine ⟨?_, ?_⟩
    · rw [ArrivedWith, List.take_length, cut.whole, ← whole,
        controlFormat.frames_append (front ++ [known])]
      exact List.prefix_append _ _
    · intro before unknown between split stopping
      apply early before unknown between known rest _ _ wanted
      · rw [← whole, split]
        simp
      · simpa using stopping
  · intro every before unknown between known rest split rejected wanted
    have among : (before ++ unknown :: between) ++ [known] <+: frames := by
      rw [split]
      exact ⟨rest, by simp⟩
    exact (every _ known among wanted).2 before unknown between rfl (by simp [rejected])

/-- The deliveries after a whole stream. -/
theorem deliveries_of_stream {eventHandle : LibeventHandle} {connectId : Int} {info : BevInfor}
    (ready : eventHandle.Ready connectId info) (fresh : info.Fresh)
    (wellFormed : ∀ frame ∈ frames, WellFormed frame) (storage : Nat → EventMessage)
    (cut : CutOf chunks (controlFormat.frames frames))
    (below : InputBelow connectId (deliverFromLibevent storage connectId)
      eventHandle (start, []) chunks) :
    ∃ result, eventHandle.receiveChunks connectId (deliverFromLibevent storage connectId)
        (start, []) chunks = some result ∧
      ∃ done rest, frames = done ++ rest ∧
        result.2.2 = (done.filter start.knows).map start.delivery ∧
        (rest.filter start.knows = [] ↔ start.UnknownInTime frames chunks) := by
  have prefixed : CutPrefix chunks (controlFormat.frames frames) :=
    ⟨cut.nonempty, cut.whole ▸ List.prefix_rfl⟩
  have initially : start.Delivered (start, []) [] := ⟨.refl, rfl⟩
  rcases receiveChunks_inTime ready fresh
    (fun frame member => wellFormed_sized (wellFormed frame member))
    (deliverMessage_judges storage wellFormed) initially prefixed below List.prefix_rfl with
    ⟨done, rest, pending, after, reached, final, received, split, _, underway, taken⟩
  refine ⟨(after, final), received, done, rest, split, underway.related.deliveries, ?_⟩
  rw [filter_complete_iff _ done, ← split, unknownInTime_iff cut]
  apply forall₃_congr
  intro front known among
  rw [taken front known among]

theorem unknownInTime_of_known (known : ∀ frame ∈ frames, start.knows frame = true)
    (chunks : List Bytes) : start.UnknownInTime frames chunks := by
  intro before unknown between last rest split rejected _
  rw [known unknown (by simp [split])] at rejected
  cases rejected

/-- However both streams are cut, the messages that reach a callback or an unprocessed list
are those of the stream without the unknown messages, exactly when behind each unknown
message there are chunks enough for the known ones. -/
theorem unknownMessages_undisturbing_iff {eventHandle : LibeventHandle} {connectId : Int}
    {info : BevInfor} (ready : eventHandle.Ready connectId info) (fresh : info.Fresh)
    (wellFormed : ∀ frame ∈ frames, WellFormed frame) (storage : Nat → EventMessage)
    (cut : CutOf chunks (controlFormat.frames frames))
    (below : InputBelow connectId (deliverFromLibevent storage connectId)
      eventHandle (start, []) chunks)
    (cutKnown : CutOf others
      (controlFormat.frames (frames.filter start.knows)))
    (belowKnown : InputBelow connectId (deliverFromLibevent storage connectId)
      eventHandle (start, []) others) :
    ∃ first second,
      eventHandle.receiveChunks connectId (deliverFromLibevent storage connectId) (start, [])
        chunks = some first ∧
      eventHandle.receiveChunks connectId (deliverFromLibevent storage connectId) (start, [])
        others = some second ∧
      (first.2.2 = second.2.2 ↔ start.UnknownInTime frames chunks) := by
  have kept : ∀ frame ∈ frames.filter start.knows, start.knows frame = true :=
    fun frame member => (List.mem_filter.mp member).2
  rcases deliveries_of_stream ready fresh wellFormed storage cut below with
    ⟨first, received, done, rest, split, deliveries, complete⟩
  rcases deliveries_of_stream ready fresh
    (fun frame member => wellFormed frame (List.mem_filter.mp member).1) storage cutKnown
    belowKnown with ⟨second, receivedKnown, all, left, splitKnown, deliveriesKnown, every⟩
  have whole : all.filter start.knows = frames.filter start.knows := by
    have same := congrArg (List.filter start.knows) splitKnown
    rw [List.filter_append, every.mpr (unknownInTime_of_known kept others), List.append_nil,
      List.filter_eq_self.mpr kept] at same
    exact same.symm
  refine ⟨first, second, received, receivedKnown, ?_⟩
  rw [deliveries, deliveriesKnown, whole, split, List.filter_append, List.map_append,
    List.self_eq_append_right, List.map_eq_nil_iff, complete, split]

/-- A message of a group that is not configured. -/
def strangeFrame : Bytes :=
  MessageFields.encode ⟨.ofString "other", .ofString "PageLockReply", .ofString "server",
    .ofString "host1", [7]⟩

theorem strangeFrame_reply_wellFormed :
    ∀ frame ∈ [strangeFrame, replyFields.encode], WellFormed frame := by
  intro frame member
  simp only [List.mem_cons, List.not_mem_nil, or_false] at member
  rcases member with rfl | rfl
  · exact wellFormed_encode _ (by decide +kernel)
  · exact wellFormed_encode _ (by decide +kernel)

theorem knows_strangeFrame_reply :
    lockGroupHandle.knows strangeFrame = false ∧
      lockGroupHandle.knows replyFields.encode = true := by
  decide +kernel

/-- A strange message and a reply, each in its own chunk. -/
theorem unknownMessages_undisturbing_twoChunks :
    ∃ first second,
      oneConnection.receiveChunks 0 (deliverFromLibevent (fun _ => .clear) 0)
        (lockGroupHandle, [])
        [controlFormat.frame strangeFrame, controlFormat.frame replyFields.encode] =
          some first ∧
      oneConnection.receiveChunks 0 (deliverFromLibevent (fun _ => .clear) 0)
        (lockGroupHandle, []) [controlFormat.frame replyFields.encode] = some second ∧
      first.2.2 = second.2.2 := by
  have known : [strangeFrame, replyFields.encode].filter lockGroupHandle.knows =
      [replyFields.encode] := by
    simp [knows_strangeFrame_reply]
  have cut : CutOf [controlFormat.frame strangeFrame, controlFormat.frame replyFields.encode]
      (controlFormat.frames [strangeFrame, replyFields.encode]) :=
    ⟨by decide +kernel, by simp⟩
  have cutKnown : CutOf [controlFormat.frame replyFields.encode] (controlFormat.frames
      ([strangeFrame, replyFields.encode].filter lockGroupHandle.knows)) := by
    rw [known]
    exact ⟨by decide +kernel, by simp⟩
  rcases unknownMessages_undisturbing_iff oneConnection_ready newConnection_fresh
    strangeFrame_reply_wellFormed (fun _ => .clear) cut
    (by rw [InputBelow]; decide +kernel) cutKnown (by rw [InputBelow]; decide +kernel) with
    ⟨first, second, received, receivedKnown, same⟩
  refine ⟨first, second, received, receivedKnown, same.mpr ?_⟩
  intro before unknown between last rest split _ _
  have lengths := congrArg List.length split
  simp only [List.length_cons, List.length_append, List.length_nil] at lengths
  rcases List.length_eq_zero_iff.mp (show before.length = 0 by omega) with rfl
  rcases List.length_eq_zero_iff.mp (show between.length = 0 by omega) with rfl
  cases (List.cons.inj split).1
  simp [knows_strangeFrame_reply]

/-- In one chunk the strange message hides the reply behind it. -/
theorem strangeFrame_hides_reply :
    (∀ frame ∈ [strangeFrame, replyFields.encode], WellFormed frame) ∧
      lockGroupHandle.knows strangeFrame = false ∧
      lockGroupHandle.knows replyFields.encode = true ∧
      (oneConnection.receiveChunks 0 (deliverFromLibevent (fun _ => .clear) 0)
        (lockGroupHandle, []) [controlFormat.frames [strangeFrame, replyFields.encode]]).map
          (fun result => result.2.2.length) = some 0 ∧
      (oneConnection.receiveChunks 0 (deliverFromLibevent (fun _ => .clear) 0)
        (lockGroupHandle, []) [controlFormat.frames [replyFields.encode]]).map
          (fun result => result.2.2.length) = some 1 :=
  ⟨strangeFrame_reply_wellFormed, knows_strangeFrame_reply.1, knows_strangeFrame_reply.2,
    by decide +kernel, by decide +kernel⟩

end EventMessageHandle

end MultiMaster.NetIO
