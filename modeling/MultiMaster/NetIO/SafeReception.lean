import MultiMaster.NetIO.CutIndependence
import MultiMaster.NetIO.ForeignFrames

/-!
# Receiving any bytes

A peer may send anything.  Bytes that arrive on a connection are cut into frames by the size
words they contain, and the frames are handed to `init_message_ptr` and `check_mess_type`.
Whatever the chunks, this is safe exactly if no size word is negative and every frame that
is not empty is a safe one.
-/

namespace MultiMaster.NetIO

open Foundation

variable {Callback Arg : Type}

namespace EventMessageHandle

/-- A stream whose frames are all empty or safe.  A size word is read once a byte behind it
has arrived. -/
inductive SafeStream (handle : EventMessageHandle Callback Arg) : Bytes → Prop where
  | short {stream : Bytes} (few : stream.length ≤ controlBlockSize) : SafeStream handle stream
  | incomplete {stream : Bytes} {size : Nat}
      (header : controlFormat.decode (stream.take controlBlockSize) = some size)
      (missing : stream.length < controlBlockSize + size) : SafeStream handle stream
  | frame {payload rest : Bytes} (small : payload.length < 2 ^ 31)
      (safe : payload = [] ∨ handle.SafeFrame payload) (remaining : SafeStream handle rest) :
      SafeStream handle (controlFormat.frame payload ++ rest)

/-- After the chunks the receive path is defined, and every message that `check_mess_type`
accepted points into its frame. -/
def ReceivedSafely (handle : EventMessageHandle Callback Arg) (storage : Nat → EventMessage)
    (eventHandle : LibeventHandle) (connectId : Int) (chunks : List Bytes) : Prop :=
  ∃ final, eventHandle.receiveChunks connectId
      (readCallbackMessageFromLibevent storage connectId) (handle, []) chunks = some final ∧
    ∀ mess ∈ final.2.2, handle.verdict mess = some true → mess.Inside

variable {handle : EventMessageHandle Callback Arg} {payload rest stream : Bytes}

theorem length_controlFrame (payload : Bytes) :
    (controlFormat.frame payload).length = controlBlockSize + payload.length :=
  controlFormat.length_frame payload

theorem decode_frame (small : payload.length < 2 ^ 31) (rest : Bytes) :
    controlFormat.decode ((controlFormat.frame payload ++ rest).take controlBlockSize) =
      some payload.length := by
  have header : (controlFormat.frame payload ++ rest).take controlBlockSize =
      controlFormat.encode payload.length := by
    rw [HeaderFormat.frame, List.append_assoc]
    exact List.take_left' (controlFormat.length_encode _)
  rw [header, controlFormat.decode_encode _ small]

theorem frame_append_inj {other later : Bytes} (small : payload.length < 2 ^ 31)
    (otherSmall : other.length < 2 ^ 31)
    (same : controlFormat.frame payload ++ rest = controlFormat.frame other ++ later) :
    payload = other ∧ rest = later := by
  have decoded := decode_frame small rest
  rw [same, decode_frame otherSmall later, Option.some.injEq] at decoded
  have lengths : (controlFormat.frame payload).length = (controlFormat.frame other).length := by
    rw [HeaderFormat.length_frame, HeaderFormat.length_frame, decoded]
  rcases List.append_inj same lengths with ⟨frames, rests⟩
  refine ⟨?_, rests⟩
  rw [HeaderFormat.frame, HeaderFormat.frame, decoded] at frames
  exact List.append_cancel_left frames

namespace SafeStream

/-- The size word of a safe stream is not negative. -/
theorem decodable (safe : handle.SafeStream stream) (enough : controlBlockSize < stream.length) :
    (controlFormat.decode (stream.take controlBlockSize)).isSome := by
  cases safe with
  | short few => omega
  | incomplete header missing =>
      rw [header]
      rfl
  | frame small safe remaining =>
      rw [decode_frame small]
      rfl

/-- The first frame of a safe stream and what is behind it. -/
theorem uncons (safe : handle.SafeStream (controlFormat.frame payload ++ rest))
    (small : payload.length < 2 ^ 31) :
    (payload = [] ∨ handle.SafeFrame payload) ∧ handle.SafeStream rest := by
  generalize whole : controlFormat.frame payload ++ rest = stream at safe
  cases safe with
  | short few =>
      rw [← whole, List.length_append, length_controlFrame] at few
      exact ⟨.inl (List.length_eq_zero_iff.mp (by omega)), .short (by omega)⟩
  | incomplete header missing =>
      rw [← whole, decode_frame small, Option.some.injEq] at header
      rw [← whole, List.length_append, length_controlFrame] at missing
      omega
  | frame otherSmall safe remaining =>
      rcases frame_append_inj small otherSmall whole with ⟨rfl, rfl⟩
      exact ⟨safe, remaining⟩

end SafeStream

end EventMessageHandle

/-! ## One attempt -/

/-- Conversion to `int` takes off multiples of `2 ^ 32`. -/
theorem exists_toInt (size : Nat) :
    ∃ wraps : Int, 0 ≤ wraps ∧ toInt size = size - 2 ^ 32 * wraps := by
  unfold toInt
  rw [Int.bmod_def]
  split
  · exact ⟨(size : Int) / 2 ^ 32, by omega, by omega⟩
  · exact ⟨(size : Int) / 2 ^ 32 + 1, by omega, by omega⟩

theorem toInt_le (size : Nat) : toInt size ≤ size := by
  rcases exists_toInt size with ⟨wraps, nonnegative, same⟩
  omega

/-- A size word that is not negative is the control block of its size. -/
theorem encode_toInt {stream : Bytes} (enough : controlBlockSize < stream.length)
    (nonnegative : 0 ≤ toInt (leValue (stream.take controlBlockSize))) :
    controlFormat.encode (toInt (leValue (stream.take controlBlockSize))).toNat =
      stream.take controlBlockSize := by
  have length : (stream.take controlBlockSize).length = controlBlockSize := by
    rw [List.length_take]
    omega
  have below := leValue_lt (stream.take controlBlockSize)
  have again := leBytes_leValue (stream.take controlBlockSize)
  rw [length] at below again
  generalize leValue (stream.take controlBlockSize) = value at *
  rcases exists_toInt value with ⟨wraps, _, same⟩
  have exact : (toInt value).toNat = value := by
    unfold controlBlockSize at below
    omega
  rw [exact]
  exact again

namespace BevInfor

variable {info : BevInfor}

/-- The bytes that were not handed out, a control block that is cached included. -/
def unread (info : BevInfor) : Bytes :=
  if info.cacheBlock then controlFormat.encode info.blockSize.toNat ++ info.bev.input
  else info.bev.input

/-- A size that is cached is one a payload can have. -/
def CachedSize (info : BevInfor) : Prop :=
  info.cacheBlock = true → 0 ≤ info.blockSize ∧ info.blockSize < 2 ^ 31

theorem CachedSize.of_uncached (uncached : info.cacheBlock = false) : info.CachedSize := by
  intro cached
  rw [uncached] at cached
  cases cached

/-- What an attempt does: it waits, or takes the next payload. -/
inductive Received (info : BevInfor) : BevInfor × Bytes × Int → Prop where
  | waiting {after : BevInfor} {data : Bytes} (unread : after.unread = info.unread)
      (cached : after.CachedSize) (free : after.readSingal = 0) :
      Received info (after, data, 0)
  | payload {after : BevInfor} {payload : Bytes} (small : payload.length < 2 ^ 31)
      (unread : info.unread = controlFormat.frame payload ++ after.unread)
      (uncached : after.cacheBlock = false) (free : after.readSingal = 0)
      (shorter : after.bev.input.length + payload.length ≤ info.bev.input.length) :
      Received info (after, payload, (payload.length : Int))

/-- Reading behind a cached control block, however long the input is. -/
theorem readBufferNoWait_received (cached : info.cacheBlock = true) (size : info.CachedSize)
    (unlocked : rwWUnlock info.readSingal = 0) :
    Received info (info.readBufferNoWait (List.replicate info.blockSize.toNat 0)) := by
  rcases size cached with ⟨nonnegative, small⟩
  have exact : toSize info.blockSize = info.blockSize.toNat :=
    toSize_of_nonneg nonnegative small
  have available := toInt_le info.bev.input.length
  rw [readBufferNoWait, if_pos cached]
  simp only [exact]
  split
  · refine .waiting ?_ size unlocked
    simp [unread, cached, Bufferevent.setReadWatermark]
  · next enough =>
    have length : (info.bev.input.take info.blockSize.toNat).length = info.blockSize.toNat := by
      rw [List.length_take]
      omega
    have returned : toInt (info.bev.input.take info.blockSize.toNat).length =
        ((info.bev.input.take info.blockSize.toNat).length : Int) := by
      apply toInt_of_lt
      omega
    have data : overwrite (List.replicate info.blockSize.toNat 0) 0
        (info.bev.input.take info.blockSize.toNat) =
          info.bev.input.take info.blockSize.toNat := by
      simp [overwrite, length]
    simp only [Bufferevent.setReadWatermark, Bufferevent.read, returned, data]
    refine .payload (by omega) ?_ rfl unlocked ?_
    · simp only [unread, cached, if_true, Bool.false_eq_true, if_false, HeaderFormat.frame,
        length, List.append_assoc, List.take_append_drop]
    · simp only [List.length_drop]
      omega

end BevInfor

namespace LibeventHandle

variable {handle : LibeventHandle} {connectId : Int} {info : BevInfor}

/-- A negative size word makes the attempt undefined. -/
theorem reciveStrNoWait_negative (ready : handle.Ready connectId info)
    (uncached : info.cacheBlock = false)
    (more : (controlBlockSize : Int) < toInt info.bev.input.length)
    (negative : toInt (leValue (info.bev.input.take controlBlockSize)) < 0) :
    handle.reciveStrNoWait connectId [] = none := by
  rcases getReciveBufferLength_counts ready with ⟨after, counting, still⟩
  have failed : (withControlBlock info).growString [] = none := by
    rw [withControlBlock, uncached, if_neg (by simp), BevInfor.growString, List.length_nil,
      if_pos (Nat.zero_le _), blockSize_withBlock, if_pos negative]
  rw [reciveStrNoWait_more ready counting still (not_toSize_le more)
    (readBufferControlBlockNoWait_eq ready.read more), failed, Option.map_none]

/-- The control block that an attempt uses belongs to the bytes not handed out. -/
theorem withControlBlock_spec (ready : handle.Ready connectId info) (cached : info.CachedSize)
    (enough : controlBlockSize < info.bev.input.length)
    (decodable : info.cacheBlock = false →
      0 ≤ toInt (leValue (info.bev.input.take controlBlockSize))) :
    (withControlBlock info).cacheBlock = true ∧ (withControlBlock info).CachedSize ∧
      rwWUnlock (withControlBlock info).readSingal = 0 ∧
      (withControlBlock info).unread = info.unread ∧
      (withControlBlock info).bev.input.length ≤ info.bev.input.length := by
  by_cases already : info.cacheBlock = true
  · rw [withControlBlock, if_pos already, ready.read]
    exact ⟨already, cached, rfl, rfl, le_rfl⟩
  · have uncached := Bool.eq_false_iff.mpr already
    have size := blockSize_withBlock info
    have nonnegative := decodable uncached
    rw [withControlBlock, if_neg already]
    refine ⟨by rw [BevInfor.withBlock], ?_, by simp [BevInfor.withBlock, rwWUnlock], ?_, ?_⟩
    · intro _
      rw [size]
      exact ⟨nonnegative, toInt_lt _⟩
    · have cachedNow : info.withBlock.cacheBlock = true := by rw [BevInfor.withBlock]
      have remaining : info.withBlock.bev.input = info.bev.input.drop controlBlockSize := by
        rw [BevInfor.withBlock]
      rw [BevInfor.unread, if_pos cachedNow, size, remaining, encode_toInt enough nonnegative,
        List.take_append_drop, BevInfor.unread, if_neg already]
    · simp [BevInfor.withBlock]

/-- What one attempt does when the size word it may read is not negative. -/
theorem reciveStrNoWait_received (ready : handle.Ready connectId info)
    (cached : info.CachedSize) (positive : 0 < toInt info.bev.input.length)
    (decodable : info.cacheBlock = false → controlBlockSize < info.bev.input.length →
      0 ≤ toInt (leValue (info.bev.input.take controlBlockSize))) :
    ∃ after reached data returned,
      handle.reciveStrNoWait connectId [] = some (after, data, returned) ∧
      after.Ready connectId reached ∧ info.Received (reached, data, returned) := by
  rcases getReciveBufferLength_counts ready with ⟨after, counting, still⟩
  by_cases few : toInt info.bev.input.length ≤ controlBlockSize
  · have short : toSize (toInt info.bev.input.length) ≤ controlBlockSize := by
      rw [toSize_of_nonneg (by omega) (toInt_lt _)]
      omega
    exact ⟨after, info, [], 0, reciveStrNoWait_few ready counting still short, still,
      .waiting rfl cached ready.read⟩
  · have more := Int.not_le.mp few
    have available := toInt_le info.bev.input.length
    have enough : controlBlockSize < info.bev.input.length := by omega
    rcases withControlBlock_spec ready cached enough (fun uncached => decodable uncached enough)
      with ⟨has, size, unlocked, unread, length⟩
    have received := BevInfor.readBufferNoWait_received has size unlocked
    rw [reciveStrNoWait_more ready counting still (not_toSize_le more)
      (readBufferControlBlockNoWait_eq ready.read more), BevInfor.growString_nil (size has).1,
      Option.map_some]
    generalize (withControlBlock info).readBufferNoWait
      (List.replicate (withControlBlock info).blockSize.toNat 0) = read at received
    cases received with
    | waiting kept cachedLater free =>
        exact ⟨_, _, _, _, rfl, ready_setBevInfor still.table free,
          .waiting (kept.trans unread) cachedLater free⟩
    | payload small split uncached free shorter =>
        exact ⟨_, _, _, _, rfl, ready_setBevInfor still.table free,
          .payload small (unread.symm.trans split) uncached free (shorter.trans length)⟩

end LibeventHandle

namespace EventMessageHandle

open LibeventHandle

variable {start : EventMessageHandle Callback Arg}
variable {eventHandle : LibeventHandle} {connectId : Int} {info : BevInfor} {future : Bytes}
variable {state : EventMessageHandle Callback Arg × List EventMessage}

/-- A connection in the middle of a safe stream, of which `future` has not arrived. -/
structure Guarded (start : EventMessageHandle Callback Arg) (future : Bytes) (connectId : Int)
    (eventHandle : LibeventHandle) (info : BevInfor)
    (state : EventMessageHandle Callback Arg × List EventMessage) : Prop where
  ready : eventHandle.Ready connectId info
  cached : info.CachedSize
  stream : start.SafeStream (info.unread ++ future)
  names : SameNames start state.1
  inside : ∀ mess ∈ state.2, start.verdict mess = some true → mess.Inside

namespace Guarded

theorem decodable (guarded : Guarded start future connectId eventHandle info state)
    (uncached : info.cacheBlock = false) (enough : controlBlockSize < info.bev.input.length) :
    0 ≤ toInt (leValue (info.bev.input.take controlBlockSize)) := by
  have stream := guarded.stream
  rw [BevInfor.unread, uncached, if_neg (by simp)] at stream
  have decoded := stream.decodable (by rw [List.length_append]; omega)
  rw [List.take_append_of_le_length (by omega), controlFormat_decode] at decoded
  by_contra negative
  rw [if_pos (Int.not_le.mp negative)] at decoded
  cases decoded

/-- The handler is given a frame of the stream. -/
theorem handMessage (guarded : Guarded start future connectId eventHandle info state)
    (storage : Nat → EventMessage) {frame : Bytes} (small : frame.length < 2 ^ 31)
    (safe : start.SafeFrame frame) :
    ∃ after accepted, handMessage storage state frame frame.length =
        some ((after, state.2 ++ [messageOf frame]), accepted) ∧ SameNames start after ∧
      ∀ mess ∈ state.2 ++ [messageOf frame], start.verdict mess = some true → mess.Inside := by
  rcases (safeFrame_iff (by omega)).mp safe with ⟨accepted, decided, inside⟩
  have now := (guarded.names.verdict_eq (messageOf frame)).trans decided
  rcases handMessage_decided storage state.2 now with ⟨after, handed, same⟩
  refine ⟨after, accepted, handed, guarded.names.trans same, ?_⟩
  intro mess member agreed
  rcases List.mem_append.mp member with old | new
  · exact guarded.inside mess old agreed
  · rw [List.mem_singleton.mp new] at agreed ⊢
    rw [decided] at agreed
    exact inside (Option.some.inj agreed)

end Guarded

/-- The loop of the read callback keeps to the stream. -/
theorem receiveLoop_guarded (storage : Nat → EventMessage) {fuel : Nat}
    (guarded : Guarded start future connectId eventHandle info state)
    (enough : info.bev.input.length < fuel) :
    ∃ after reached final complete,
      receiveLoop connectId (handMessage storage) fuel eventHandle state =
        some (after, final, complete) ∧
      Guarded start future connectId after reached final := by
  induction fuel generalizing eventHandle info state with
  | zero => omega
  | succ fuel ih =>
      rcases getReciveBufferLength_counts guarded.ready with ⟨counted, counting, still⟩
      by_cases positive : 0 < toInt info.bev.input.length
      · rcases reciveStrNoWait_received still guarded.cached positive guarded.decodable with
          ⟨after, reached, data, returned, received, ready, outcome⟩
        have stream := guarded.stream
        cases outcome with
        | waiting unread cached free =>
            rw [← unread] at stream
            exact ⟨after, reached, state, false,
              receiveLoop_waiting _ counting positive received, ready, cached, stream,
              guarded.names, guarded.inside⟩
        | payload small unread uncached free shorter =>
            rw [unread, List.append_assoc] at stream
            rcases stream.uncons small with ⟨safe, rest⟩
            have cached := BevInfor.CachedSize.of_uncached uncached
            rcases safe with rfl | safe
            · exact ⟨after, reached, state, false,
                receiveLoop_waiting _ counting positive received, ready, cached, rest,
                guarded.names, guarded.inside⟩
            · rcases guarded.handMessage storage small safe with
                ⟨handled, accepted, handed, names, inside⟩
              have nonempty := safe.large
              rw [receiveLoop_payload counting positive received (by omega), handed,
                Option.bind_some]
              have next : Guarded start future connectId after reached
                  (handled, state.2 ++ [messageOf data]) :=
                ⟨ready, cached, rest, names, inside⟩
              cases accepted with
              | true => exact ih next (by omega)
              | false => exact ⟨after, reached, _, false, rfl, next⟩
      · exact ⟨counted, info, state, true, receiveLoop_idle _ counting positive, still,
          guarded.cached, guarded.stream, guarded.names, guarded.inside⟩

theorem arrive_guarded (storage : Nat → EventMessage) {chunk : Bytes}
    (guarded : Guarded start (chunk ++ future) connectId eventHandle info state) :
    ∃ after reached final,
      eventHandle.arrive connectId (readCallbackMessageFromLibevent storage connectId) state
        chunk = some (after, final) ∧
      Guarded start future connectId after reached final := by
  have unread : (grown info chunk).unread = info.unread ++ chunk := by
    rw [BevInfor.unread, BevInfor.unread, grown]
    by_cases cached : info.cacheBlock = true
    · rw [if_pos cached, if_pos cached, List.append_assoc]
    · rw [if_neg cached, if_neg cached]
  have next : Guarded start future connectId
      (eventHandle.setBevInfor connectId (grown info chunk)) (grown info chunk) state := by
    refine ⟨ready_grown guarded.ready chunk, guarded.cached, ?_, guarded.names,
      guarded.inside⟩
    rw [unread, List.append_assoc]
    exact guarded.stream
  by_cases woken : info.bev.readLow ≤ (info.bev.input ++ chunk).length
  · rcases receiveLoop_guarded storage next (Nat.lt_succ_self _) with
      ⟨after, reached, final, complete, looped, later⟩
    refine ⟨after, reached, final, ?_, later⟩
    rw [arrive_woken guarded.ready _ state woken]
    exact Option.map_eq_some_iff.mpr ⟨_, looped, rfl⟩
  · exact ⟨_, grown info chunk, state, arrive_asleep guarded.ready _ state woken, next⟩

/-- Chunks of a safe stream. -/
theorem receiveChunks_guarded (storage : Nat → EventMessage) {chunks : List Bytes}
    (guarded : Guarded start (chunks.flatten ++ future) connectId eventHandle info state) :
    ∃ after reached final,
      eventHandle.receiveChunks connectId (readCallbackMessageFromLibevent storage connectId)
        state chunks = some (after, final) ∧
      Guarded start future connectId after reached final := by
  induction chunks generalizing eventHandle info state with
  | nil => exact ⟨eventHandle, info, state, rfl, guarded⟩
  | cons chunk rest ih =>
      rw [List.flatten_cons, List.append_assoc] at guarded
      rcases arrive_guarded storage guarded with
        ⟨middle, between, current, arrived, later⟩
      rcases ih later with ⟨after, reached, final, received, last⟩
      refine ⟨after, reached, final, ?_, last⟩
      rw [receiveChunks_cons, arrived]
      exact received

end EventMessageHandle

end MultiMaster.NetIO
