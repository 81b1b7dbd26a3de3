import MultiMaster.NetIO.SafeReception

/-!
# Reaching an unsafe frame

A stream that is not safe has a first unsafe frame.  If the first byte of every frame comes
alone and the rest of it behind, all frames before that one are taken one by one, and the
unsafe frame is taken, too.
-/

namespace MultiMaster.NetIO

open Foundation

namespace LibeventHandle

variable {State : Type} {handler : State → Bytes → Int → Option (State × Bool)}
variable {handle after : LibeventHandle} {connectId : Int} {info : BevInfor} {state : State}
variable {receiver next : Receiver} {payload chunk : Bytes}

/-- A connection as its receiver, between two chunks. -/
def Stands (handle : LibeventHandle) (connectId : Int) (receiver : Receiver) : Prop :=
  ∃ info, handle.Ready connectId info ∧ info.view = receiver ∧ info.Countable

/-- A chunk that completes no payload, or an empty one. -/
theorem arrive_quiet (handler : State → Bytes → Int → Option (State × Bool)) (state : State)
    (stands : Stands handle connectId receiver)
    (fits : receiver.input.length + chunk.length < 2 ^ 31) (arriving : chunk ≠ [])
    (woken : receiver.low ≤ receiver.input.length + chunk.length) {taken : Option Bytes}
    (polled : Receiver.poll controlFormat { receiver with input := receiver.input ++ chunk } =
      some (next, taken))
    (nothing : taken.getD [] = []) :
    ∃ after, handle.arrive connectId (receiveLoop connectId handler) state chunk =
      some (after, state) ∧ Stands after connectId next := by
  rcases stands with ⟨info, ready, rfl, countable⟩
  have available : ¬info.view.input ++ chunk = [] := by simp [arriving]
  have delivered : Receiver.deliver controlFormat info.view chunk = some (next, []) := by
    rw [Receiver.deliver, if_pos (by rw [List.length_append]; exact woken), Receiver.drain,
      if_neg available]
    rw [polled]
    cases taken with
    | none => rfl
    | some bytes =>
        cases nothing
        rfl
  have accepted : acceptAll handler state [] = some state := rfl
  rcases arrive_of_ready ready countable fits delivered accepted with
    ⟨after, reached, arrived, readyNext, seen, countableNext⟩
  exact ⟨after, arrived, reached, readyNext, seen, countableNext⟩

/-- A chunk that completes a payload and ends with it. -/
theorem arrive_payload (handler : State → Bytes → Int → Option (State × Bool)) (state : State)
    (stands : Stands handle connectId receiver)
    (fits : receiver.input.length + chunk.length < 2 ^ 31) (arriving : chunk ≠ [])
    (woken : receiver.low ≤ receiver.input.length + chunk.length)
    (nonempty : payload ≠ [])
    (polled : Receiver.poll controlFormat { receiver with input := receiver.input ++ chunk } =
      some (Receiver.initial, some payload)) :
    (handler state payload payload.length = none →
      handle.arrive connectId (receiveLoop connectId handler) state chunk = none) ∧
    ∀ result, handler state payload payload.length = some result →
      ∃ after, handle.arrive connectId (receiveLoop connectId handler) state chunk =
        some (after, result.1) ∧ Stands after connectId Receiver.initial := by
  rcases stands with ⟨info, ready, rfl, countable⟩
  have readyGrown := ready_grown ready chunk
  have countableGrown := countable_grown countable fits
  rcases getReciveBufferLength_of_ready readyGrown countableGrown with ⟨counted, counting, still⟩
  have length : (grown info chunk).bev.input.length = (info.bev.input ++ chunk).length := by
    rw [grown]
  have positive : 0 < ((grown info chunk).bev.input.length : Int) := by
    have some := List.length_pos_of_ne_nil arriving
    rw [length, List.length_append]
    omega
  rcases reciveStrNoWait_of_ready still countableGrown polled with
    ⟨later, reached, data, returned, received, readyLater, seen, countableLater, rfl, rfl⟩
  have taken : 0 < (data.length : Int) := by
    have some := List.length_pos_of_ne_nil nonempty
    omega
  have wakes : info.bev.readLow ≤ (info.bev.input ++ chunk).length := by
    rw [List.length_append]
    exact woken
  rw [arrive_woken ready _ state wakes, receiveLoop_payload counting positive received taken]
  constructor
  · intro undefined
    rw [undefined]
    rfl
  · intro result handled
    rw [handled, Option.bind_some]
    by_cases accepted : result.2 = true
    · rw [if_pos accepted]
      rcases getReciveBufferLength_of_ready readyLater countableLater with
        ⟨last, countingLast, stillLast⟩
      have empty : reached.bev.input = [] := congrArg Receiver.input seen
      have idle : ¬0 < (reached.bev.input.length : Int) := by simp [empty]
      have fuel : (info.bev.input ++ chunk).length =
          (info.bev.input ++ chunk).length - 1 + 1 := by
        rw [← length]
        omega
      rw [fuel, receiveLoop_idle handler countingLast idle]
      exact ⟨last, rfl, reached, stillLast, seen, countableLater⟩
    · rw [if_neg accepted]
      exact ⟨later, rfl, reached, readyLater, seen, countableLater⟩

/-- A negative size word with a byte behind it. -/
theorem arrive_negative (handler : State → Bytes → Int → Option (State × Bool)) (state : State)
    (stands : Stands handle connectId ⟨payload, 0, none⟩)
    (fits : payload.length + chunk.length < 2 ^ 31)
    (enough : controlBlockSize < payload.length + chunk.length)
    (negative : controlFormat.decode ((payload ++ chunk).take controlBlockSize) = none) :
    handle.arrive connectId (receiveLoop connectId handler) state chunk = none := by
  rcases stands with ⟨info, ready, seen, countable⟩
  have input : info.bev.input = payload := congrArg Receiver.input seen
  have low : info.bev.readLow = 0 := congrArg Receiver.low seen
  have uncached : info.cacheBlock = false := by
    have expected := congrArg Receiver.expected seen
    by_contra cached
    rw [Bool.not_eq_false] at cached
    simp [BevInfor.view, cached] at expected
  have grownInput : (grown info chunk).bev.input = payload ++ chunk := by
    rw [grown, input]
  have count : toInt (grown info chunk).bev.input.length = ((payload ++ chunk).length : Int) := by
    rw [grownInput, toInt_of_lt (by rw [List.length_append]; exact fits)]
  rcases getReciveBufferLength_counts (ready_grown ready chunk) with ⟨counted, counting, still⟩
  have size : toInt (leValue ((grown info chunk).bev.input.take controlBlockSize)) < 0 := by
    rw [grownInput]
    by_contra nonnegative
    rw [controlFormat_decode, if_neg nonnegative] at negative
    cases negative
  have more : (controlBlockSize : Int) < toInt (grown info chunk).bev.input.length := by
    rw [count, List.length_append]
    omega
  have undefined := reciveStrNoWait_negative still uncached more size
  rw [arrive_woken ready _ state (by rw [low]; exact Nat.zero_le _),
    receiveLoop_undefined handler counting (by omega) undefined]
  rfl

/-! ## One frame at a time -/

/-- Behind a control block with a byte after it, the payload is next. -/
theorem poll_header {size low : Nat} (small : size < 2 ^ 31) {rest : Bytes}
    (nonempty : rest ≠ []) :
    Receiver.poll controlFormat ⟨controlFormat.encode size ++ rest, low, none⟩ =
      some (Receiver.takePayload rest size) := by
  have width := controlFormat.length_encode size
  have long : ¬(controlFormat.encode size ++ rest).length ≤ controlFormat.width := by
    have positive := List.length_pos_of_ne_nil nonempty
    rw [List.length_append, width]
    omega
  rw [Receiver.poll, if_neg long]
  simp only [List.take_left' width, List.drop_left' width, controlFormat.decode_encode size small,
    Option.bind_eq_bind, Option.bind_some]
  rfl

theorem takePayload_whole (payload : Bytes) :
    Receiver.takePayload payload payload.length = (Receiver.initial, some payload) := by
  rw [Receiver.takePayload, if_neg (Nat.lt_irrefl _), List.drop_length, List.take_length,
    Receiver.initial]

/-- Between two frames of a run in which the first byte of every frame comes alone: nothing
is left in the input, or an empty frame. -/
def Parked (handle : LibeventHandle) (connectId : Int) : Prop :=
  ∃ pending, (pending = [] ∨ pending = controlFormat.frame []) ∧
    Stands handle connectId ⟨pending, 0, none⟩

/-- A frame in pieces: its first byte, and the rest at once if it is short.  Of a longer one
the control block is completed first. -/
def cutFrame (payload : Bytes) : List Bytes :=
  (controlFormat.frame payload).take 1 ::
    if payload.length ≤ controlBlockSize then [(controlFormat.frame payload).drop 1]
    else [((controlFormat.frame payload).drop 1).take controlBlockSize, payload.drop 1]

/-- A control block is one byte and three more. -/
theorem encode_eq_cons (size : Nat) :
    ∃ first others, controlFormat.encode size = first :: others ∧ others.length = 3 :=
  ⟨_, _, rfl, rfl⟩

/-- The pieces of a frame: in the second one the control block ends. -/
theorem cutFrame_pieces (payload : Bytes) :
    ∃ first others, controlFormat.encode payload.length = first :: others ∧ others.length = 3 ∧
      (payload.length ≤ controlBlockSize ∧ cutFrame payload = [[first], others ++ payload] ∨
        ∃ byte rest, payload = byte :: rest ∧ controlBlockSize ≤ rest.length ∧
          cutFrame payload = [[first], others ++ [byte], rest]) := by
  rcases encode_eq_cons payload.length with ⟨first, others, header, three⟩
  have bytes : controlFormat.frame payload = first :: (others ++ payload) := by
    rw [HeaderFormat.frame, header, List.cons_append]
  refine ⟨first, others, header, three, ?_⟩
  rw [cutFrame, bytes]
  by_cases short : payload.length ≤ controlBlockSize
  · rw [if_pos short]
    exact .inl ⟨short, rfl⟩
  · rw [if_neg short]
    cases payload with
    | nil => exact absurd (Nat.zero_le _) short
    | cons byte rest =>
        have second : (others ++ byte :: rest).take controlBlockSize = others ++ [byte] := by
          rw [List.append_cons, List.take_left']
          rw [List.length_append, three]
          rfl
        refine .inr ⟨byte, rest, rfl, Nat.le_of_lt_succ (Nat.not_le.mp short), ?_⟩
        simp [second]

/-- The first byte of a frame lets an empty frame before it go. -/
theorem arrive_first (handler : State → Bytes → Int → Option (State × Bool)) (state : State)
    (parked : Parked handle connectId) (first : UInt8) :
    ∃ after, handle.arrive connectId (receiveLoop connectId handler) state [first] =
      some (after, state) ∧ Stands after connectId ⟨[first], 0, none⟩ := by
  rcases parked with ⟨pending, which, stands⟩
  rcases which with rfl | rfl
  · exact arrive_quiet handler state stands (by simp) (by simp) (by simp) rfl rfl
  · have polled : Receiver.poll controlFormat
        ⟨controlFormat.frame [] ++ [first], 0, none⟩ = some (⟨[first], 0, none⟩, some []) := by
      rw [HeaderFormat.frame, List.append_nil, List.length_nil,
        poll_header (by omega) (by simp)]
      rfl
    exact arrive_quiet handler state stands (by simp [controlFormat, controlBlockSize]) (by simp)
      (by simp) polled rfl

/-- An empty frame is left in the input. -/
theorem receiveChunks_cutFrame_nil (handler : State → Bytes → Int → Option (State × Bool))
    (state : State) (parked : Parked handle connectId) :
    ∃ after, handle.receiveChunks connectId (receiveLoop connectId handler) state (cutFrame []) =
      some (after, state) ∧ Parked after connectId := by
  rcases encode_eq_cons 0 with ⟨first, others, header, three⟩
  have bytes : controlFormat.frame [] = first :: others := by
    rw [HeaderFormat.frame, List.append_nil, List.length_nil, header]
  have cut : cutFrame [] = [[first], others] := by
    rw [cutFrame, bytes, List.length_nil, if_pos (Nat.zero_le _)]
    rfl
  rcases arrive_first handler state parked first with ⟨middle, arrived, stands⟩
  have polled : Receiver.poll controlFormat ⟨[first] ++ others, 0, none⟩ =
      some (⟨controlFormat.frame [], 0, none⟩, none) := by
    rw [List.singleton_append, ← bytes, Receiver.poll, if_pos]
    rw [HeaderFormat.length_frame]
    exact le_rfl
  rcases arrive_quiet handler state stands (by simp [three])
    (by rintro rfl; cases three) (Nat.zero_le _) polled rfl with ⟨after, rest, parkedLater⟩
  refine ⟨after, ?_, _, .inr rfl, parkedLater⟩
  rw [cut, receiveChunks_cons, arrived, Option.bind_some, receiveChunks_cons, rest]
  rfl

/-- Chunks that make the handler take one payload and leave nothing behind. -/
def HandsOver (handle : LibeventHandle) (connectId : Int)
    (handler : State → Bytes → Int → Option (State × Bool)) (state : State) (payload : Bytes)
    (chunks : List Bytes) : Prop :=
  (handler state payload payload.length = none →
    handle.receiveChunks connectId (receiveLoop connectId handler) state chunks = none) ∧
  ∀ result, handler state payload payload.length = some result →
    ∃ after, handle.receiveChunks connectId (receiveLoop connectId handler) state chunks =
      some (after, result.1) ∧ Parked after connectId

theorem handsOver_last (handler : State → Bytes → Int → Option (State × Bool)) (state : State)
    (stands : Stands handle connectId receiver)
    (fits : receiver.input.length + chunk.length < 2 ^ 31) (arriving : chunk ≠ [])
    (woken : receiver.low ≤ receiver.input.length + chunk.length) (nonempty : payload ≠ [])
    (polled : Receiver.poll controlFormat { receiver with input := receiver.input ++ chunk } =
      some (Receiver.initial, some payload)) :
    HandsOver handle connectId handler state payload [chunk] := by
  rcases arrive_payload handler state stands fits arriving woken nonempty polled with
    ⟨undefined, defined⟩
  rw [HandsOver, receiveChunks_cons]
  constructor
  · intro failed
    rw [undefined failed]
    rfl
  · intro result handled
    rcases defined result handled with ⟨after, last, standsLast⟩
    rw [last]
    exact ⟨after, rfl, [], .inl rfl, standsLast⟩

theorem HandsOver.cons {chunks : List Bytes}
    (arrived : handle.arrive connectId (receiveLoop connectId handler) state chunk =
      some (after, state)) (handsOver : HandsOver after connectId handler state payload chunks) :
    HandsOver handle connectId handler state payload (chunk :: chunks) := by
  rw [HandsOver, receiveChunks_cons, arrived]
  exact handsOver

/-- A frame that is not empty goes to the handler. -/
theorem handsOver_cutFrame (handler : State → Bytes → Int → Option (State × Bool))
    (state : State) (parked : Parked handle connectId) (nonempty : payload ≠ [])
    (small : payload.length < 2 ^ 31) :
    HandsOver handle connectId handler state payload (cutFrame payload) := by
  rcases cutFrame_pieces payload with ⟨first, others, header, three, pieces⟩
  rcases arrive_first handler state parked first with ⟨middle, arrived, stands⟩
  rcases pieces with ⟨short, cut⟩ | ⟨byte, rest, rfl, long, cut⟩
  · rw [cut]
    apply HandsOver.cons arrived
    have polled : Receiver.poll controlFormat ⟨[first] ++ (others ++ payload), 0, none⟩ =
        some (Receiver.initial, some payload) := by
      rw [List.singleton_append, ← List.cons_append, ← header, poll_header small nonempty,
        takePayload_whole]
    apply handsOver_last handler state stands _ (by simp [nonempty]) (Nat.zero_le _) nonempty
      polled
    unfold controlBlockSize at short
    rw [List.length_append, List.length_singleton, three]
    omega
  · rw [cut]
    apply HandsOver.cons arrived
    unfold controlBlockSize at long
    -- The control block is complete and one byte of the payload is there.
    have begun : Receiver.poll controlFormat ⟨[first] ++ (others ++ [byte]), 0, none⟩ =
        some (⟨[byte], (byte :: rest).length, some (byte :: rest).length⟩, none) := by
      rw [List.singleton_append, ← List.cons_append, ← header, poll_header small (by simp),
        Receiver.takePayload, if_pos (by rw [List.length_singleton, List.length_cons]; omega)]
    rcases arrive_quiet handler state stands (by simp [three]) (by simp) (Nat.zero_le _) begun
      rfl with ⟨waiting, completed, standsWaiting⟩
    apply HandsOver.cons completed
    have polled : Receiver.poll controlFormat ⟨[byte] ++ rest, (byte :: rest).length,
        some (byte :: rest).length⟩ = some (Receiver.initial, some (byte :: rest)) := by
      have enough : ¬(byte :: rest).length ≤ controlFormat.width :=
        Nat.not_le.mpr (Nat.lt_succ_of_le long)
      rw [List.singleton_append, Receiver.poll, if_neg enough]
      exact congrArg some (takePayload_whole _)
    have total : [byte].length + rest.length = (byte :: rest).length := by
      simp [Nat.add_comm]
    apply handsOver_last handler state standsWaiting _ _ _ nonempty polled
    · rw [total]
      exact small
    · rintro rfl
      exact absurd long (by simp)
    · rw [total]

theorem flatten_cutFrame (payload : Bytes) :
    (cutFrame payload).flatten = controlFormat.frame payload := by
  rcases cutFrame_pieces payload with ⟨first, others, header, three, pieces⟩
  rw [HeaderFormat.frame, header]
  rcases pieces with ⟨_, cut⟩ | ⟨byte, rest, rfl, _, cut⟩
  · simp [cut]
  · simp [cut]

theorem ne_nil_of_mem_cutFrame (member : chunk ∈ cutFrame payload) : chunk ≠ [] := by
  rcases cutFrame_pieces payload with ⟨first, others, header, three, pieces⟩
  have more : others ≠ [] := by
    rintro rfl
    cases three
  rcases pieces with ⟨_, cut⟩ | ⟨byte, rest, _, long, cut⟩
  · rw [cut, List.mem_cons, List.mem_singleton] at member
    rcases member with rfl | rfl
    · simp
    · simp [more]
  · rw [cut, List.mem_cons, List.mem_cons, List.mem_singleton] at member
    rcases member with rfl | rfl | rfl
    · simp
    · simp
    · rintro rfl
      exact absurd long (by simp [controlBlockSize])

theorem Parked.of_fresh (ready : handle.Ready connectId info) (fresh : info.Fresh) :
    Parked handle connectId :=
  ⟨[], .inl rfl, info, ready, fresh.view_eq, fresh.countable⟩

/-- A negative size word, its first byte alone. -/
theorem receiveChunks_negative (handler : State → Bytes → Int → Option (State × Bool))
    (state : State) (parked : Parked handle connectId) {stream : Bytes}
    (enough : controlBlockSize < stream.length)
    (negative : controlFormat.decode (stream.take controlBlockSize) = none) :
    handle.receiveChunks connectId (receiveLoop connectId handler) state
      [stream.take 1, (stream.drop 1).take controlBlockSize] = none := by
  cases stream with
  | nil => exact absurd enough (Nat.not_lt_zero _)
  | cons first rest =>
      rcases arrive_first handler state parked first with ⟨middle, arrived, stands⟩
      have length : (rest.take controlBlockSize).length = controlBlockSize := by
        rw [List.length_cons] at enough
        rw [List.length_take]
        omega
      have size : ([first] ++ rest.take controlBlockSize).take controlBlockSize =
          (first :: rest).take controlBlockSize := by
        simp [controlBlockSize, List.take_take]
      have undefined := arrive_negative handler state stands
        (by rw [length, List.length_singleton, controlBlockSize]; omega)
        (by rw [length, List.length_singleton]; omega) (by rw [size]; exact negative)
      rw [receiveChunks_cons]
      change (handle.arrive connectId _ state [first]).bind _ = _
      rw [arrived, Option.bind_some, receiveChunks_cons]
      change (middle.arrive connectId _ state (rest.take controlBlockSize)).bind _ = _
      rw [undefined]
      rfl

end LibeventHandle

namespace EventMessageHandle

open LibeventHandle

variable {Callback Arg : Type} {start : EventMessageHandle Callback Arg}
variable {eventHandle : LibeventHandle} {connectId : Int} {info : BevInfor}
variable {state : EventMessageHandle Callback Arg × List EventMessage} {stream : Bytes}

/-! ## The first unsafe frame -/

/-- The stream begins with a negative size word or with an unsafe frame. -/
inductive BeginsUnsafe (handle : EventMessageHandle Callback Arg) : Bytes → Prop where
  | negative {stream : Bytes} (enough : controlBlockSize < stream.length)
      (undecodable : controlFormat.decode (stream.take controlBlockSize) = none) :
      BeginsUnsafe handle stream
  | frame {payload rest : Bytes} (small : payload.length < 2 ^ 31) (nonempty : payload ≠ [])
      (unsafeFrame : ¬handle.SafeFrame payload) :
      BeginsUnsafe handle (controlFormat.frame payload ++ rest)

/-- A complete frame at the front of a stream. -/
theorem exists_frame {size : Nat} (enough : controlBlockSize < stream.length)
    (decoded : controlFormat.decode (stream.take controlBlockSize) = some size)
    (complete : controlBlockSize + size ≤ stream.length) :
    ∃ payload rest, stream = controlFormat.frame payload ++ rest ∧ payload.length = size ∧
      size < 2 ^ 31 := by
  rw [controlFormat_decode] at decoded
  split at decoded
  · cases decoded
  · next nonnegative =>
    have header := encode_toInt enough (Int.not_lt.mp nonnegative)
    have below := toInt_lt (leValue (stream.take controlBlockSize))
    rw [Option.some.injEq] at decoded
    rw [decoded] at header
    have length : ((stream.drop controlBlockSize).take size).length = size := by
      rw [List.length_take, List.length_drop]
      omega
    refine ⟨(stream.drop controlBlockSize).take size, (stream.drop controlBlockSize).drop size,
      ?_, length, by omega⟩
    rw [HeaderFormat.frame, length, header, List.append_assoc, List.take_append_drop,
      List.take_append_drop]

/-- A stream that is not safe has safe frames up to where it begins to be unsafe. -/
theorem exists_beginsUnsafe (broken : ¬start.SafeStream stream) :
    ∃ payloads rest, stream = controlFormat.frames payloads ++ rest ∧
      (∀ payload ∈ payloads, payload.length < 2 ^ 31 ∧
        (payload = [] ∨ start.SafeFrame payload)) ∧
      start.BeginsUnsafe rest := by
  induction length : stream.length using Nat.strong_induction_on generalizing stream with
  | _ count ih =>
      by_cases few : stream.length ≤ controlBlockSize
      · exact absurd (.short few) broken
      · have enough := Nat.not_le.mp few
        cases decoded : controlFormat.decode (stream.take controlBlockSize) with
        | none => exact ⟨[], stream, rfl, by simp, .negative enough decoded⟩
        | some size =>
            by_cases missing : stream.length < controlBlockSize + size
            · exact absurd (.incomplete decoded missing) broken
            · rcases exists_frame enough decoded (Nat.not_lt.mp missing) with
                ⟨payload, rest, rfl, rfl, small⟩
              by_cases safe : payload = [] ∨ start.SafeFrame payload
              · have later : ¬start.SafeStream rest := fun remaining =>
                  broken (.frame small safe remaining)
                have shorter : rest.length < count := by
                  rw [← length, List.length_append, length_controlFrame]
                  unfold controlBlockSize
                  omega
                rcases ih _ shorter later rfl with ⟨payloads, last, rfl, safes, begins⟩
                refine ⟨payload :: payloads, last, ?_, ?_, begins⟩
                · rw [HeaderFormat.frames_cons, List.append_assoc]
                · intro other member
                  rcases List.mem_cons.mp member with rfl | inside
                  · exact ⟨small, safe⟩
                  · exact safes other inside
              · rw [not_or] at safe
                exact ⟨[], _, rfl, by simp, .frame small safe.1 safe.2⟩

/-- Safe frames are taken one by one. -/
theorem receiveChunks_frames (storage : Nat → EventMessage) {payloads : List Bytes}
    (parked : Parked eventHandle connectId) (names : SameNames start state.1)
    (safes : ∀ payload ∈ payloads, payload.length < 2 ^ 31 ∧
      (payload = [] ∨ start.SafeFrame payload)) :
    ∃ after final, eventHandle.receiveChunks connectId
        (readCallbackMessageFromLibevent storage connectId) state (payloads.flatMap cutFrame) =
          some (after, final) ∧
      Parked after connectId ∧ SameNames start final.1 := by
  induction payloads generalizing eventHandle state with
  | nil => exact ⟨eventHandle, state, rfl, parked, names⟩
  | cons payload rest ih =>
      rcases safes payload List.mem_cons_self with ⟨small, safe⟩
      have later : ∀ other ∈ rest, other.length < 2 ^ 31 ∧
          (other = [] ∨ start.SafeFrame other) :=
        fun other member => safes other (List.mem_cons_of_mem _ member)
      have first : ∃ after final, eventHandle.receiveChunks connectId
          (readCallbackMessageFromLibevent storage connectId) state (cutFrame payload) =
            some (after, final) ∧
          Parked after connectId ∧ SameNames start final.1 := by
        rcases safe with rfl | safe
        · rcases receiveChunks_cutFrame_nil (handMessage storage) state parked with
            ⟨after, received, parkedLater⟩
          exact ⟨after, state, received, parkedLater, names⟩
        · have nonempty : payload ≠ [] := by
            rintro rfl
            exact absurd safe.large (Nat.not_lt_zero _)
          rcases (safeFrame_iff (by omega)).mp safe with ⟨accepted, decided, _⟩
          rcases handMessage_decided storage state.2
            ((names.verdict_eq (messageOf payload)).trans decided) with ⟨handled, handed, same⟩
          rcases (handsOver_cutFrame (handMessage storage) state parked nonempty small).2 _
            handed with ⟨after, received, parkedLater⟩
          exact ⟨after, _, received, parkedLater, names.trans same⟩
      rcases first with ⟨middle, current, received, parkedMiddle, namesMiddle⟩
      rcases ih parkedMiddle namesMiddle later with ⟨after, final, rest, parkedLater, namesLater⟩
      refine ⟨after, final, ?_, parkedLater, namesLater⟩
      rw [List.flatMap_cons, receiveChunks_append, received, Option.bind_some]
      exact rest

/-- The chunks that lead to where a stream begins to be unsafe. -/
theorem cutPrefix_frames {payloads : List Bytes} {chunks : List Bytes} {rest : Bytes}
    (cut : CutPrefix chunks rest) :
    CutPrefix (payloads.flatMap cutFrame ++ chunks) (controlFormat.frames payloads ++ rest) := by
  refine ⟨?_, ?_⟩
  · intro chunk member
    rcases List.mem_append.mp member with early | late
    · rcases List.mem_flatMap.mp early with ⟨payload, _, piece⟩
      exact ne_nil_of_mem_cutFrame piece
    · exact cut.nonempty chunk late
  · have bytes : (payloads.flatMap cutFrame).flatten = controlFormat.frames payloads := by
      induction payloads with
      | nil => rfl
      | cons payload others ih =>
          rw [List.flatMap_cons, List.flatten_append, ih, flatten_cutFrame,
            HeaderFormat.frames_cons]
    rw [List.flatten_append, bytes]
    exact (List.prefix_append_right_inj _).mpr cut.within

/-- A size word with a byte behind it, the first byte alone. -/
theorem cutPrefix_header (enough : controlBlockSize < stream.length) :
    CutPrefix [stream.take 1, (stream.drop 1).take controlBlockSize] stream := by
  unfold controlBlockSize at *
  constructor
  · intro chunk member empty
    have length := congrArg List.length empty
    rw [List.mem_cons, List.mem_singleton] at member
    rcases member with rfl | rfl
    · rw [List.length_take, List.length_nil] at length
      omega
    · rw [List.length_take, List.length_drop, List.length_nil] at length
      omega
  · rw [List.flatten_cons, List.flatten_singleton]
    conv_rhs => rw [← List.take_append_drop 1 stream]
    exact (List.prefix_append_right_inj _).mpr (List.take_prefix _ _)

/-- A stream that begins to be unsafe is not received safely by chunks that end there. -/
theorem BeginsUnsafe.exists_chunks (begins : start.BeginsUnsafe stream)
    (storage : Nat → EventMessage) (parked : Parked eventHandle connectId)
    (names : SameNames start state.1) :
    ∃ chunks, CutPrefix chunks stream ∧
      ∀ after final, eventHandle.receiveChunks connectId
          (readCallbackMessageFromLibevent storage connectId) state chunks =
            some (after, final) →
        ∃ mess ∈ final.2, start.verdict mess = some true ∧ ¬mess.Inside := by
  cases begins with
  | negative enough undecodable =>
      refine ⟨_, cutPrefix_header enough, ?_⟩
      intro after final received
      rw [readCallbackMessageFromLibevent,
        receiveChunks_negative _ state parked enough undecodable] at received
      cases received
  | @frame payload rest small nonempty unsafeFrame =>
      have handsOver := handsOver_cutFrame (handMessage storage) state parked nonempty small
      refine ⟨cutFrame payload, ⟨fun _ => ne_nil_of_mem_cutFrame, ?_⟩, ?_⟩
      · rw [flatten_cutFrame]
        exact List.prefix_append _ _
      · intro after final received
        rw [readCallbackMessageFromLibevent] at received
        rcases handMessage_unsafe (by omega) unsafeFrame names storage state.2 with
          undefined | ⟨result, handed, member, accepted, outside⟩
        · rw [handsOver.1 undefined] at received
          cases received
        · rcases handsOver.2 result handed with ⟨reached, taken, _⟩
          rw [taken] at received
          cases received
          exact ⟨messageOf payload, member, accepted, outside⟩

/-! ## All streams -/

/-- Whatever the chunks, a stream is received safely exactly if none of its size words is
negative and each of its frames is empty or safe. -/
theorem receivedSafely_iff_safeStream (ready : eventHandle.Ready connectId info)
    (fresh : info.Fresh) (storage : Nat → EventMessage) :
    (∀ chunks, CutPrefix chunks stream →
        start.ReceivedSafely storage eventHandle connectId chunks) ↔
      start.SafeStream stream := by
  constructor
  · intro received
    by_contra broken
    rcases exists_beginsUnsafe broken with ⟨payloads, rest, rfl, safes, begins⟩
    have initial : SameNames start (start, ([] : List EventMessage)).1 := .refl
    rcases receiveChunks_frames storage (Parked.of_fresh ready fresh) initial safes with
      ⟨middle, current, taken, parked, names⟩
    rcases begins.exists_chunks storage parked names with ⟨chunks, cut, unsafely⟩
    rcases received _ (cutPrefix_frames cut) with ⟨⟨after, final⟩, reached, inside⟩
    rw [receiveChunks_append, taken, Option.bind_some] at reached
    rcases unsafely after final reached with ⟨mess, member, accepted, outside⟩
    exact outside (inside mess member accepted)
  · rintro safe chunks ⟨-, tail, rfl⟩
    have unread : info.unread = [] := by
      rw [BevInfor.unread, fresh.uncached, if_neg (by simp), fresh.input]
    have guarded : Guarded start (chunks.flatten ++ tail) connectId eventHandle info
        (start, []) := by
      refine ⟨ready, .of_uncached fresh.uncached, ?_, .refl, by simp⟩
      rw [unread]
      exact safe
    rcases receiveChunks_guarded storage guarded with ⟨after, reached, final, received, last⟩
    exact ⟨_, received, last.inside⟩

/-- The frame of a lock reply as `sendMessage` writes it. -/
def replyFrame : Bytes :=
  MessageFields.encode ⟨replyKey.1, replyKey.2, .ofString "server", .ofString "host1", [7]⟩

theorem replyFrame_safe : lockGroupHandle.SafeFrame replyFrame := by
  have offsets : OffsetsInside replyFrame := ⟨by decide +kernel, by decide +kernel⟩
  refine ⟨by decide +kernel, by decide +kernel, ?_, fun _ _ _ _ _ => offsets⟩
  intro groupName _ _
  decide +kernel

/-- A lock reply in two pieces, with an empty frame behind it. -/
theorem receivedSafely_iff_safeStream_reply :
    lockGroupHandle.ReceivedSafely (fun _ => .clear) oneConnection 0
      [(controlFormat.frame replyFrame).take 6,
        (controlFormat.frame replyFrame).drop 6 ++ [0, 0, 0, 0]] := by
  have small : replyFrame.length < 2 ^ 31 := by decide +kernel
  have safe : lockGroupHandle.SafeStream (controlFormat.frame replyFrame ++ [0, 0, 0, 0]) :=
    .frame small (.inr replyFrame_safe) (.short (by decide))
  exact (receivedSafely_iff_safeStream oneConnection_ready newConnection_fresh _).mpr safe _
    ⟨by decide +kernel, by decide +kernel⟩

/-- A frame of one byte: `check_mess_type` looks up a group name that was never set. -/
theorem oneByte_unsafe :
    CutPrefix [[1, 0, 0, 0, 7]] [1, 0, 0, 0, 7] ∧
      ¬lockGroupHandle.ReceivedSafely (fun _ => .clear) oneConnection 0 [[1, 0, 0, 0, 7]] := by
  have undefined : (oneConnection.receiveChunks 0
      (readCallbackMessageFromLibevent (fun _ => .clear) 0) (lockGroupHandle, [])
      [[1, 0, 0, 0, 7]]).isNone := by decide +kernel
  refine ⟨⟨by decide, List.prefix_rfl⟩, ?_⟩
  rintro ⟨final, received, _⟩
  rw [received] at undefined
  cases undefined

end EventMessageHandle

end MultiMaster.NetIO
