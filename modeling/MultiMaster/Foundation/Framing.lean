import Mathlib.Data.List.Infix
import MultiMaster.Foundation.Bytes
import MultiMaster.Foundation.Machine

/-!
# Length-prefixed frames on a byte stream

A sender puts a header with the payload's size before every payload.  The bytes
reach the receiver in chunks that need not respect frames.

The receiver keeps a decoded header until its payload is complete, asks with a
low watermark to be woken no earlier, and looks at its input only when that holds
more than a header's worth of bytes.  The module determines what such a receiver
has handed out after any sequence of chunks, and the one way in which the end of
a stream can remain in its input.
-/

namespace MultiMaster.Foundation

/-- Headers of fixed width that carry the size of the payload behind them. -/
structure HeaderFormat where
  width : Nat
  limit : Nat
  encode : Nat → Bytes
  decode : Bytes → Option Nat
  length_encode : ∀ size, (encode size).length = width
  decode_encode : ∀ size, size < limit → decode (encode size) = some size

namespace HeaderFormat

variable (format : HeaderFormat)

/-- A payload behind its header. -/
def frame (payload : Bytes) : Bytes := format.encode payload.length ++ payload

/-- The stream that carries a list of payloads. -/
def frames (payloads : List Bytes) : Bytes := payloads.flatMap format.frame

@[simp] theorem length_frame (payload : Bytes) :
    (format.frame payload).length = format.width + payload.length := by
  rw [frame, List.length_append, format.length_encode]

@[simp] theorem frames_nil : format.frames [] = [] := rfl

@[simp] theorem frames_cons (payload : Bytes) (rest : List Bytes) :
    format.frames (payload :: rest) = format.frame payload ++ format.frames rest := by
  rw [frames, List.flatMap_cons]
  rfl

@[simp] theorem frames_append (first second : List Bytes) :
    format.frames (first ++ second) = format.frames first ++ format.frames second := by
  rw [frames, List.flatMap_append]
  rfl

/-- Of the payloads, `done` are the longest prefix whose frames have arrived. -/
def LongestArrived (payloads done : List Bytes) (arrived : Bytes) : Prop :=
  done <+: payloads ∧
    ∀ initial, initial <+: payloads →
      (initial <+: done ↔ format.frames initial <+: arrived)

end HeaderFormat

/-! ## The receiver -/

/-- Undelivered input, the low watermark and a header read ahead of its payload. -/
structure Receiver where
  input : Bytes
  low : Nat
  expected : Option Nat
  deriving DecidableEq

namespace Receiver

variable (format : HeaderFormat)

/-- Nothing has arrived. -/
def initial : Receiver := ⟨[], 0, none⟩

/-- Hand out the payload of a known size, or wait for it. -/
def takePayload (input : Bytes) (size : Nat) : Receiver × Option Bytes :=
  if input.length < size then
    (⟨input, size, some size⟩, none)
  else
    (⟨input.drop size, 0, none⟩, some (input.take size))

/-- One attempt to receive.  `none` is a header that cannot be decoded. -/
def poll (receiver : Receiver) : Option (Receiver × Option Bytes) :=
  if receiver.input.length ≤ format.width then
    some (receiver, none)
  else
    match receiver.expected with
    | some size => some (takePayload receiver.input size)
    | none => do
        let size ← format.decode (receiver.input.take format.width)
        return takePayload (receiver.input.drop format.width) size

/-- Receive while there is input and payloads come out. -/
def drain : Nat → Receiver → Option (Receiver × List Bytes)
  | 0, _ => none
  | fuel + 1, receiver =>
      if receiver.input = [] then
        some (receiver, [])
      else do
        match ← poll format receiver with
        | (next, none) => return (next, [])
        | (next, some []) => return (next, [])
        | (next, some (byte :: payload)) =>
            let rest ← drain fuel next
            return (rest.1, (byte :: payload) :: rest.2)

/-- A chunk arrives.  The receiver runs when its watermark is reached. -/
def deliver (receiver : Receiver) (chunk : Bytes) : Option (Receiver × List Bytes) :=
  let arrived := { receiver with input := receiver.input ++ chunk }
  if arrived.low ≤ arrived.input.length then
    drain format (arrived.input.length + 1) arrived
  else
    some (arrived, [])

/-! ## Where a receiver stands in the stream -/

/-- `pending` are the bytes of the frames of `rest` that have arrived. -/
inductive Aligned (receiver : Receiver) : List Bytes → Bytes → Prop where
  | header {rest : List Bytes} (expected : receiver.expected = none) :
      Aligned receiver rest receiver.input
  | payload {payload : Bytes} {rest : List Bytes}
      (expected : receiver.expected = some payload.length) :
      Aligned receiver (payload :: rest) (format.encode payload.length ++ receiver.input)

/-- The watermark is the size of the payload waited for. -/
def LowMatches (receiver : Receiver) : Prop := receiver.low = receiver.expected.getD 0

/-- The receiver has stopped for lack of input. -/
def Starved (receiver : Receiver) : Prop :=
  match receiver.expected with
  | none => receiver.input.length ≤ format.width
  | some size => receiver.input ≠ [] ∧
      (receiver.input.length < size ∨ receiver.input.length ≤ format.width)

/-- The sizes a header can carry. -/
def Sized (payloads : List Bytes) : Prop :=
  ∀ payload ∈ payloads, 0 < payload.length ∧ payload.length < format.limit

/-- The receiver between two chunks. -/
structure Standing (receiver : Receiver) (rest : List Bytes) (pending : Bytes) : Prop where
  aligned : Aligned format receiver rest pending
  low : receiver.LowMatches
  starved : receiver.Starved format
  within : pending <+: format.frames rest
  sized : Sized format rest

variable {format}
variable {receiver : Receiver} {rest : List Bytes} {pending : Bytes}

/-- A stream that is long enough begins with the frame or payload it must begin with. -/
theorem exists_eq_append_of_prefix {front tail stream : Bytes}
    (within : stream <+: front ++ tail) (long : front.length ≤ stream.length) :
    ∃ remaining, stream = front ++ remaining ∧ remaining <+: tail := by
  have starts : front <+: stream :=
    List.prefix_of_prefix_length_le (List.prefix_append front tail) within long
  rcases starts with ⟨remaining, rfl⟩
  exact ⟨remaining, rfl, (List.prefix_append_right_inj front).mp within⟩

/-- What one attempt does: it starves, or hands out the next payload. -/
inductive PollOutcome (format : HeaderFormat) (receiver : Receiver) (rest : List Bytes)
    (pending : Bytes) : Receiver × Option Bytes → Prop where
  | starved {next : Receiver} (aligned : Aligned format next rest pending)
      (low : next.LowMatches) (starved : next.Starved format)
      (short : ∀ size, next.expected = some size → size ≤ next.input.length →
        next = receiver) :
      PollOutcome format receiver rest pending (next, none)
  | handed {payload remaining : Bytes} {later : List Bytes}
      (first : rest = payload :: later)
      (consumed : pending = format.frame payload ++ remaining)
      (shorter : remaining.length < receiver.input.length) :
      PollOutcome format receiver rest pending (⟨remaining, 0, none⟩, some payload)

theorem takePayload_outcome {input payload : Bytes} {later : List Bytes}
    (available : input ≠ []) (bounded : input.length ≤ receiver.input.length)
    (positive : 0 < payload.length)
    (within : input <+: payload ++ format.frames later) :
    PollOutcome format receiver (payload :: later)
      (format.encode payload.length ++ input) (takePayload input payload.length) := by
  by_cases short : input.length < payload.length
  · rw [takePayload, if_pos short]
    refine .starved (.payload rfl) rfl ⟨available, .inl short⟩ ?_
    intro size expected complete
    cases expected
    exact absurd short (Nat.not_lt.mpr complete)
  · rcases exists_eq_append_of_prefix within (Nat.not_lt.mp short) with
      ⟨remaining, rfl, _⟩
    rw [takePayload, if_neg short, List.take_left, List.drop_left]
    refine .handed rfl ?_ ?_
    · rw [HeaderFormat.frame, List.append_assoc]
    · rw [List.length_append] at bounded
      omega

theorem poll_outcome (aligned : Aligned format receiver rest pending)
    (low : receiver.LowMatches) (within : pending <+: format.frames rest)
    (sized : Sized format rest) (available : receiver.input ≠ []) :
    ∃ outcome, poll format receiver = some outcome ∧
      PollOutcome format receiver rest pending outcome := by
  by_cases few : receiver.input.length ≤ format.width
  · refine ⟨(receiver, none), by rw [poll, if_pos few],
      .starved aligned low ?_ fun _ _ _ => rfl⟩
    rw [Starved]
    cases receiver.expected with
    | none => exact few
    | some size => exact ⟨available, .inr few⟩
  · cases aligned with
    | header expected =>
        cases rest with
        | nil =>
            rw [HeaderFormat.frames_nil, List.prefix_nil] at within
            exact absurd within available
        | cons payload later =>
            have size := sized payload (by simp)
            rw [HeaderFormat.frames_cons, HeaderFormat.frame, List.append_assoc] at within
            rcases exists_eq_append_of_prefix within (by rw [format.length_encode]; omega)
              with ⟨input, split, inside⟩
            have decoded : poll format receiver =
                some (takePayload input payload.length) := by
              rw [poll, if_neg few, expected, split]
              simp [← format.length_encode payload.length, format.decode_encode _ size.2]
            refine ⟨_, decoded, ?_⟩
            rw [split]
            apply takePayload_outcome _ _ size.1 inside
            · rintro rfl
              rw [split, List.append_nil, format.length_encode] at few
              exact few (Nat.le_refl _)
            · rw [split, List.length_append]
              omega
    | payload expected =>
        rename_i payload later
        have size := sized payload (by simp)
        rw [HeaderFormat.frames_cons, HeaderFormat.frame, List.append_assoc,
          List.prefix_append_right_inj] at within
        refine ⟨takePayload receiver.input payload.length,
          by rw [poll, if_neg few, expected], ?_⟩
        exact takePayload_outcome available (Nat.le_refl _) size.1 within

/-- Draining hands out the payloads that have arrived and starves.  It leaves a
complete payload behind only if it did not move at all. -/
theorem drain_standing (aligned : Aligned format receiver rest pending)
    (low : receiver.LowMatches) (within : pending <+: format.frames rest)
    (sized : Sized format rest) (available : receiver.expected ≠ none → receiver.input ≠ [])
    {fuel : Nat} (enough : receiver.input.length < fuel) :
    ∃ next handed later remaining, drain format fuel receiver = some (next, handed) ∧
      rest = handed ++ later ∧ pending = format.frames handed ++ remaining ∧
      Standing format next later remaining ∧
      ∀ size, next.expected = some size → size ≤ next.input.length → next = receiver := by
  induction fuel generalizing receiver rest pending with
  | zero => exact absurd enough (Nat.not_lt_zero _)
  | succ fuel ih =>
      by_cases empty : receiver.input = []
      · have unread : receiver.expected = none := by
          by_contra reading
          exact available reading empty
        refine ⟨receiver, [], rest, pending, by rw [drain, if_pos empty], rfl, rfl,
          ⟨aligned, low, ?_, within, sized⟩, fun _ _ _ => rfl⟩
        simp [Starved, unread, empty]
      · rcases poll_outcome aligned low within sized empty with ⟨outcome, polled, effect⟩
        rw [drain, if_neg empty, polled]
        cases effect with
        | starved nextAligned nextLow nextStarved short =>
            exact ⟨_, [], rest, pending, rfl, rfl, rfl,
              ⟨nextAligned, nextLow, nextStarved, within, sized⟩, short⟩
        | @handed payload remaining later first consumed shorter =>
            subst first consumed
            have positive := (sized payload (by simp)).1
            rw [HeaderFormat.frames_cons, List.prefix_append_right_inj] at within
            have unread : Aligned format ⟨remaining, 0, none⟩ later remaining := .header rfl
            rcases ih unread rfl within
              (fun other member => sized other (List.mem_cons_of_mem _ member))
              (fun reading => absurd rfl reading) (Nat.lt_of_lt_of_le shorter (by omega)) with
              ⟨next, handed, last, left, drained, split, bytes, standing, short⟩
            have behind : ∀ size, next.expected = some size →
                size ≤ next.input.length → next = receiver := by
              intro size expected complete
              rw [short size expected complete] at expected
              cases expected
            cases payload with
            | nil => simp at positive
            | cons byte payload =>
                refine ⟨next, (byte :: payload) :: handed, last, left, ?_, ?_, ?_,
                  standing, behind⟩
                · simp [drained]
                · rw [split, List.cons_append]
                · rw [bytes, HeaderFormat.frames_cons, List.append_assoc]

/-- Bytes that arrive belong behind those that have. -/
theorem Aligned.arrive (aligned : Aligned format receiver rest pending) (chunk : Bytes) :
    Aligned format { receiver with input := receiver.input ++ chunk } rest (pending ++ chunk) := by
  cases aligned with
  | header expected => exact .header expected
  | payload expected =>
      rw [List.append_assoc]
      exact .payload expected

/-- Without a header read ahead, the input is what is pending. -/
theorem Aligned.pending_eq (aligned : Aligned format receiver rest pending)
    (unread : receiver.expected = none) : pending = receiver.input := by
  cases aligned with
  | header expected => rfl
  | payload expected =>
      rw [unread] at expected
      cases expected

/-- Besides the input at most one header is pending. -/
theorem Aligned.length_le (aligned : Aligned format receiver rest pending) :
    pending.length ≤ format.width + receiver.input.length := by
  cases aligned with
  | header expected => exact Nat.le_add_left _ _
  | payload expected => rw [List.length_append, format.length_encode]

/-- A receiver that is not woken waits for a payload. -/
theorem asleep_starved {chunk : Bytes} (low : receiver.LowMatches) (arriving : chunk ≠ [])
    (asleep : ¬receiver.low ≤ (receiver.input ++ chunk).length) :
    Starved format { receiver with input := receiver.input ++ chunk } := by
  rw [LowMatches] at low
  rw [Starved]
  cases expected : receiver.expected with
  | none =>
      rw [expected] at low
      exact absurd (low ▸ Nat.zero_le _) asleep
  | some size =>
      rw [expected] at low
      refine ⟨by simp [arriving], .inl ?_⟩
      rw [low] at asleep
      exact Nat.not_le.mp asleep

/-- A chunk of the stream moves the receiver on by what it hands out. -/
theorem deliver_standing {chunk : Bytes} (standing : Standing format receiver rest pending)
    (arriving : chunk ≠ []) (inside : pending ++ chunk <+: format.frames rest) :
    ∃ next handed later remaining, deliver format receiver chunk = some (next, handed) ∧
      rest = handed ++ later ∧ pending ++ chunk = format.frames handed ++ remaining ∧
      Standing format next later remaining ∧
      ∀ size, next.expected = some size → size ≤ next.input.length →
        next = { receiver with input := receiver.input ++ chunk } := by
  have aligned := standing.aligned.arrive chunk
  by_cases woken : receiver.low ≤ (receiver.input ++ chunk).length
  · rw [deliver, if_pos woken]
    exact drain_standing aligned standing.low inside standing.sized
      (fun _ => by simp [arriving]) (Nat.lt_succ_self _)
  · exact ⟨_, [], rest, pending ++ chunk, by rw [deliver, if_neg woken], rfl, rfl,
      ⟨aligned, standing.low, asleep_starved standing.low arriving woken, inside,
        standing.sized⟩, fun _ _ _ => rfl⟩

theorem standing_initial (sized : Sized format rest) :
    Standing format initial rest [] :=
  ⟨.header rfl, rfl, Nat.zero_le _, List.nil_prefix, sized⟩

/-! ## What has been handed out -/

/-- While a payload larger than a header is due, its frame has not fully arrived. -/
theorem Standing.incomplete {payload : Bytes}
    (standing : Standing format receiver (payload :: rest) pending)
    (large : format.width < payload.length) :
    pending.length < (format.frame payload).length := by
  have starved := standing.starved
  rw [Starved] at starved
  rw [HeaderFormat.length_frame]
  cases standing.aligned with
  | header expected =>
      rw [expected] at starved
      have few : receiver.input.length ≤ format.width := starved
      omega
  | payload expected =>
      rw [expected] at starved
      rw [List.length_append, format.length_encode]
      rcases starved.2 with short | few
      · omega
      · omega

/-- When every payload is larger than a header, exactly the complete ones have
been handed out. -/
theorem Standing.longestArrived {done : List Bytes}
    (standing : Standing format receiver rest pending)
    (large : ∀ payload ∈ rest, format.width < payload.length) :
    format.LongestArrived (done ++ rest) done (format.frames done ++ pending) := by
  refine ⟨List.prefix_append _ _, ?_⟩
  intro initial among
  constructor
  · rintro ⟨more, rfl⟩
    rw [HeaderFormat.frames_append, List.append_assoc]
    exact List.prefix_append _ _
  · intro arrived
    rcases List.prefix_or_prefix_of_prefix among (List.prefix_append done rest) with
      shorter | ⟨more, rfl⟩
    · exact shorter
    · rw [List.prefix_append_right_inj] at among
      rw [HeaderFormat.frames_append, List.prefix_append_right_inj] at arrived
      cases more with
      | nil => simp
      | cons payload more =>
          rcases among with ⟨later, rfl⟩
          have next : Standing format receiver (payload :: (more ++ later)) pending := standing
          have due := next.incomplete (large payload (by simp))
          have length := arrived.length_le
          rw [HeaderFormat.frames_cons, List.length_append] at length
          omega

/-- At the end of the stream at most the last payload is left, and only if it is
no larger than a header. -/
theorem Standing.end_of_stream (standing : Standing format receiver rest pending)
    (whole : pending = format.frames rest) :
    rest = [] ∨ ∃ last, rest = [last] ∧ last.length ≤ format.width ∧
      receiver.expected = some last.length ∧ receiver.input = last := by
  have starved := standing.starved
  rw [Starved] at starved
  cases rest with
  | nil => exact .inl rfl
  | cons payload later =>
      right
      have size := standing.sized payload (by simp)
      cases standing.aligned with
      | header expected =>
          rw [expected] at starved
          have few : receiver.input.length ≤ format.width := starved
          rw [whole] at few
          simp only [HeaderFormat.frames_cons, List.length_append,
            HeaderFormat.length_frame] at few
          omega
      | payload expected =>
          rw [expected] at starved
          rw [HeaderFormat.frames_cons, HeaderFormat.frame, List.append_assoc] at whole
          have input := List.append_cancel_left whole
          rw [input, List.length_append] at starved
          have few : payload.length + (format.frames later).length ≤ format.width := by
            rcases starved.2 with short | few
            · omega
            · exact few
          cases later with
          | nil =>
              refine ⟨payload, rfl, by simpa using few, expected, by simpa using input⟩
          | cons next later =>
              simp only [HeaderFormat.frames_cons, List.length_append,
                HeaderFormat.length_frame] at few
              omega

/-- Before a last chunk that does not bring the whole of a small last payload, that
payload's header has been read and part of it is in the input. -/
theorem Standing.header_read {front : List Bytes} {last chunk : Bytes}
    (standing : Standing format receiver (front ++ [last]) pending)
    (whole : pending ++ chunk = format.frames (front ++ [last]))
    (cut : chunk.length < last.length) :
    front = [] ∧ receiver.expected = some last.length ∧ receiver.input ++ chunk = last := by
  have starved := standing.starved
  rw [Starved] at starved
  have length := congrArg List.length whole
  simp only [HeaderFormat.frames_append, HeaderFormat.frames_cons, HeaderFormat.frames_nil,
    List.length_append, HeaderFormat.length_frame, List.length_nil] at length
  cases front with
  | nil =>
      rw [List.nil_append] at standing
      cases standing.aligned with
      | header expected =>
          rw [expected] at starved
          have few : receiver.input.length ≤ format.width := starved
          simp only [HeaderFormat.frames_nil, List.length_nil] at length
          omega
      | payload expected =>
          simp only [List.nil_append, HeaderFormat.frames_cons, HeaderFormat.frames_nil,
            HeaderFormat.frame, List.append_nil, List.append_assoc] at whole
          exact ⟨rfl, expected, List.append_cancel_left whole⟩
  | cons payload front =>
      rw [List.cons_append] at standing
      simp only [HeaderFormat.frames_cons, List.length_append,
        HeaderFormat.length_frame] at length
      cases standing.aligned with
      | header expected =>
          rw [expected] at starved
          have few : receiver.input.length ≤ format.width := starved
          omega
      | payload expected =>
          rw [expected] at starved
          rw [List.length_append, format.length_encode] at length
          rcases starved.2 with short | few
          · omega
          · omega

/-- The last chunk completes the delivery unless it cuts a last payload that is no
larger than a header. -/
theorem deliver_last {front : List Bytes} {last chunk : Bytes}
    {next : Receiver} {handed : List Bytes}
    (standing : Standing format receiver (front ++ [last]) pending)
    (arriving : chunk ≠ []) (whole : pending ++ chunk = format.frames (front ++ [last]))
    (delivered : deliver format receiver chunk = some (next, handed)) :
    handed = front ++ [last] ↔ format.width < last.length ∨ last.length ≤ chunk.length := by
  rcases deliver_standing standing arriving (whole ▸ List.prefix_rfl) with
    ⟨reached, given, later, remaining, same, split, bytes, stood, still⟩
  rw [delivered] at same
  cases same
  constructor
  · rintro rfl
    by_contra neither
    rw [not_or, Nat.not_lt, Nat.not_le] at neither
    rcases neither with ⟨small, cut⟩
    rcases standing.header_read whole cut with ⟨rfl, expected, input⟩
    have low : receiver.low = last.length := by
      rw [standing.low, expected]
      rfl
    have idle : deliver format receiver chunk =
        some ({ receiver with input := receiver.input ++ chunk }, []) := by
      have available : last ≠ [] := by
        rintro rfl
        exact Nat.not_lt_zero _ cut
      simp [deliver, low, input, drain, available, poll, small]
    rw [delivered] at idle
    simp at idle
  · intro enough
    rw [split, HeaderFormat.frames_append] at whole
    have ending := stood.end_of_stream (List.append_cancel_left (bytes.symm.trans whole))
    rcases ending with rfl | ⟨left, rfl, small, expected, input⟩
    · rw [split, List.append_nil]
    · rcases List.append_inj' split rfl with ⟨rfl, same⟩
      cases same
      exfalso
      have moved := still last.length expected (Nat.le_of_eq (congrArg List.length input).symm)
      rw [moved] at expected input
      have available : receiver.input ≠ [] := by
        have starved := standing.starved
        rw [Starved] at starved
        simp only at expected
        rw [expected] at starved
        exact starved.1
      have length := congrArg List.length input
      simp only [List.length_append] at length
      have positive := List.length_pos_of_ne_nil available
      omega

end Receiver

end MultiMaster.Foundation
