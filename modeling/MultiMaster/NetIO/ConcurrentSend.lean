import Mathlib.Data.List.FinRange
import Mathlib.Data.List.Permutation
import MultiMaster.Foundation.Interleaving
import MultiMaster.NetIO.Connections

/-!
# Concurrent senders

Any number of threads call `send` for one existing connection.  Every load, addition and
subtraction of a counter and every `bufferevent_write` is a step of its own, and the steps
of the calls are interleaved in any order.

A counter that is negative does not stop `rw_w_lock`, so the write lock lets a second sender
in.  Frames stay whole in exactly those runs in which no sender writes its control block
between the two writes of another.
-/

namespace MultiMaster.NetIO

open Foundation

/-- The operation that a call of `send` performs next.  The search in the table belongs to
the step behind it. -/
inductive SendPoint where
  | tableLockLoad
  | tableLockAdd
  | tableUnlockLoad
  | tableUnlockSub
  | writeLockLoad
  | writeLockSub
  | writeBlock
  | writeData
  | writeUnlockLoad
  | writeUnlockAdd
  | returned
  deriving DecidableEq

/-- A call of `send`. -/
structure Sender where
  payload : Payload
  point : SendPoint

/-- What senders to one connection share. -/
structure SharedConnection where
  bevMapRwLockSingal : Int
  writeSingal : Int
  output : Bytes

/-- The two parts of a frame. -/
inductive FramePart where
  | block
  | data
  deriving DecidableEq

/-- One step of a call.  Libevent accepts every write. -/
def sendStep (shared : SharedConnection) (sender : Sender) :
    SharedConnection × Sender × Option FramePart :=
  let size : Int := sender.payload.bytes.length
  match sender.point with
  | .tableLockLoad =>
      if shared.bevMapRwLockSingal < 0 then (shared, sender, none)
      else (shared, { sender with point := .tableLockAdd }, none)
  | .tableLockAdd =>
      ({ shared with bevMapRwLockSingal := shared.bevMapRwLockSingal + 1 },
        { sender with point := .tableUnlockLoad }, none)
  | .tableUnlockLoad =>
      if 0 < shared.bevMapRwLockSingal then
        (shared, { sender with point := .tableUnlockSub }, none)
      else (shared, { sender with point := .writeLockLoad }, none)
  | .tableUnlockSub =>
      ({ shared with bevMapRwLockSingal := shared.bevMapRwLockSingal - 1 },
        { sender with point := .writeLockLoad }, none)
  | .writeLockLoad =>
      if 0 < shared.writeSingal then (shared, sender, none)
      else (shared, { sender with point := .writeLockSub }, none)
  | .writeLockSub =>
      ({ shared with writeSingal := shared.writeSingal - 1 },
        { sender with point := .writeBlock }, none)
  | .writeBlock =>
      ({ shared with output := shared.output ++ leBytes controlBlockSize (toSize size) },
        { sender with point := .writeData }, some .block)
  | .writeData =>
      ({ shared with output := shared.output ++ sender.payload.bytes.take (toSize size) },
        { sender with point := .writeUnlockLoad }, some .data)
  | .writeUnlockLoad =>
      if shared.writeSingal < 0 then (shared, { sender with point := .writeUnlockAdd }, none)
      else (shared, { sender with point := .returned }, none)
  | .writeUnlockAdd =>
      ({ shared with writeSingal := shared.writeSingal + 1 },
        { sender with point := .returned }, none)
  | .returned => (shared, sender, none)

def sendProgram : Program SharedConnection Sender (Option FramePart) := ⟨sendStep⟩

variable {count : Nat}

/-- The calls of `send`, one for each payload. -/
def senders : Machine (Threads (Fin count) SharedConnection Sender) (Fin count)
    (Option FramePart) :=
  sendProgram.interleaved

/-- No call has begun and all locks are free. -/
def beforeSending (payloads : Fin count → Payload) (output : Bytes) :
    Threads (Fin count) SharedConnection Sender :=
  ⟨⟨0, 0, output⟩, fun call => ⟨payloads call, .tableLockLoad⟩⟩

/-- Every call has returned. -/
def AllReturned (state : Threads (Fin count) SharedConnection Sender) : Prop :=
  ∀ call, (state.locals call).point = .returned

instance (state : Threads (Fin count) SharedConnection Sender) : Decidable (AllReturned state) :=
  inferInstanceAs (Decidable (∀ _, _))

/-- The writes of a run, in their order. -/
def writes (history : List (Fin count × Option FramePart)) : List (Fin count × FramePart) :=
  history.filterMap fun event => event.2.map fun part => (event.1, part)

/-- The control block of a call, then its payload. -/
def frameWrites (call : Fin count) : List (Fin count × FramePart) :=
  [(call, .block), (call, .data)]

/-- The frames of all calls in some order, each in one piece. -/
def SentWhole (payloads : Fin count → Payload) (output : Bytes) (schedule : List (Fin count)) :
    Prop :=
  ∃ order : List (Fin count), order.Perm (List.finRange count) ∧
    writes (senders.trace (beforeSending payloads output) schedule) =
      order.flatMap frameWrites ∧
    (senders.exec (beforeSending payloads output) schedule).shared.output =
      output ++ controlFormat.frames (order.map fun call => (payloads call).bytes)

/-- A control block is written when no other sender is between its two writes. -/
def BlockAlone (state : Threads (Fin count) SharedConnection Sender) (call : Fin count) :
    Prop :=
  Program.Exclusive (fun sender => sender.point = .writeBlock)
    (fun sender => sender.point = .writeData) state call

instance (state : Threads (Fin count) SharedConnection Sender) (call : Fin count) :
    Decidable (BlockAlone state call) :=
  inferInstanceAs (Decidable (_ = _ → ∀ _, _ → ¬_ = _))

/-! ## One step -/

/-- How much of its frame a sender has written. -/
inductive SendPhase where
  | unsent
  | half
  | whole
  deriving DecidableEq

def Sender.phase (sender : Sender) : SendPhase :=
  match sender.point with
  | .tableLockLoad | .tableLockAdd | .tableUnlockLoad | .tableUnlockSub | .writeLockLoad
  | .writeLockSub | .writeBlock => .unsent
  | .writeData => .half
  | .writeUnlockLoad | .writeUnlockAdd | .returned => .whole

theorem Sender.phase_eq_half {sender : Sender} :
    sender.phase = .half ↔ sender.point = .writeData := by
  rcases sender with ⟨payload, point⟩
  cases point <;> simp [Sender.phase]

/-- What a step does: nothing that is seen from outside, or one of the two writes. -/
inductive SendEffect (shared : SharedConnection) (sender : Sender) :
    SharedConnection × Sender × Option FramePart → Prop where
  | quiet {after : SharedConnection} {later : Sender} (payload : later.payload = sender.payload)
      (phase : later.phase = sender.phase) (output : after.output = shared.output) :
      SendEffect shared sender (after, later, none)
  | block {after : SharedConnection} {later : Sender} (payload : later.payload = sender.payload)
      (before : sender.point = .writeBlock) (phase : later.phase = .half)
      (output : after.output =
        shared.output ++ controlFormat.encode sender.payload.bytes.length) :
      SendEffect shared sender (after, later, some .block)
  | data {after : SharedConnection} {later : Sender} (payload : later.payload = sender.payload)
      (before : sender.phase = .half) (phase : later.phase = .whole)
      (output : after.output = shared.output ++ sender.payload.bytes) :
      SendEffect shared sender (after, later, some .data)

theorem sendStep_effect (shared : SharedConnection) (sender : Sender) :
    SendEffect shared sender (sendStep shared sender) := by
  rcases sender with ⟨payload, point⟩
  have size := toSize_natCast payload.small
  cases point with
  | tableLockLoad =>
      rw [sendStep]
      dsimp only
      split
      · exact .quiet rfl rfl rfl
      · exact .quiet rfl rfl rfl
  | tableLockAdd => exact .quiet rfl rfl rfl
  | tableUnlockLoad =>
      rw [sendStep]
      dsimp only
      split
      · exact .quiet rfl rfl rfl
      · exact .quiet rfl rfl rfl
  | tableUnlockSub => exact .quiet rfl rfl rfl
  | writeLockLoad =>
      rw [sendStep]
      dsimp only
      split
      · exact .quiet rfl rfl rfl
      · exact .quiet rfl rfl rfl
  | writeLockSub => exact .quiet rfl rfl rfl
  | writeBlock =>
      refine .block rfl rfl rfl ?_
      dsimp only [sendStep]
      rw [size]
      rfl
  | writeData =>
      refine .data rfl rfl rfl ?_
      dsimp only [sendStep]
      rw [size, List.take_length]
  | writeUnlockLoad =>
      rw [sendStep]
      dsimp only
      split
      · exact .quiet rfl rfl rfl
      · exact .quiet rfl rfl rfl
  | writeUnlockAdd => exact .quiet rfl rfl rfl
  | returned => exact .quiet rfl rfl rfl

/-! ## Writes of a run -/

variable {payloads : Fin count → Payload} {output : Bytes}
variable {history : List (Fin count × Option FramePart)} {schedule : List (Fin count)}
variable {state : Threads (Fin count) SharedConnection Sender} {call other : Fin count}
variable {after : SharedConnection} {later : Sender} {action : Option FramePart}

theorem senders_step
    (stepped : sendStep state.shared (state.locals call) = (after, later, action)) :
    senders.step state call = (⟨after, Function.update state.locals call later⟩, action) := by
  simp only [senders, Program.interleaved, sendProgram, stepped]

theorem writes_append (first second : List (Fin count × Option FramePart)) :
    writes (first ++ second) = writes first ++ writes second := List.filterMap_append

@[simp] theorem writes_none (call : Fin count) : writes [(call, none)] = [] := rfl

@[simp] theorem writes_some (call : Fin count) (part : FramePart) :
    writes [(call, some part)] = [(call, part)] := rfl

/-- The parts that a call has written are those its phase says. -/
structure Logged (history : List (Fin count × Option FramePart))
    (state : Threads (Fin count) SharedConnection Sender) : Prop where
  block : ∀ call, (call, .block) ∈ writes history ↔ (state.locals call).phase ≠ .unsent
  data : ∀ call, (call, .data) ∈ writes history ↔ (state.locals call).phase = .whole

theorem mem_writes_concat {part : FramePart} :
    (other, part) ∈ writes (history ++ [(call, action)]) ↔
      (other, part) ∈ writes history ∨ other = call ∧ action = some part := by
  rw [writes_append, List.mem_append]
  cases action with
  | none => simp
  | some wrote =>
      rw [writes_some, List.mem_singleton, Prod.mk.injEq, Option.some.injEq, eq_comm (b := wrote)]

/-- Only the call that moves changes. -/
theorem Logged.step (logged : Logged history state)
    (block : (state.locals call).phase ≠ .unsent ∨ action = some .block ↔ later.phase ≠ .unsent)
    (data : (state.locals call).phase = .whole ∨ action = some .data ↔ later.phase = .whole) :
    Logged (history ++ [(call, action)]) ⟨after, Function.update state.locals call later⟩ := by
  constructor
  · intro other
    rw [mem_writes_concat, logged.block]
    by_cases same : other = call
    · subst same
      simpa using block
    · simp [same]
  · intro other
    rw [mem_writes_concat, logged.data]
    by_cases same : other = call
    · subst same
      simpa using data
    · simp [same]

theorem logged_run (payloads : Fin count → Payload) (output : Bytes)
    (schedule : List (Fin count)) :
    Logged (senders.trace (beforeSending payloads output) schedule)
      (senders.exec (beforeSending payloads output) schedule) := by
  have initial : Logged [] (beforeSending payloads output) :=
    ⟨by simp [writes, beforeSending, Sender.phase], by simp [writes, beforeSending, Sender.phase]⟩
  apply Machine.trace_invariant initial
  intro history state call logged
  have effect := sendStep_effect state.shared (state.locals call)
  generalize stepped : sendStep state.shared (state.locals call) = next at effect
  cases effect with
  | quiet payload phase output =>
      rw [senders_step stepped]
      exact logged.step (by simp [phase]) (by simp [phase])
  | block payload before phase output =>
      have unsent : (state.locals call).phase = .unsent := by rw [Sender.phase, before]
      rw [senders_step stepped]
      exact logged.step (by simp [phase]) (by simp [phase, unsent])
  | data payload before phase output =>
      rw [senders_step stepped]
      exact logged.step (by simp [phase, before]) (by simp [phase])

/-- In a sequence of whole frames a control block is followed by its own payload. -/
theorem data_mem_of_whole {order : List (Fin count)} {first second : List (Fin count × FramePart)}
    (split : order.flatMap frameWrites = first ++ (call, .block) :: second)
    (started : (other, .block) ∈ first) : (other, .data) ∈ first := by
  induction order generalizing first with
  | nil => simp at split
  | cons head rest ih =>
      rw [List.flatMap_cons, frameWrites] at split
      match first, split, started with
      | [_], split, _ => simp at split
      | _ :: _ :: remaining, split, started =>
          simp only [List.cons_append, List.nil_append, List.cons.injEq] at split
          rcases split with ⟨rfl, rfl, split⟩
          simp only [List.mem_cons, Prod.mk.injEq, and_true, reduceCtorEq, and_false,
            false_or] at started ⊢
          rcases started with same | inside
          · exact .inl same
          · exact .inr (ih split inside)

/-! ## Frames in one piece -/

/-- The frames written so far, the last of them perhaps without its payload. -/
structure Arranged (payloads : Fin count → Payload) (output : Bytes)
    (history : List (Fin count × Option FramePart))
    (state : Threads (Fin count) SharedConnection Sender) (order : List (Fin count))
    (pending : Option (Fin count)) : Prop where
  payload : ∀ call, (state.locals call).payload = payloads call
  writes_eq : writes history =
    order.flatMap frameWrites ++ pending.toList.map fun call => (call, .block)
  bytes : state.shared.output =
    output ++ controlFormat.frames (order.map fun call => (payloads call).bytes) ++
      pending.toList.flatMap fun call => controlFormat.encode (payloads call).bytes.length
  nodup : order.Nodup
  finished : ∀ call, call ∈ order ↔ (state.locals call).phase = .whole
  half : ∀ call, pending = some call ↔ (state.locals call).phase = .half

namespace Arranged

variable {order : List (Fin count)} {pending : Option (Fin count)}

theorem initial (payloads : Fin count → Payload) (output : Bytes) :
    Arranged payloads output [] (beforeSending payloads output) [] none where
  payload _ := rfl
  writes_eq := rfl
  bytes := by simp [beforeSending]
  nodup := List.nodup_nil
  finished := by simp [beforeSending, Sender.phase]
  half := by simp [beforeSending, Sender.phase]

theorem payload_update (arranged : Arranged payloads output history state order pending)
    (payload : later.payload = (state.locals call).payload) (other : Fin count) :
    (Function.update state.locals call later other).payload = payloads other := by
  rw [Program.update_view Sender.payload payload, arranged.payload]

theorem quiet (arranged : Arranged payloads output history state order pending)
    (payload : later.payload = (state.locals call).payload)
    (phase : later.phase = (state.locals call).phase)
    (unchanged : after.output = state.shared.output) :
    Arranged payloads output (history ++ [(call, none)])
      ⟨after, Function.update state.locals call later⟩ order pending := by
  have phases := Program.update_view Sender.phase phase
  refine ⟨arranged.payload_update payload, ?_, ?_, arranged.nodup, ?_, ?_⟩
  · rw [writes_append, writes_none, List.append_nil, arranged.writes_eq]
  · rw [unchanged, arranged.bytes]
  · intro other
    rw [arranged.finished, phases]
  · intro other
    rw [arranged.half, phases]

/-- A control block is written behind whole frames. -/
theorem block (arranged : Arranged payloads output history state order none)
    (payload : later.payload = (state.locals call).payload)
    (before : (state.locals call).phase = .unsent) (phase : later.phase = .half)
    (added : after.output =
      state.shared.output ++ controlFormat.encode (state.locals call).payload.bytes.length) :
    Arranged payloads output (history ++ [(call, some .block)])
      ⟨after, Function.update state.locals call later⟩ order (some call) := by
  refine ⟨arranged.payload_update payload, ?_, ?_, arranged.nodup, ?_, ?_⟩
  · rw [writes_append, writes_some, arranged.writes_eq]
    simp
  · rw [added, arranged.bytes, arranged.payload]
    simp
  · intro other
    rw [arranged.finished]
    by_cases same : other = call
    · subst same
      simp [before, phase]
    · simp [same]
  · intro other
    by_cases same : other = call
    · subst same
      simp [phase]
    · have idle := arranged.half other
      simp only [reduceCtorEq, false_iff] at idle
      simp [idle, same, Ne.symm same]

/-- A payload is written behind its own control block. -/
theorem data (arranged : Arranged payloads output history state order (some call))
    (payload : later.payload = (state.locals call).payload) (phase : later.phase = .whole)
    (added : after.output = state.shared.output ++ (state.locals call).payload.bytes) :
    Arranged payloads output (history ++ [(call, some .data)])
      ⟨after, Function.update state.locals call later⟩ (order ++ [call]) none := by
  have before : (state.locals call).phase = .half := (arranged.half call).mp rfl
  refine ⟨arranged.payload_update payload, ?_, ?_, ?_, ?_, ?_⟩
  · rw [writes_append, writes_some, arranged.writes_eq]
    simp [frameWrites]
  · rw [added, arranged.bytes, arranged.payload]
    simp [HeaderFormat.frame]
  · rw [List.nodup_append]
    refine ⟨arranged.nodup, List.nodup_singleton call, ?_⟩
    intro other member last single
    rw [List.mem_singleton] at single
    rw [single]
    rintro rfl
    rw [arranged.finished, before] at member
    cases member
  · intro other
    rw [List.mem_append, List.mem_singleton, arranged.finished]
    by_cases same : other = call
    · subst same
      simp [phase]
    · simp [same]
  · intro other
    by_cases same : other = call
    · subst same
      simp [phase]
    · have idle := arranged.half other
      rw [Option.some.injEq] at idle
      simp [same, ← idle, Ne.symm same]

end Arranged

theorem arranged_run
    (respects : senders.Respects (beforeSending payloads output)
      (fun _ state call => BlockAlone state call) schedule) :
    ∃ order pending, Arranged payloads output
      (senders.trace (beforeSending payloads output) schedule)
      (senders.exec (beforeSending payloads output) schedule) order pending := by
  have initial : ∃ order pending, Arranged payloads output []
      (beforeSending payloads output) order pending :=
    ⟨[], none, Arranged.initial payloads output⟩
  induction schedule using List.reverseRecOn with
  | nil => exact initial
  | append_singleton schedule call ih =>
      rcases Machine.respects_concat.mp respects with ⟨earlier, exclusive⟩
      rcases ih earlier with ⟨order, pending, arranged⟩
      rw [Machine.trace_concat, Machine.exec_concat]
      generalize senders.exec (beforeSending payloads output) schedule = state at *
      have effect := sendStep_effect state.shared (state.locals call)
      generalize stepped : sendStep state.shared (state.locals call) = next at effect
      cases effect with
      | quiet payload phase output =>
          rw [senders_step stepped]
          exact ⟨order, pending, arranged.quiet payload phase output⟩
      | block payload before phase output =>
          have unsent : (state.locals call).phase = .unsent := by rw [Sender.phase, before]
          have free : pending = none := by
            cases pending with
            | none => rfl
            | some other =>
                have occupied := (arranged.half other).mp rfl
                have different : other ≠ call := by
                  rintro rfl
                  rw [unsent] at occupied
                  cases occupied
                exact absurd (Sender.phase_eq_half.mp occupied)
                  (exclusive before other different)
          subst free
          rw [senders_step stepped]
          exact ⟨order, some call, arranged.block payload unsent phase output⟩
      | data payload before phase output =>
          have mine := (arranged.half call).mpr before
          subst mine
          rw [senders_step stepped]
          exact ⟨order ++ [call], none, arranged.data payload phase output⟩

/-- Once all calls have returned, frames are whole exactly if no control block was written
between the two writes of another call. -/
theorem concurrentSends_whole_iff (payloads : Fin count → Payload) (output : Bytes)
    {schedule : List (Fin count)}
    (complete : AllReturned (senders.exec (beforeSending payloads output) schedule)) :
    SentWhole payloads output schedule ↔
      senders.Respects (beforeSending payloads output)
        (fun _ state call => BlockAlone state call) schedule := by
  have phases : ∀ call, ((senders.exec (beforeSending payloads output) schedule).locals
      call).phase = .whole := by
    intro call
    rw [Sender.phase, complete call]
  constructor
  · intro whole
    rcases whole with ⟨order, _, wrote, _⟩
    intro before call after split entering other different inside
    subst split
    have wroteBlock : (senders.step (senders.exec (beforeSending payloads output) before)
        call).2 = some .block := by
      change (sendStep _ _).2.2 = _
      rw [sendStep, entering]
    have logged := logged_run payloads output before
    have started : (other, .block) ∈ writes
        (senders.trace (beforeSending payloads output) before) := by
      rw [logged.block, Sender.phase_eq_half.mpr inside]
      exact fun same => nomatch same
    have split : order.flatMap frameWrites =
        writes (senders.trace (beforeSending payloads output) before) ++ (call, .block) ::
          writes (senders.trace (senders.step (senders.exec (beforeSending payloads output)
            before) call).1 after) := by
      rw [← wrote, Machine.trace_append, writes_append, Machine.trace_cons, wroteBlock]
      rfl
    have finished := data_mem_of_whole split started
    rw [logged.data, Sender.phase_eq_half.mpr inside] at finished
    cases finished
  · intro respects
    rcases arranged_run respects with ⟨order, pending, arranged⟩
    have free : pending = none := by
      cases pending with
      | none => rfl
      | some call =>
          have half := (arranged.half call).mp rfl
          rw [phases] at half
          cases half
    subst free
    refine ⟨order, ?_, ?_, ?_⟩
    · rw [List.perm_ext_iff_of_nodup arranged.nodup (List.nodup_finRange count)]
      intro call
      simp [arranged.finished, phases]
    · rw [arranged.writes_eq]
      simp
    · rw [arranged.bytes]
      simp

/-- One byte for each of two calls. -/
def twoPayloads : Fin 2 → Payload
  | 0 => ⟨[1], by decide⟩
  | 1 => ⟨[2], by decide⟩

/-- The second call begins when the first has returned. -/
def inTurn : List (Fin 2) := (List.finRange 2).flatMap (List.replicate 10)

theorem concurrentSends_whole_iff_inTurn :
    AllReturned (senders.exec (beforeSending twoPayloads []) inTurn) ∧
      SentWhole twoPayloads [] inTurn := by
  have complete : AllReturned (senders.exec (beforeSending twoPayloads []) inTurn) := by
    decide +kernel
  exact ⟨complete, (concurrentSends_whole_iff twoPayloads [] complete).mpr (by decide +kernel)⟩

/-- Both calls pass the write lock, then write in turn. -/
def lockedTogether : List (Fin 2) :=
  (List.finRange 2).flatMap (List.replicate 6) ++ List.finRange 2 ++ List.finRange 2 ++
    (List.finRange 2).flatMap (List.replicate 2)

/-- The write lock lets both senders in, and the bytes are not two frames in either order. -/
theorem senders_mix_frames :
    AllReturned (senders.exec (beforeSending twoPayloads []) lockedTogether) ∧
      (senders.exec (beforeSending twoPayloads []) lockedTogether).shared.output =
        [1, 0, 0, 0, 1, 0, 0, 0, 1, 2] ∧
      ¬∃ order : List (Fin 2), order.Perm (List.finRange 2) ∧
        (senders.exec (beforeSending twoPayloads []) lockedTogether).shared.output =
          controlFormat.frames (order.map fun call => (twoPayloads call).bytes) := by
  refine ⟨by decide +kernel, by decide +kernel, ?_⟩
  rintro ⟨order, permuted, same⟩
  have mixed : ∀ order ∈ (List.finRange 2).permutations',
      (senders.exec (beforeSending twoPayloads []) lockedTogether).shared.output ≠
        controlFormat.frames (order.map fun call => (twoPayloads call).bytes) := by
    decide +kernel
  exact mixed order (List.mem_permutations'.mpr permuted) same

end MultiMaster.NetIO
