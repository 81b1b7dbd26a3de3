import MultiMaster.NetIO.CutIndependence
import MultiMaster.NetIO.WaitingReceive

/-!
# The order of waiting and non-waiting receives

Calls of both kinds and arrivals at one connection are compared with a queue that gives out
the payloads of complete frames.  As long as no waiting call is made while
`recive_str_NoWait` has left a control block in the record, the calls return what the queue
gives out.
-/

namespace MultiMaster.NetIO

open Foundation

/-- What happens at a connection: a chunk arrives, or one of the three calls is made.  A
waiting call takes the bytes that arrive during its two waits. -/
inductive ReceiveEvent where
  | arrive (chunk : Bytes)
  | noWait (bufferStr : Bytes)
  | strWait (bufferStr first second : Bytes)
  | bytesWait (reciveBytes first second : Bytes)

namespace ReceiveEvent

/-- The bytes that arrive. -/
def bytes : ReceiveEvent → Bytes
  | .arrive chunk => chunk
  | .noWait _ => []
  | .strWait _ first second => first ++ second
  | .bytesWait _ first second => first ++ second

/-- Is it a call that waits? -/
def waits : ReceiveEvent → Bool
  | .arrive _ => false
  | .noWait _ => false
  | .strWait _ _ _ => true
  | .bytesWait _ _ _ => true

end ReceiveEvent

/-! ## The calls -/

/-- The payload of a successful call. -/
def payloadOf (received : LibeventHandle × Bytes × Int) : Option Bytes :=
  if 0 < received.2.2 then some (received.2.1.take received.2.2.toNat) else none

namespace LibeventHandle

/-- The effect of an event with the payload it returns.  Libevent accepts all reads. -/
def receiveEvent (handle : LibeventHandle) (connectId : Int) :
    ReceiveEvent → Except Stop (LibeventHandle × Option Bytes)
  | .arrive chunk => do
      let info ← orStop .undefined (handle.bevMap.lookup connectId)
      return (handle.setBevInfor connectId (grown info chunk), none)
  | .noWait bufferStr => do
      let received ← handle.tryReciveStrNoWait connectId bufferStr true true
      return (received.1, payloadOf received)
  | .strWait bufferStr first second => do
      let received ← handle.reciveStrWait connectId bufferStr ⟨first, second, true, true⟩
      return (received.1, payloadOf received)
  | .bytesWait reciveBytes first second => do
      let received ← handle.waitRecive connectId reciveBytes ⟨first, second, true, true⟩
      return (received.1, payloadOf received)

end LibeventHandle

/-- A state until some call does not return. -/
def untilStop {State Event : Type} (step : State → Event → Except Stop (State × Option Bytes)) :
    Machine (Except Stop State) Event (Option Bytes) where
  step reached event :=
    match reached.bind fun state => step state event with
    | .ok (after, payload) => (.ok after, payload)
    | .error stop => (.error stop, none)

theorem untilStop_ok {State Event : Type}
    {step : State → Event → Except Stop (State × Option Bytes)}
    {state : State} {event : Event} {called : State × Option Bytes}
    (returned : step state event = .ok called) :
    (untilStop step).step (.ok state) event = (.ok called.1, called.2) := by
  simp [untilStop, Except.bind, returned]

theorem untilStop_error {State Event : Type}
    {step : State → Event → Except Stop (State × Option Bytes)} {state : State} {event : Event}
    {stop : Stop} (stopped : step state event = .error stop) :
    (untilStop step).step (.ok state) event = (.error stop, none) := by
  simp [untilStop, Except.bind, stopped]

/-- A connection as a machine that answers with payloads. -/
def receiveCalls (connectId : Int) :
    Machine (Except Stop LibeventHandle) ReceiveEvent (Option Bytes) :=
  untilStop fun handle event => handle.receiveEvent connectId event

/-! ## The queue -/

/-- The bytes that have arrived and not been given out, and the payloads due. -/
structure FrameQueue where
  pending : Bytes
  rest : List Bytes

namespace FrameQueue

/-- Give out the next payload when its frame is complete. -/
def take (queue : FrameQueue) : Option (FrameQueue × Bytes) :=
  match queue.rest with
  | [] => none
  | payload :: later =>
      if (controlFormat.frame payload).length ≤ queue.pending.length then
        some (⟨queue.pending.drop (controlFormat.frame payload).length, later⟩, payload)
      else none

/-- A waiting call gives out the next payload or still waits. -/
def wait (queue : FrameQueue) (first second : Bytes) :
    Except Stop (FrameQueue × Option Bytes) :=
  if (queue.pending ++ first).length < controlBlockSize then
    .error .waiting
  else
    match { queue with pending := queue.pending ++ first ++ second }.take with
    | some (after, payload) => .ok (after, some payload)
    | none => .error .waiting

/-- What every call should return. -/
def receiveEvent (queue : FrameQueue) :
    ReceiveEvent → Except Stop (FrameQueue × Option Bytes)
  | .arrive chunk => .ok ({ queue with pending := queue.pending ++ chunk }, none)
  | .noWait _ =>
      match queue.take with
      | some (after, payload) => .ok (after, some payload)
      | none => .ok (queue, none)
  | .strWait _ first second => queue.wait first second
  | .bytesWait _ first second => queue.wait first second

end FrameQueue

/-- The queue as a machine. -/
def frameQueue : Machine (Except Stop FrameQueue) ReceiveEvent (Option Bytes) :=
  untilStop FrameQueue.receiveEvent

/-! ## Waiting calls on a record -/

namespace BevInfor

variable {info : BevInfor} {first second : Bytes}

theorem overwrite_zero (data bytes : Bytes) :
    overwrite data 0 bytes = bytes ++ data.drop bytes.length := by
  simp [overwrite]

theorem locked_free : orStop Stop.spinning (rwWLock 0) = .ok (-1) := rfl

/-- The control block has not arrived. -/
theorem readBufferControlBlockWait_few (free : info.readSingal = 0)
    (few : (info.bev.input ++ first).length < controlBlockSize) :
    info.readBufferControlBlockWait first true = .error .waiting := by
  have short : (info.bev.input ++ first).length < 2 ^ 31 :=
    Nat.lt_trans few (by decide)
  have count : toSize (toInt (info.bev.input ++ first).length) =
      (info.bev.input ++ first).length := by
    rw [toInt_of_lt short, toSize_natCast short]
  rw [readBufferControlBlockWait, free, locked_free, ok_bind]
  dsimp only [LibeventHandle.grown]
  rw [if_pos (by rw [count]; exact few)]

/-- The control block is read and the lock kept. -/
theorem readBufferControlBlockWait_enough (free : info.readSingal = 0)
    (short : (info.bev.input ++ first).length < 2 ^ 31)
    (enough : controlBlockSize ≤ (info.bev.input ++ first).length) :
    ∃ size, info.readBufferControlBlockWait first true =
      .ok ((LibeventHandle.grown info first).withBlock, size) := by
  have count : toSize (toInt (info.bev.input ++ first).length) =
      (info.bev.input ++ first).length := by
    rw [toInt_of_lt short, toSize_natCast short]
  refine ⟨toInt ((info.bev.input ++ first).take controlBlockSize).length, ?_⟩
  rw [readBufferControlBlockWait, free, locked_free, ok_bind]
  dsimp only [LibeventHandle.grown]
  rw [if_neg (by rw [count]; omega), readBlock_accepted]
  dsimp only
  rw [if_neg (not_toInt_take_neg _), withBlock]
  rfl

/-- The record when its payload is taken. -/
def withoutPayload (info : BevInfor) : BevInfor :=
  { info with
    bev := { info.bev with input := info.bev.input.drop info.blockSize.toNat }
    cacheBlock := false
    readSingal := rwWUnlock info.readSingal }

/-- A payload that is there is read. -/
theorem readPayload_accepted (nonneg : 0 ≤ info.blockSize) (small : info.blockSize < 2 ^ 31)
    (enough : info.blockSize.toNat ≤ info.bev.input.length) (data : Bytes) :
    ∃ rest, info.readPayload data true =
      (info.withoutPayload, info.bev.input.take info.blockSize.toNat ++ rest,
        (info.blockSize.toNat : Int)) := by
  have size : toSize info.blockSize = info.blockSize.toNat := toSize_of_nonneg nonneg small
  have length : (info.bev.input.take info.blockSize.toNat).length = info.blockSize.toNat := by
    rw [List.length_take, Nat.min_eq_left enough]
  refine ⟨data.drop info.blockSize.toNat, ?_⟩
  rw [readPayload, if_pos rfl, size]
  dsimp only [Bufferevent.read]
  rw [overwrite_zero, length, toInt_of_lt (by omega), withoutPayload]

/-- Waiting for a payload whose control block has been read. -/
theorem readBufferWait_few (cached : info.cacheBlock = true)
    (short : (info.bev.input ++ second).length < 2 ^ 31)
    (few : ((info.bev.input ++ second).length : Int) < info.blockSize) (data : Bytes) :
    info.readBufferWait data second true = .error .waiting := by
  rw [readBufferWait, if_pos cached]
  dsimp only [LibeventHandle.grown]
  rw [toInt_of_lt short, if_pos few]

theorem readBufferWait_enough (cached : info.cacheBlock = true)
    (short : (info.bev.input ++ second).length < 2 ^ 31)
    (enough : ¬((info.bev.input ++ second).length : Int) < info.blockSize) (data : Bytes) :
    info.readBufferWait data second true =
      .ok ((LibeventHandle.grown info second).readPayload data true) := by
  rw [readBufferWait, if_pos cached]
  dsimp only [LibeventHandle.grown]
  rw [toInt_of_lt short, if_neg enough]
  rfl

/-- When the payload has arrived, the wait ends with it. -/
theorem readBufferWait_returns {payload left : Bytes} (cached : info.cacheBlock = true)
    (size : info.blockSize = payload.length)
    (split : info.bev.input ++ second = payload ++ left)
    (short : (info.bev.input ++ second).length < 2 ^ 31) (data : Bytes) :
    ∃ rest, info.readBufferWait data second true =
      .ok ((LibeventHandle.grown info second).withoutPayload, payload ++ rest,
        (payload.length : Int)) := by
  have counted : (LibeventHandle.grown info second).blockSize = payload.length := size
  have input : (LibeventHandle.grown info second).bev.input = payload ++ left := split
  have room : payload.length ≤ (info.bev.input ++ second).length := by
    rw [split, List.length_append]
    omega
  have there : ¬((info.bev.input ++ second).length : Int) < info.blockSize := by
    rw [size]
    omega
  have nonneg : 0 ≤ (LibeventHandle.grown info second).blockSize := by
    rw [counted]
    exact Int.natCast_nonneg _
  have small : (LibeventHandle.grown info second).blockSize < 2 ^ 31 := by
    rw [counted]
    omega
  rcases readPayload_accepted nonneg small (by rw [counted, Int.toNat_natCast]; exact room) data
    with ⟨rest, payloadRead⟩
  refine ⟨rest, ?_⟩
  rw [readBufferWait_enough cached short there, payloadRead, counted, Int.toNat_natCast, input,
    List.take_left]

/-- What is left behind the payload. -/
theorem withoutPayload_input {payload left : Bytes} (size : info.blockSize = payload.length)
    (split : info.bev.input = payload ++ left) : info.withoutPayload.bev.input = left := by
  rw [withoutPayload, size, Int.toNat_natCast, split]
  exact List.drop_left

end BevInfor

/-! ## Standing in the queue -/

/-- The record agrees with the queue: what it has read and what is in its input are the
pending bytes. -/
structure InStep (info : BevInfor) (queue : FrameQueue) : Prop where
  countable : info.Countable
  aligned : Receiver.Aligned controlFormat info.view queue.rest queue.pending
  low : info.view.LowMatches
  within : queue.pending <+: controlFormat.frames queue.rest
  sized : ∀ payload ∈ queue.rest, controlBlockSize < payload.length ∧ payload.length < 2 ^ 31

variable {info : BevInfor} {queue : FrameQueue}

theorem InStep.receiverSized (inStep : InStep info queue) :
    Receiver.Sized controlFormat queue.rest := by
  intro payload member
  have bounds := inStep.sized payload member
  exact ⟨by omega, bounds.2⟩

/-- More bytes of the stream arrive. -/
theorem InStep.grown (inStep : InStep info queue) {chunk : Bytes}
    (fits : info.bev.input.length + chunk.length < 2 ^ 31)
    (within : queue.pending ++ chunk <+: controlFormat.frames queue.rest) :
    InStep (LibeventHandle.grown info chunk) { queue with pending := queue.pending ++ chunk } := by
  exact ⟨LibeventHandle.countable_grown inStep.countable fits, inStep.aligned.arrive chunk,
    inStep.low, within, inStep.sized⟩

/-- The queue gives out nothing while the next frame is not complete. -/
theorem FrameQueue.take_eq_none
    (incomplete : ∀ payload later, queue.rest = payload :: later →
      queue.pending.length < (controlFormat.frame payload).length) : queue.take = none := by
  rw [take]
  cases due : queue.rest with
  | nil => rfl
  | cons payload later => exact if_neg (Nat.not_le.mpr (incomplete payload later due))

theorem FrameQueue.take_frame (payload remaining : Bytes) (later : List Bytes) :
    FrameQueue.take ⟨controlFormat.frame payload ++ remaining, payload :: later⟩ =
      some (⟨remaining, later⟩, payload) := by
  rw [take]
  dsimp only
  rw [if_pos (by rw [List.length_append]; omega), List.drop_left]

/-- The record is in step when it looks like a receiver that is. -/
theorem inStep_of_view {reached : BevInfor} {pending : Bytes} {rest : List Bytes}
    (countable : reached.Countable)
    (aligned : Receiver.Aligned controlFormat reached.view rest pending)
    (low : reached.view.LowMatches) (within : pending <+: controlFormat.frames rest)
    (sized : ∀ payload ∈ rest, controlBlockSize < payload.length ∧ payload.length < 2 ^ 31) :
    InStep reached ⟨pending, rest⟩ :=
  ⟨countable, aligned, low, within, sized⟩

/-- In front of a header there is nothing but the bytes of the frames that are due. -/
theorem inStep_of_header {reached : BevInfor} {pending : Bytes} {rest : List Bytes}
    (countable : reached.Countable) (seen : reached.view = ⟨pending, 0, none⟩)
    (within : pending <+: controlFormat.frames rest)
    (sized : ∀ payload ∈ rest, controlBlockSize < payload.length ∧ payload.length < 2 ^ 31) :
    InStep reached ⟨pending, rest⟩ := by
  apply inStep_of_view countable ?_ ?_ within sized
  · rw [seen]
    exact .header rfl
  · rw [seen]
    rfl

/-- With an empty input the next frame is not complete. -/
theorem InStep.incomplete_of_empty (inStep : InStep info queue) (empty : info.view.input = [])
    {payload : Bytes} {later : List Bytes} (due : queue.rest = payload :: later) :
    queue.pending.length < (controlFormat.frame payload).length := by
  have bounds := inStep.sized payload (due ▸ List.mem_cons_self)
  have pending := inStep.aligned.length_le
  rw [empty, List.length_nil] at pending
  rw [HeaderFormat.length_frame]
  omega

/-! ## Calls that do not wait -/

theorem BevInfor.growString_nonneg (nonneg : 0 ≤ info.blockSize) (bufferStr : Bytes) :
    ∃ room, info.growString bufferStr = some room := by
  rw [growString, if_neg (Int.not_lt.mpr nonneg)]
  split
  · exact ⟨_, rfl⟩
  · exact ⟨_, rfl⟩

/-- What is read does not depend on the string that it is read into. -/
theorem BevInfor.readBufferNoWait_uniform (countable : info.Countable) (data other : Bytes) :
    (info.readBufferNoWait data).1 = (info.readBufferNoWait other).1 ∧
      ∀ handle, payloadOf (handle, (info.readBufferNoWait data).2) =
        payloadOf (handle, (info.readBufferNoWait other).2) := by
  have short := countable.input
  by_cases cached : info.cacheBlock = true
  · have length : (info.bev.input.take (toSize info.blockSize)).length < 2 ^ 31 :=
      Nat.lt_of_le_of_lt (List.length_take_le' _ _) short
    simp only [readBufferNoWait, if_pos cached, toInt_of_lt short]
    by_cases few : (info.bev.input.length : Int) < info.blockSize
    · simp only [if_pos few]
      exact ⟨trivial, fun _ => rfl⟩
    · simp only [if_neg few, Bufferevent.read, Bufferevent.setReadWatermark, overwrite_zero,
        toInt_of_lt length]
      refine ⟨trivial, fun handle => ?_⟩
      simp only [payloadOf, Int.toNat_natCast, List.take_left]
  · simp only [readBufferNoWait, if_neg cached]
    exact ⟨trivial, fun _ => rfl⟩

namespace LibeventHandle

variable {handle after : LibeventHandle} {connectId : Int}

/-- Nor does a whole call that does not wait. -/
theorem reciveStrNoWait_uniform (ready : handle.Ready connectId info)
    (countable : info.Countable) {received : LibeventHandle × Bytes × Int}
    (called : handle.reciveStrNoWait connectId [] = some received) (bufferStr : Bytes) :
    ∃ other, handle.reciveStrNoWait connectId bufferStr = some other ∧
      other.1 = received.1 ∧ payloadOf other = payloadOf received := by
  rcases getReciveBufferLength_of_ready ready countable with ⟨counted, counting, still⟩
  by_cases few : toSize (info.bev.input.length : Int) ≤ controlBlockSize
  · rw [reciveStrNoWait_few ready counting still few] at called
    cases called
    exact ⟨_, reciveStrNoWait_few ready counting still few, rfl, rfl⟩
  · have more : (controlBlockSize : Int) < toInt info.bev.input.length := by
      rw [toSize_natCast countable.input] at few
      rw [toInt_of_lt countable.input]
      omega
    have reading := readBufferControlBlockNoWait_eq ready.read more
    rw [reciveStrNoWait_more ready counting still few reading] at called
    rcases Option.map_eq_some_iff.mp called with ⟨room, growing, rfl⟩
    have nonneg : 0 ≤ (withControlBlock info).blockSize := by
      by_contra negative
      rw [BevInfor.growString, List.length_nil, if_pos (Nat.zero_le _),
        if_pos (Int.not_le.mp negative)] at growing
      cases growing
    rcases BevInfor.growString_nonneg nonneg bufferStr with ⟨other, growing⟩
    have countableNow : (withControlBlock info).Countable := by
      rw [withControlBlock] at nonneg ⊢
      split
      · exact countable
      · rename_i unread
        rw [if_neg unread] at nonneg
        exact BevInfor.countable_withBlock countable nonneg
    rcases BevInfor.readBufferNoWait_uniform countableNow other room with ⟨same, payload⟩
    refine ⟨(counted.setBevInfor connectId ((withControlBlock info).readBufferNoWait other).1,
      ((withControlBlock info).readBufferNoWait other).2), ?_, ?_, ?_⟩
    · rw [reciveStrNoWait_more ready counting still few reading, growing]
      rfl
    · rw [same]
    · rw [same]
      exact payload _

/-- A call and what it should have returned: both have the same payload and are in step
afterwards, or both stop for the same reason. -/
def Agrees (connectId : Int) :
    Except Stop (LibeventHandle × Option Bytes) → Except Stop (FrameQueue × Option Bytes) → Prop
  | .ok (after, payload), .ok (next, due) =>
      payload = due ∧ ∃ reached, after.Ready connectId reached ∧ InStep reached next
  | .error stop, .error due => stop = due
  | _, _ => False

theorem tryReciveStrNoWait_of_called {received : LibeventHandle × Bytes × Int}
    {bufferStr : Bytes} (called : handle.reciveStrNoWait connectId bufferStr = some received) :
    handle.tryReciveStrNoWait connectId bufferStr true true = .ok received := by
  rw [← tryReciveStrNoWait_accepted] at called
  cases tried : handle.tryReciveStrNoWait connectId bufferStr true true with
  | error stop =>
      rw [tried] at called
      cases called
  | ok value =>
      rw [tried] at called
      exact congrArg Except.ok (Option.some.inj called)

/-- A call that does not wait does what one attempt of the receiver does. -/
theorem noWait_of_polled (ready : handle.Ready connectId info) (countable : info.Countable)
    {next : Receiver} {payload : Option Bytes}
    (polled : Receiver.poll controlFormat info.view = some (next, payload))
    (nonempty : payload ≠ some []) (bufferStr : Bytes) :
    ∃ after reached, handle.receiveEvent connectId (.noWait bufferStr) = .ok (after, payload) ∧
      after.Ready connectId reached ∧ reached.view = next ∧ reached.Countable := by
  rcases reciveStrNoWait_of_ready ready countable polled with
    ⟨after, reached, data, returned, called, readyNext, seen, countableNext, result⟩
  rcases reciveStrNoWait_uniform ready countable called bufferStr with
    ⟨other, calledOther, sameHandle, samePayload⟩
  refine ⟨after, reached, ?_, readyNext, seen, countableNext⟩
  have given : payloadOf (after, data, returned) = payload := by
    cases payload with
    | none =>
        have zero : returned = 0 := result
        rw [payloadOf, zero]
        rfl
    | some bytes =>
        rcases result with ⟨rfl, rfl⟩
        have positive : 0 < data.length :=
          List.length_pos_iff.mpr fun empty => nonempty (congrArg some empty)
        simp [payloadOf, positive]
  rw [receiveEvent, tryReciveStrNoWait_of_called calledOther, ok_bind, sameHandle, samePayload,
    given]
  rfl

/-- A call that finds no complete frame returns nothing. -/
theorem noWait_nothing (ready : handle.Ready connectId info) (inStep : InStep info queue)
    {next : Receiver} (polled : Receiver.poll controlFormat info.view = some (next, none))
    (aligned : Receiver.Aligned controlFormat next queue.rest queue.pending)
    (low : next.LowMatches) (nothing : queue.take = none) (bufferStr : Bytes) :
    Agrees connectId (handle.receiveEvent connectId (.noWait bufferStr))
      (queue.receiveEvent (.noWait bufferStr)) := by
  rcases noWait_of_polled ready inStep.countable polled (by simp) bufferStr with
    ⟨after, reached, called, readyNext, seen, countable⟩
  rw [called, FrameQueue.receiveEvent, nothing]
  subst seen
  exact ⟨rfl, reached, readyNext,
    inStep_of_view countable aligned low inStep.within inStep.sized⟩

/-- A call that does not wait returns the next payload if its frame is complete. -/
theorem noWait_agrees (ready : handle.Ready connectId info) (inStep : InStep info queue)
    (bufferStr : Bytes) :
    Agrees connectId (handle.receiveEvent connectId (.noWait bufferStr))
      (queue.receiveEvent (.noWait bufferStr)) := by
  rcases queue with ⟨pending, rest⟩
  by_cases empty : info.view.input = []
  · have few : info.view.input.length ≤ controlFormat.width := by
      rw [empty]
      exact Nat.zero_le _
    have polled : Receiver.poll controlFormat info.view = some (info.view, none) := if_pos few
    exact noWait_nothing ready inStep polled inStep.aligned inStep.low
      (FrameQueue.take_eq_none fun _ _ => inStep.incomplete_of_empty empty) bufferStr
  · rcases Receiver.poll_outcome inStep.aligned inStep.low inStep.within inStep.receiverSized
      empty with ⟨outcome, polled, effect⟩
    cases effect with
    | @starved next aligned low starved _ =>
        refine noWait_nothing ready inStep polled aligned low ?_ bufferStr
        apply FrameQueue.take_eq_none
        rintro payload later rfl
        have standing : Receiver.Standing controlFormat next (payload :: later) pending :=
          ⟨aligned, low, starved, inStep.within, inStep.receiverSized⟩
        exact standing.incomplete (inStep.sized payload List.mem_cons_self).1
    | @handed payload remaining later first consumed shorter =>
        subst first consumed
        have bounds := inStep.sized payload List.mem_cons_self
        have nonempty : some payload ≠ some [] := by
          intro same
          cases same
          exact absurd bounds.1 (Nat.not_lt_zero _)
        rcases noWait_of_polled ready inStep.countable polled nonempty bufferStr with
          ⟨after, reached, called, readyNext, seen, countable⟩
        have within := inStep.within
        rw [HeaderFormat.frames_cons, List.prefix_append_right_inj] at within
        rw [called, FrameQueue.receiveEvent, FrameQueue.take_frame]
        exact ⟨rfl, reached, readyNext, inStep_of_header countable seen within
          fun other member => inStep.sized other (List.mem_cons_of_mem _ member)⟩

/-- Arriving bytes go behind those that are pending. -/
theorem arrive_agrees (ready : handle.Ready connectId info) (inStep : InStep info queue)
    {chunk : Bytes} (fits : info.bev.input.length + chunk.length < 2 ^ 31)
    (within : queue.pending ++ chunk <+: controlFormat.frames queue.rest) :
    Agrees connectId (handle.receiveEvent connectId (.arrive chunk))
      (queue.receiveEvent (.arrive chunk)) := by
  rw [receiveEvent, ready.found]
  exact ⟨rfl, grown info chunk, ready_grown ready chunk, inStep.grown fits within⟩

end LibeventHandle

/-! ## Calls that wait -/

/-- The outcomes of the two waits: the control block has not arrived, the payload has not,
or the payload is returned. -/
inductive WaitOutcome (info : BevInfor) (queue : FrameQueue) (first second : Bytes) : Prop where
  | early (few : (queue.pending ++ first).length < controlBlockSize)
      (waits : info.readBufferControlBlockWait first true = .error .waiting)
  | late {blocked : BevInfor} {size : Int}
      (enough : ¬(queue.pending ++ first).length < controlBlockSize)
      (read : info.readBufferControlBlockWait first true = .ok (blocked, size))
      (nonneg : 0 ≤ blocked.blockSize)
      (nothing : FrameQueue.take ⟨queue.pending ++ first ++ second, queue.rest⟩ = none)
      (waits : ∀ data, blocked.readBufferWait data second true = .error .waiting)
  | returns {blocked reached : BevInfor} {size : Int} {next : FrameQueue} {payload : Bytes}
      (enough : ¬(queue.pending ++ first).length < controlBlockSize)
      (read : info.readBufferControlBlockWait first true = .ok (blocked, size))
      (nonneg : 0 ≤ blocked.blockSize)
      (given : FrameQueue.take ⟨queue.pending ++ first ++ second, queue.rest⟩ =
        some (next, payload))
      (positive : 0 < payload.length) (free : reached.readSingal = 0) (inStep : InStep reached next)
      (returns : ∀ data, ∃ rest, blocked.readBufferWait data second true =
        .ok (reached, payload ++ rest, (payload.length : Int)))

variable {first second : Bytes}

theorem toInt_leValue_encode {size : Nat} (small : size < 2 ^ 31) :
    toInt (leValue (controlFormat.encode size)) = size := by
  have decoded := controlFormat.decode_encode size small
  rw [controlFormat_decode] at decoded
  split at decoded
  · cases decoded
  · have same := Option.some.inj decoded
    omega

/-- The record with its control block, for an input that begins with the header of a
payload. -/
theorem withBlock_of_header {payload remaining : Bytes} (small : payload.length < 2 ^ 31)
    (split : info.bev.input = controlFormat.encode payload.length ++ remaining) :
    info.withBlock.blockSize = payload.length ∧ info.withBlock.bev.input = remaining := by
  constructor
  · have block : info.bev.input.take controlBlockSize = controlFormat.encode payload.length := by
      rw [split]
      exact List.take_left' (controlFormat.length_encode _)
    rw [LibeventHandle.blockSize_withBlock, block, toInt_leValue_encode small]
  · rw [BevInfor.withBlock, split]
    exact List.drop_left' (controlFormat.length_encode _)

/-- A waiting call once the control block has been read. -/
theorem waitOutcome_blocked {blocked : BevInfor} {size : Int} {payload remaining : Bytes}
    {later : List Bytes} (enough : ¬(queue.pending ++ first).length < controlBlockSize)
    (read : info.readBufferControlBlockWait first true = .ok (blocked, size))
    (cached : blocked.cacheBlock = true) (held : blocked.readSingal = -1)
    (low : blocked.bev.readLow = 0) (blockSize : blocked.blockSize = payload.length)
    (input : blocked.bev.input = remaining) (short : (remaining ++ second).length < 2 ^ 31)
    (due : queue.rest = payload :: later)
    (whole : queue.pending ++ first ++ second =
      controlFormat.encode payload.length ++ (remaining ++ second))
    (within : remaining ++ second <+: payload ++ controlFormat.frames later)
    (sized : ∀ payload ∈ queue.rest, controlBlockSize < payload.length ∧ payload.length < 2 ^ 31) :
    WaitOutcome info queue first second := by
  have bounds := sized payload (due ▸ List.mem_cons_self)
  have nonneg : 0 ≤ blocked.blockSize := by
    rw [blockSize]
    exact Int.natCast_nonneg _
  subst input
  by_cases incomplete : (blocked.bev.input ++ second).length < payload.length
  · refine .late enough read nonneg ?_ fun data => ?_
    · apply FrameQueue.take_eq_none
      intro other rest same
      cases due.symm.trans same
      rw [whole, HeaderFormat.length_frame, List.length_append, controlFormat.length_encode]
      exact Nat.add_lt_add_left incomplete _
    · exact BevInfor.readBufferWait_few cached short (by rw [blockSize]; omega) data
  · rcases Receiver.exists_eq_append_of_prefix within (Nat.not_lt.mp incomplete) with
      ⟨left, split, inside⟩
    have given : FrameQueue.take ⟨queue.pending ++ first ++ second, queue.rest⟩ =
        some (⟨left, later⟩, payload) := by
      rw [whole, split, ← List.append_assoc, due]
      exact FrameQueue.take_frame payload left later
    have dropped : (LibeventHandle.grown blocked second).withoutPayload.bev.input = left :=
      BevInfor.withoutPayload_input blockSize split
    have fewer : left.length < 2 ^ 31 := by
      rw [split, List.length_append] at short
      omega
    refine .returns enough read nonneg given (Nat.zero_lt_of_lt bounds.1) ?_ ?_
      (BevInfor.readBufferWait_returns cached blockSize split short)
    · simp only [BevInfor.withoutPayload, LibeventHandle.grown, held]
      rfl
    · have seen : (LibeventHandle.grown blocked second).withoutPayload.view =
          ⟨left, 0, none⟩ := by
        rw [BevInfor.view, dropped]
        simp only [BevInfor.withoutPayload, LibeventHandle.grown, low, Bool.false_eq_true,
          if_false]
      exact inStep_of_header ⟨fun impossible => Bool.noConfusion impossible, dropped ▸ fewer⟩
        seen inside fun other member => sized other (due ▸ List.mem_cons_of_mem _ member)

/-- A waiting call on a record without a control block. -/
theorem waitOutcome (free : info.readSingal = 0) (inStep : InStep info queue)
    (uncached : info.cacheBlock = false)
    (fits : info.bev.input.length + (first ++ second).length < 2 ^ 31)
    (within : queue.pending ++ (first ++ second) <+: controlFormat.frames queue.rest) :
    WaitOutcome info queue first second := by
  have unread : info.view.expected = none := by simp [BevInfor.view, uncached]
  have pending : queue.pending = info.bev.input := inStep.aligned.pending_eq unread
  rw [List.length_append] at fits
  by_cases few : (queue.pending ++ first).length < controlBlockSize
  · exact .early few (BevInfor.readBufferControlBlockWait_few free (pending ▸ few))
  · have short : (info.bev.input ++ first).length < 2 ^ 31 := by
      rw [List.length_append]
      omega
    have enough : controlFormat.width ≤ (info.bev.input ++ first).length :=
      Nat.not_lt.mp (pending ▸ few)
    rcases BevInfor.readBufferControlBlockWait_enough free short enough with ⟨size, read⟩
    rw [← List.append_assoc] at within
    cases due : queue.rest with
    | nil =>
        rw [due, HeaderFormat.frames_nil, List.prefix_nil] at within
        have empty := (List.append_eq_nil_iff.mp within).1
        rw [empty] at few
        exact absurd (by decide) few
    | cons payload later =>
        have bounds := inStep.sized payload (due ▸ List.mem_cons_self)
        rw [due, HeaderFormat.frames_cons, HeaderFormat.frame,
          List.append_assoc (controlFormat.encode _), pending] at within
        have header : (controlFormat.encode payload.length).length ≤
            (info.bev.input ++ first).length := by
          rw [controlFormat.length_encode]
          exact enough
        rcases Receiver.exists_eq_append_of_prefix
          ((List.prefix_append _ second).trans within) header with ⟨remaining, split, _⟩
        rw [split, List.append_assoc, List.prefix_append_right_inj] at within
        have length := congrArg List.length split
        rw [List.length_append, List.length_append, controlFormat.length_encode] at length
        have counted : (remaining ++ second).length < 2 ^ 31 := by
          rw [List.length_append]
          omega
        have low : info.bev.readLow = 0 := by
          have matching := inStep.low
          rw [Receiver.LowMatches, unread] at matching
          exact matching
        have block := (withBlock_of_header bounds.2 split :
          (LibeventHandle.grown info first).withBlock.blockSize = payload.length ∧ _)
        refine waitOutcome_blocked few read rfl rfl low block.1 block.2 counted due ?_ within
          inStep.sized
        rw [pending, split, List.append_assoc]

namespace LibeventHandle

variable {handle : LibeventHandle} {connectId : Int}

theorem payloadOf_returned {payload : Bytes} (positive : 0 < payload.length) (rest : Bytes) :
    payloadOf (handle, payload ++ rest, (payload.length : Int)) = some payload := by
  simp [payloadOf, positive]

/-- A waiting call into a string returns the next payload or still waits. -/
theorem strWait_agrees (ready : handle.Ready connectId info)
    (outcome : WaitOutcome info queue first second) (bufferStr : Bytes) :
    Agrees connectId (handle.receiveEvent connectId (.strWait bufferStr first second))
      (queue.receiveEvent (.strWait bufferStr first second)) := by
  rw [receiveEvent, reciveStrWait, lookupConnection_of_ready ready, FrameQueue.receiveEvent,
    FrameQueue.wait]
  simp only [orStop_some, ok_bind]
  cases outcome with
  | early few waits =>
      rw [waits, if_pos few]
      rfl
  | late enough read nonneg nothing waits =>
      rcases BevInfor.growString_nonneg nonneg bufferStr with ⟨room, growing⟩
      rw [read, if_neg enough, nothing]
      simp only [ok_bind, growing, orStop_some, waits, error_bind]
      rfl
  | @returns blocked reached size next payload enough read nonneg given positive free inStep
      returns =>
      rcases BevInfor.growString_nonneg nonneg bufferStr with ⟨room, growing⟩
      rcases returns room with ⟨rest, returned⟩
      rw [read, if_neg enough, given]
      simp only [ok_bind, growing, orStop_some, returned, pure_bind]
      exact ⟨payloadOf_returned positive rest, reached, ready_setBevInfor ready.table free, inStep⟩

/-- So does one into a buffer of the caller. -/
theorem bytesWait_agrees (ready : handle.Ready connectId info)
    (outcome : WaitOutcome info queue first second) (reciveBytes : Bytes) :
    Agrees connectId (handle.receiveEvent connectId (.bytesWait reciveBytes first second))
      (queue.receiveEvent (.bytesWait reciveBytes first second)) := by
  rw [receiveEvent, waitRecive, lookupConnection_of_ready ready, FrameQueue.receiveEvent,
    FrameQueue.wait]
  simp only [orStop_some, ok_bind]
  cases outcome with
  | early few waits =>
      rw [waits, if_pos few]
      rfl
  | late enough read nonneg nothing waits =>
      rw [read, if_neg enough, nothing]
      simp only [ok_bind, waits, error_bind]
      rfl
  | @returns blocked reached size next payload enough read nonneg given positive free inStep
      returns =>
      rcases returns reciveBytes with ⟨rest, returned⟩
      rw [read, if_neg enough, given]
      simp only [ok_bind, returned, pure_bind]
      exact ⟨payloadOf_returned positive rest, reached, ready_setBevInfor ready.table free, inStep⟩

/-- The next event is no waiting call on a record with a control block, and the input can
still be counted. -/
def InTurn (handle : LibeventHandle) (connectId : Int) (event : ReceiveEvent) : Prop :=
  ∀ info, handle.bevMap.lookup connectId = some info →
    (event.waits = true → info.cacheBlock = false) ∧
      info.bev.input.length + event.bytes.length < 2 ^ 31

/-- One event in turn. -/
theorem receiveEvent_agrees (ready : handle.Ready connectId info) (inStep : InStep info queue)
    {event : ReceiveEvent} (inTurn : handle.InTurn connectId event)
    (within : queue.pending ++ event.bytes <+: controlFormat.frames queue.rest) :
    Agrees connectId (handle.receiveEvent connectId event) (queue.receiveEvent event) := by
  rcases inTurn info ready.found with ⟨uncached, fits⟩
  cases event with
  | arrive chunk => exact arrive_agrees ready inStep fits within
  | noWait bufferStr => exact noWait_agrees ready inStep bufferStr
  | strWait bufferStr first second =>
      exact strWait_agrees ready (waitOutcome ready.read inStep (uncached rfl) fits within)
        bufferStr
  | bytesWait reciveBytes first second =>
      exact bytesWait_agrees ready (waitOutcome ready.read inStep (uncached rfl) fits within)
        reciveBytes

end LibeventHandle

/-! ## Runs -/

theorem FrameQueue.take_split {next : FrameQueue} {payload : Bytes}
    (taken : queue.take = some (next, payload))
    (within : queue.pending <+: controlFormat.frames queue.rest) :
    queue.rest = payload :: next.rest ∧
      queue.pending = controlFormat.frame payload ++ next.pending := by
  rcases queue with ⟨pending, rest⟩
  rw [take] at taken
  cases rest with
  | nil => cases taken
  | cons first later =>
      dsimp only at taken within
      rcases Option.ite_none_right_eq_some.mp taken with ⟨complete, same⟩
      cases same
      rw [HeaderFormat.frames_cons] at within
      rcases Receiver.exists_eq_append_of_prefix within complete with ⟨remaining, rfl, _⟩
      refine ⟨rfl, ?_⟩
      dsimp only
      rw [List.drop_left]

/-- What the queue gives out and what it keeps are the bytes and payloads it had. -/
theorem FrameQueue.receiveEvent_split {next : FrameQueue} {event : ReceiveEvent}
    {payload : Option Bytes} (given : queue.receiveEvent event = .ok (next, payload))
    (within : queue.pending ++ event.bytes <+: controlFormat.frames queue.rest) :
    queue.rest = payload.toList ++ next.rest ∧
      queue.pending ++ event.bytes = controlFormat.frames payload.toList ++ next.pending := by
  have waiting : ∀ {first second : Bytes}, queue.wait first second = .ok (next, payload) →
      queue.pending ++ (first ++ second) <+: controlFormat.frames queue.rest →
        queue.rest = payload.toList ++ next.rest ∧
          queue.pending ++ (first ++ second) =
            controlFormat.frames payload.toList ++ next.pending := by
    intro first second given within
    rw [wait] at given
    split at given
    · cases given
    · split at given
      · rename_i after bytes taken
        cases given
        rw [← List.append_assoc] at within ⊢
        rw [Option.toList_some, HeaderFormat.frames_cons, HeaderFormat.frames_nil,
          List.append_nil]
        exact take_split taken within
      · cases given
  cases event with
  | arrive chunk =>
      cases given
      exact ⟨rfl, rfl⟩
  | noWait bufferStr =>
      rw [ReceiveEvent.bytes, List.append_nil] at within ⊢
      rw [receiveEvent] at given
      split at given
      · rename_i after bytes taken
        cases given
        rw [Option.toList_some, HeaderFormat.frames_cons, HeaderFormat.frames_nil,
          List.append_nil]
        exact take_split taken within
      · cases given
        exact ⟨rfl, rfl⟩
  | strWait bufferStr first second => exact waiting given within
  | bytesWait reciveBytes first second => exact waiting given within

/-- The call stops where the queue stops, or both are in step with what has been given. -/
def RunAgrees (connectId : Int) (payloads : List Bytes) (arrived : Bytes) (given : List Bytes) :
    Except Stop LibeventHandle → Except Stop FrameQueue → Prop
  | .ok handle, .ok queue =>
      (∃ reached, handle.Ready connectId reached ∧ InStep reached queue) ∧
        payloads = given ++ queue.rest ∧
        arrived = controlFormat.frames given ++ queue.pending
  | .error stop, .error due => stop = due ∧ given <+: payloads
  | _, _ => False

/-- One more event of a run. -/
theorem RunAgrees.step {connectId : Int} {payloads given : List Bytes} {arrived : Bytes}
    {reached : Except Stop LibeventHandle} {expected : Except Stop FrameQueue}
    (agrees : RunAgrees connectId payloads arrived given reached expected) {event : ReceiveEvent}
    (within : arrived ++ event.bytes <+: controlFormat.frames payloads)
    (inTurn : ∀ handle, reached = .ok handle → handle.InTurn connectId event) :
    ((receiveCalls connectId).step reached event).2 = (frameQueue.step expected event).2 ∧
      RunAgrees connectId payloads (arrived ++ event.bytes)
        (given ++ ((receiveCalls connectId).step reached event).2.toList)
        ((receiveCalls connectId).step reached event).1 (frameQueue.step expected event).1 := by
  match reached, expected, agrees with
  | .error stop, .error due, agrees =>
      refine ⟨rfl, agrees.1, ?_⟩
      rw [show ((receiveCalls connectId).step (.error stop) event).2.toList = [] from rfl,
        List.append_nil]
      exact agrees.2
  | .ok handle, .ok queue, agrees =>
      rcases agrees with ⟨⟨info, ready, inStep⟩, split, bytes⟩
      have inside : queue.pending ++ event.bytes <+: controlFormat.frames queue.rest := by
        rw [bytes, split, HeaderFormat.frames_append, List.append_assoc,
          List.prefix_append_right_inj] at within
        exact within
      have called := LibeventHandle.receiveEvent_agrees ready inStep (inTurn handle rfl) inside
      cases code : handle.receiveEvent connectId event with
      | error stop =>
          cases spec : queue.receiveEvent event with
          | ok next =>
              rw [code, spec] at called
              exact called.elim
          | error due =>
              rw [code, spec] at called
              rw [receiveCalls, frameQueue, untilStop_error code, untilStop_error spec]
              refine ⟨rfl, called, ?_⟩
              rw [Option.toList_none, List.append_nil, split]
              exact List.prefix_append _ _
      | ok after =>
          cases spec : queue.receiveEvent event with
          | error due =>
              rw [code, spec] at called
              exact called.elim
          | ok next =>
              rw [code, spec] at called
              rcases called with ⟨same, reached, readyNext, inStepNext⟩
              rcases FrameQueue.receiveEvent_split spec inside with ⟨restSplit, pendingSplit⟩
              rw [receiveCalls, frameQueue, untilStop_ok code, untilStop_ok spec]
              refine ⟨same, ⟨reached, readyNext, inStepNext⟩, ?_, ?_⟩
              · rw [split, same, restSplit, List.append_assoc]
              · rw [bytes, List.append_assoc, pendingSplit, same, HeaderFormat.frames_append,
                  List.append_assoc]

/-- A new connection is in step with the queue of all payloads. -/
theorem runAgrees_initial {handle : LibeventHandle} {connectId : Int}
    (ready : handle.Ready connectId info) (fresh : info.Fresh) {payloads : List Bytes}
    (sized : ∀ payload ∈ payloads, controlBlockSize < payload.length ∧ payload.length < 2 ^ 31) :
    RunAgrees connectId payloads [] [] (.ok handle) (.ok ⟨[], payloads⟩) := by
  refine ⟨⟨info, ready, ?_⟩, rfl, rfl⟩
  exact inStep_of_header fresh.countable fresh.view_eq List.nil_prefix sized

theorem RunAgrees.given_prefix {connectId : Int} {payloads given : List Bytes} {arrived : Bytes}
    {reached : Except Stop LibeventHandle} {expected : Except Stop FrameQueue}
    (agrees : RunAgrees connectId payloads arrived given reached expected) :
    given <+: payloads := by
  match reached, expected, agrees with
  | .ok handle, .ok queue, agrees =>
      rw [agrees.2.1]
      exact List.prefix_append _ _
  | .error stop, .error due, agrees => exact agrees.2

theorem filterMap_answer (event : ReceiveEvent) (answer : Option Bytes) :
    [(event, answer)].filterMap Prod.snd = answer.toList := by
  cases answer with
  | none => rfl
  | some payload => rfl

/-- A run in turn agrees with the queue in all its answers. -/
theorem runAgrees_run {handle : LibeventHandle} {connectId : Int}
    (ready : handle.Ready connectId info) (fresh : info.Fresh) {payloads : List Bytes}
    (sized : ∀ payload ∈ payloads, controlBlockSize < payload.length ∧ payload.length < 2 ^ 31)
    {events : List ReceiveEvent}
    (within : events.flatMap ReceiveEvent.bytes <+: controlFormat.frames payloads)
    (inTurn : (receiveCalls connectId).Respects (.ok handle)
      (fun _ reached event => ∀ current, reached = .ok current → current.InTurn connectId event)
      events) :
    ((receiveCalls connectId).trace (.ok handle) events).map Prod.snd =
        (frameQueue.trace (.ok ⟨[], payloads⟩) events).map Prod.snd ∧
      RunAgrees connectId payloads (events.flatMap ReceiveEvent.bytes)
        (((receiveCalls connectId).trace (.ok handle) events).filterMap Prod.snd)
        ((receiveCalls connectId).exec (.ok handle) events)
        (frameQueue.exec (.ok ⟨[], payloads⟩) events) := by
  induction events using List.reverseRecOn with
  | nil => exact ⟨rfl, runAgrees_initial ready fresh sized⟩
  | append_singleton events event ih =>
      rw [List.flatMap_append, List.flatMap_singleton] at within
      rcases Machine.respects_concat.mp inTurn with ⟨earlier, last⟩
      rcases ih ((List.prefix_append _ _).trans within) earlier with ⟨answers, agrees⟩
      rcases agrees.step within last with ⟨answer, agreesNext⟩
      rw [Machine.trace_concat, Machine.trace_concat, Machine.exec_concat, Machine.exec_concat,
        List.map_append, List.map_append, answers, List.filterMap_append, List.flatMap_append,
        List.flatMap_singleton]
      refine ⟨?_, ?_⟩
      · rw [List.map_singleton, List.map_singleton, answer]
      · rw [filterMap_answer]
        exact agreesNext

/-- As long as no waiting call is made while a control block is in the record, every call
returns the payload whose frame is complete, waits where none is, and the payloads come in
the order sent, each once. -/
theorem receives_in_order {handle : LibeventHandle} {connectId : Int}
    (ready : handle.Ready connectId info) (fresh : info.Fresh) {payloads : List Bytes}
    (sized : ∀ payload ∈ payloads, controlBlockSize < payload.length ∧ payload.length < 2 ^ 31)
    {events : List ReceiveEvent}
    (within : events.flatMap ReceiveEvent.bytes <+: controlFormat.frames payloads)
    (inTurn : (receiveCalls connectId).Respects (.ok handle)
      (fun _ reached event => ∀ current, reached = .ok current → current.InTurn connectId event)
      events) :
    ((receiveCalls connectId).trace (.ok handle) events).map Prod.snd =
        (frameQueue.trace (.ok ⟨[], payloads⟩) events).map Prod.snd ∧
      (∀ stop, (receiveCalls connectId).exec (.ok handle) events = .error stop ↔
        frameQueue.exec (.ok ⟨[], payloads⟩) events = .error stop) ∧
      ((receiveCalls connectId).trace (.ok handle) events).filterMap Prod.snd <+: payloads := by
  rcases runAgrees_run ready fresh sized within inTurn with ⟨answers, agrees⟩
  refine ⟨answers, ?_, agrees.given_prefix⟩
  intro stop
  match (receiveCalls connectId).exec (.ok handle) events,
    frameQueue.exec (.ok ⟨[], payloads⟩) events, agrees with
  | .ok _, .ok _, _ => exact iff_of_false (by simp) (by simp)
  | .error _, .error _, agrees => simp [agrees.1]

/-- A payload that a waiting call receives while its frame arrives. -/
theorem receives_in_order_oneWait :
    ((receiveCalls 0).trace (.ok LibeventHandle.oneConnection)
        [.arrive [5, 0, 0], .strWait [9] [0, 1] [2, 3, 4, 5]]).map Prod.snd =
      (frameQueue.trace (.ok ⟨[], [[1, 2, 3, 4, 5]]⟩)
        [.arrive [5, 0, 0], .strWait [9] [0, 1] [2, 3, 4, 5]]).map Prod.snd := by
  have sized : ∀ payload ∈ [([1, 2, 3, 4, 5] : Bytes)],
      controlBlockSize < payload.length ∧ payload.length < 2 ^ 31 := by simp [controlBlockSize]
  have within : ([.arrive [5, 0, 0], .strWait [9] [0, 1] [2, 3, 4, 5]] :
      List ReceiveEvent).flatMap ReceiveEvent.bytes <+:
        controlFormat.frames [[1, 2, 3, 4, 5]] := by decide
  have arriving : (receiveCalls 0).Respects (.ok LibeventHandle.oneConnection)
      (fun _ reached event => ∀ current, reached = .ok current → current.InTurn 0 event)
      ([] ++ [.arrive [5, 0, 0]]) := by
    refine Machine.respects_concat.mpr ⟨Machine.respects_nil, ?_⟩
    rintro current same info found
    cases same
    cases found
    exact ⟨fun _ => rfl, by decide⟩
  have inTurn : (receiveCalls 0).Respects (.ok LibeventHandle.oneConnection)
      (fun _ reached event => ∀ current, reached = .ok current → current.InTurn 0 event)
      ([.arrive [5, 0, 0]] ++ [.strWait [9] [0, 1] [2, 3, 4, 5]]) := by
    refine Machine.respects_concat.mpr ⟨arriving, ?_⟩
    rintro current same info found
    cases same
    cases found
    exact ⟨fun _ => rfl, by decide⟩
  exact (receives_in_order LibeventHandle.oneConnection_ready LibeventHandle.newConnection_fresh
    sized within inTurn).1

/-- A waiting call behind a call that left the control block in the record takes the first
bytes of the payload for another one. -/
theorem waiting_call_rereads_header :
    ([.arrive [5, 0, 0, 0, 1], .noWait [], .strWait [] [0, 0, 0, 7] []] :
        List ReceiveEvent).flatMap ReceiveEvent.bytes =
          controlFormat.frames [[1, 0, 0, 0, 7]] ∧
      ((receiveCalls 0).trace (.ok LibeventHandle.oneConnection)
        [.arrive [5, 0, 0, 0, 1], .noWait [], .strWait [] [0, 0, 0, 7] []]).map Prod.snd =
          [none, none, some [7]] ∧
      (frameQueue.trace (.ok ⟨[], [[1, 0, 0, 0, 7]]⟩)
        [.arrive [5, 0, 0, 0, 1], .noWait [], .strWait [] [0, 0, 0, 7] []]).map Prod.snd =
          [none, none, some [1, 0, 0, 0, 7]] := by
  decide +kernel

end MultiMaster.NetIO
