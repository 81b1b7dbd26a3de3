import MultiMaster.NetIO.Libevent

/-!
# Delivery over one connection

The receiving side of a connection refines the receiver of length-prefixed frames,
and the sending side writes such frames.  What a connection delivers after any
chunking of the stream follows.
-/

namespace MultiMaster.NetIO

open Foundation

theorem toInt_of_lt {size : Nat} (small : size < 2 ^ 31) : toInt size = size := by
  apply Int.bmod_eq_of_le
  · omega
  · omega

theorem toSize_natCast {size : Nat} (small : size < 2 ^ 31) : toSize size = size := by
  rw [toSize]
  omega

/-- Control blocks carry the size of the payload as a little-endian `int`. -/
def controlFormat : HeaderFormat where
  width := controlBlockSize
  limit := 2 ^ 31
  encode := leBytes controlBlockSize
  decode block :=
    let size := toInt (leValue block)
    if size < 0 then none else some size.toNat
  length_encode size := length_leBytes controlBlockSize size
  decode_encode size small := by
    have low : size % 256 ^ controlBlockSize = size := by
      rw [controlBlockSize]
      omega
    simp only [leValue_leBytes, low, toInt_of_lt small]
    rw [if_neg (by omega), Int.toNat_natCast]

theorem controlFormat_decode (block : Bytes) :
    controlFormat.decode block =
      if toInt (leValue block) < 0 then none else some (toInt (leValue block)).toNat := by
  rw [controlFormat]

/-! ## The receiving side -/

namespace BevInfor

/-- The part of a connection's record that decides what is received. -/
def view (info : BevInfor) : Receiver :=
  ⟨info.bev.input, info.bev.readLow,
    if info.cacheBlock then some info.blockSize.toNat else none⟩

/-- A new record: no control block is cached and nothing has arrived. -/
structure Fresh (info : BevInfor) : Prop where
  uncached : info.cacheBlock = false
  input : info.bev.input = []
  low : info.bev.readLow = 0

/-- A cached size is one that a payload can have, and the input can be counted. -/
structure Countable (info : BevInfor) : Prop where
  cached : info.cacheBlock = true → 0 ≤ info.blockSize ∧ info.blockSize < 2 ^ 31
  input : info.bev.input.length < 2 ^ 31

variable {info : BevInfor}

theorem Fresh.view_eq (fresh : info.Fresh) : info.view = Receiver.initial := by
  simp [view, fresh.uncached, fresh.input, fresh.low, Receiver.initial]

theorem Fresh.countable (fresh : info.Fresh) : info.Countable := by
  constructor
  · intro cached
    rw [fresh.uncached] at cached
    cases cached
  · rw [fresh.input, List.length_nil]
    omega

end BevInfor

namespace LibeventHandle

/-- The connection exists and no lock on its way is held. -/
structure Ready (handle : LibeventHandle) (connectId : Int) (info : BevInfor) : Prop where
  table : handle.bevMapRwLockSingal = 0
  found : handle.bevMap.lookup connectId = some info
  read : info.readSingal = 0

variable {handle : LibeventHandle} {connectId : Int} {info : BevInfor}

theorem ready_setBevInfor (table : handle.bevMapRwLockSingal = 0)
    (read : info.readSingal = 0) : (handle.setBevInfor connectId info).Ready connectId info :=
  ⟨table, OrderedMap.lookup_insert, read⟩

theorem lookupConnection_of_ready (ready : handle.Ready connectId info) :
    handle.lookupConnection connectId = some (handle, some info) := by
  rcases handle with ⟨maxBevId, singal, bevMap, listenSingal, listenIdVector⟩
  cases ready.table
  rw [lookupConnection, ready.found]
  rfl

theorem getReciveBufferLength_ready (ready : handle.Ready connectId info) :
    handle.getReciveBufferLength connectId =
      some (handle.setBevInfor connectId info, toInt info.bev.input.length) := by
  rcases info with ⟨ip, port, bev, isListen, blockSize, cacheBlock, readSingal, writeSingal⟩
  cases ready.read
  rw [getReciveBufferLength, lookupConnection_of_ready ready]
  rfl

theorem getReciveBufferLength_counts (ready : handle.Ready connectId info) :
    ∃ after, handle.getReciveBufferLength connectId =
      some (after, toInt info.bev.input.length) ∧ after.Ready connectId info :=
  ⟨_, getReciveBufferLength_ready ready, ready_setBevInfor ready.table ready.read⟩

theorem getReciveBufferLength_of_ready (ready : handle.Ready connectId info)
    (countable : info.Countable) :
    ∃ after, handle.getReciveBufferLength connectId =
      some (after, (info.bev.input.length : Int)) ∧ after.Ready connectId info := by
  rw [← toInt_of_lt countable.input]
  exact getReciveBufferLength_counts ready

end LibeventHandle

/-- What a call leaves in the string and returns for the outcome of an attempt. -/
def Returns (payload : Option Bytes) (data : Bytes) (returned : Int) : Prop :=
  match payload with
  | none => returned = 0
  | some bytes => data = bytes ∧ returned = bytes.length

namespace BevInfor

variable {info : BevInfor}

/-- Reading behind a cached control block takes the payload as the receiver does. -/
theorem readBufferNoWait_view (countable : info.Countable) (cached : info.cacheBlock = true)
    {next : Receiver} {payload : Option Bytes}
    (taken : Receiver.takePayload info.bev.input info.blockSize.toNat = (next, payload)) :
    ∃ after data returned,
      info.readBufferNoWait (List.replicate info.blockSize.toNat 0) =
        (after, data, returned) ∧
      after.view = next ∧ after.Countable ∧
      after.readSingal = rwWUnlock info.readSingal ∧
      Returns payload data returned := by
  rcases countable.cached cached with ⟨nonnegative, small⟩
  have size : toSize info.blockSize = info.blockSize.toNat := by
    rw [toSize]
    omega
  rw [readBufferNoWait, if_pos cached]
  simp only [toInt_of_lt countable.input, size]
  by_cases short : info.bev.input.length < info.blockSize.toNat
  · rw [Receiver.takePayload, if_pos short] at taken
    cases taken
    rw [if_pos (by omega)]
    refine ⟨_, _, _, rfl, ?_, ?_, rfl, rfl⟩
    · simp [view, cached, Bufferevent.setReadWatermark]
    · exact ⟨fun _ => countable.cached cached, countable.input⟩
  · rw [Receiver.takePayload, if_neg short] at taken
    cases taken
    have length : (info.bev.input.take info.blockSize.toNat).length =
        info.blockSize.toNat := by
      rw [List.length_take, Nat.min_eq_left (Nat.not_lt.mp short)]
    rw [if_neg (by omega)]
    refine ⟨_, _, _, rfl, ?_, ?_, rfl, ?_, ?_⟩
    · simp [view, Bufferevent.setReadWatermark, Bufferevent.read]
    · refine ⟨fun impossible => ?_, ?_⟩
      · cases impossible
      · have input := countable.input
        simp only [Bufferevent.setReadWatermark, Bufferevent.read, List.length_drop]
        omega
    · simp [overwrite, Bufferevent.setReadWatermark, Bufferevent.read, length]
    · simp only [Bufferevent.setReadWatermark, Bufferevent.read, length]
      rw [toInt_of_lt (by omega)]

end BevInfor

/-- The record after its control block was read, with the read lock held. -/
def BevInfor.withBlock (info : BevInfor) : BevInfor :=
  { info with
    bev := { info.bev with input := info.bev.input.drop controlBlockSize }
    readSingal := -1
    cacheBlock := true
    blockSize := toInt (leValue (info.bev.input.take controlBlockSize)) }

theorem toInt_lt (size : Nat) : toInt size < 2 ^ 31 := by
  have below := @Int.bmod_lt (size : Int) (2 ^ 32) (by omega)
  unfold toInt
  omega

theorem toSize_of_nonneg {value : Int} (nonnegative : 0 ≤ value) (small : value < 2 ^ 31) :
    toSize value = value.toNat := by
  unfold toSize
  omega

theorem BevInfor.countable_withBlock {info : BevInfor} (countable : info.Countable)
    (nonnegative : 0 ≤ info.withBlock.blockSize) : info.withBlock.Countable := by
  refine ⟨fun _ => ⟨nonnegative, ?_⟩, ?_⟩
  · simp only [withBlock, toInt_lt]
  · have input := countable.input
    simp only [withBlock, List.length_drop]
    omega

theorem BevInfor.growString_nil {info : BevInfor} (nonnegative : 0 ≤ info.blockSize) :
    info.growString [] = some (List.replicate info.blockSize.toNat 0) := by
  rw [growString, List.length_nil, if_pos (Nat.zero_le _),
    if_neg (Int.not_lt.mpr nonnegative), List.nil_append]

namespace LibeventHandle

variable {handle : LibeventHandle} {connectId : Int} {info : BevInfor}

/-- The record after its control block was read, however long the input is. -/
theorem readBufferControlBlockNoWait_eq (free : info.readSingal = 0)
    (available : (controlBlockSize : Int) < toInt info.bev.input.length) :
    info.readBufferControlBlockNoWait.map Prod.fst = some info.withBlock := by
  have enough : ¬toSize (toInt info.bev.input.length) < controlBlockSize := by
    rw [toSize_of_nonneg (by omega) (toInt_lt _)]
    omega
  rw [BevInfor.readBufferControlBlockNoWait, free]
  simp only [rwWLock, Option.bind_eq_bind]
  simp [enough, Bufferevent.read, BevInfor.withBlock]

/-- The record with its control block, as it was or as it is read. -/
def withControlBlock (info : BevInfor) : BevInfor :=
  if info.cacheBlock then info else info.withBlock

theorem blockSize_withBlock (info : BevInfor) : info.withBlock.blockSize =
    toInt (leValue (info.bev.input.take controlBlockSize)) := by
  simp only [BevInfor.withBlock]

theorem not_toSize_le {size : Nat} (more : (controlBlockSize : Int) < toInt size) :
    ¬toSize (toInt size) ≤ controlBlockSize := by
  rw [toSize_of_nonneg (by omega) (toInt_lt _)]
  omega

variable {after : LibeventHandle} {counted : Int} {bufferStr : Bytes}

/-- An input no longer than a control block is left alone. -/
theorem reciveStrNoWait_few (ready : handle.Ready connectId info)
    (counting : handle.getReciveBufferLength connectId = some (after, counted))
    (still : after.Ready connectId info) (few : toSize counted ≤ controlBlockSize) :
    handle.reciveStrNoWait connectId bufferStr = some (after, bufferStr, 0) := by
  rw [reciveStrNoWait, lookupConnection_of_ready ready]
  simp only [Option.bind_eq_bind, Option.bind_some, counting, still.found, Option.pure_def]
  rw [if_pos few]

/-- A control block is read once there is a byte behind it. -/
theorem reciveStrNoWait_more (ready : handle.Ready connectId info)
    (counting : handle.getReciveBufferLength connectId = some (after, counted))
    (still : after.Ready connectId info) (more : ¬toSize counted ≤ controlBlockSize)
    (reading : info.readBufferControlBlockNoWait.map Prod.fst = some info.withBlock) :
    handle.reciveStrNoWait connectId bufferStr =
      ((withControlBlock info).growString bufferStr).map fun room =>
        (after.setBevInfor connectId ((withControlBlock info).readBufferNoWait room).1,
          ((withControlBlock info).readBufferNoWait room).2) := by
  rw [reciveStrNoWait, lookupConnection_of_ready ready]
  simp only [Option.bind_eq_bind, Option.bind_some, counting, still.found, Option.pure_def]
  rw [if_neg more, withControlBlock]
  by_cases cached : info.cacheBlock = true
  · rw [if_pos cached, if_pos cached]
    cases info.growString bufferStr with
    | none => rfl
    | some room => rfl
  · rw [if_neg cached, if_neg cached, reading, Option.bind_some]
    cases info.withBlock.growString bufferStr with
    | none => rfl
    | some room => rfl

/-- What `recive_str_NoWait` does once a control block is in the record. -/
theorem receive_cached (table : handle.bevMapRwLockSingal = 0)
    (countable : info.Countable) (cached : info.cacheBlock = true)
    (freed : rwWUnlock info.readSingal = 0)
    {next : Receiver} {payload : Option Bytes}
    (taken : Receiver.takePayload info.bev.input info.blockSize.toNat = (next, payload)) :
    ∃ after reached data returned,
      (info.growString []).map (fun bufferStr =>
        (handle.setBevInfor connectId (info.readBufferNoWait bufferStr).1,
          (info.readBufferNoWait bufferStr).2)) = some (after, data, returned) ∧
      after.Ready connectId reached ∧ reached.view = next ∧ reached.Countable ∧
      Returns payload data returned := by
  rcases BevInfor.readBufferNoWait_view countable cached taken with
    ⟨reached, data, returned, read, seen, counted, unlocked, result⟩
  rw [freed] at unlocked
  refine ⟨handle.setBevInfor connectId reached, reached, data, returned, ?_,
    ready_setBevInfor table unlocked, seen, counted, result⟩
  rw [BevInfor.growString_nil (countable.cached cached).1, Option.map_some, read]

/-- One call of `recive_str_NoWait` is one attempt of the receiver. -/
theorem reciveStrNoWait_of_ready (ready : handle.Ready connectId info)
    (countable : info.Countable) {next : Receiver} {payload : Option Bytes}
    (polled : Receiver.poll controlFormat info.view = some (next, payload)) :
    ∃ after reached data returned,
      handle.reciveStrNoWait connectId [] = some (after, data, returned) ∧
      after.Ready connectId reached ∧ reached.view = next ∧ reached.Countable ∧
      Returns payload data returned := by
  rcases getReciveBufferLength_of_ready ready countable with ⟨counted, length, still⟩
  rw [Receiver.poll] at polled
  by_cases few : info.bev.input.length ≤ controlBlockSize
  · rw [if_pos (show info.view.input.length ≤ controlFormat.width from few)] at polled
    cases polled
    have short : toSize (info.bev.input.length : Int) ≤ controlBlockSize := by
      rw [toSize_natCast countable.input]
      exact few
    exact ⟨counted, info, [], 0, reciveStrNoWait_few ready length still short, still, rfl,
      countable, rfl⟩
  · rw [if_neg (show ¬info.view.input.length ≤ controlFormat.width from few)] at polled
    have more : (controlBlockSize : Int) < toInt info.bev.input.length := by
      rw [toInt_of_lt countable.input]
      omega
    rw [← toInt_of_lt countable.input] at length
    rw [reciveStrNoWait_more ready length still (not_toSize_le more)
      (readBufferControlBlockNoWait_eq ready.read more), withControlBlock]
    by_cases cached : info.cacheBlock = true
    · simp only [BevInfor.view, cached, if_true, Option.some.injEq] at polled
      rw [if_pos cached]
      exact receive_cached still.table countable cached (by rw [ready.read]; rfl) polled
    · rw [if_neg cached]
      simp only [BevInfor.view, cached, Bool.false_eq_true, if_false] at polled
      rcases Option.bind_eq_some_iff.mp polled with ⟨size, decoded, taken⟩
      have block : info.withBlock.blockSize =
          toInt (leValue (info.bev.input.take controlFormat.width)) := blockSize_withBlock info
      rw [controlFormat_decode, ← block] at decoded
      have nonnegative : 0 ≤ info.withBlock.blockSize := by
        by_contra negative
        rw [if_pos (Int.not_le.mp negative)] at decoded
        cases decoded
      have sameSize : info.withBlock.blockSize.toNat = size := by
        rw [if_neg (Int.not_lt.mpr nonnegative)] at decoded
        exact Option.some.inj decoded
      have moved : Receiver.takePayload info.withBlock.bev.input
          info.withBlock.blockSize.toNat = (next, payload) := by
        rw [sameSize]
        exact Option.some.inj taken
      have cachedNow : info.withBlock.cacheBlock = true := by rw [BevInfor.withBlock]
      have freed : rwWUnlock info.withBlock.readSingal = 0 := by
        simp [BevInfor.withBlock, rwWUnlock]
      exact receive_cached still.table (BevInfor.countable_withBlock countable nonnegative)
        cachedNow freed moved

variable {State : Type} {handler : State → Bytes → Int → Option (State × Bool)}

/-- The handler accepts payloads one after another. -/
def acceptAll (handler : State → Bytes → Int → Option (State × Bool)) :
    State → List Bytes → Option State
  | state, [] => some state
  | state, payload :: rest => do
      let result ← handler state payload payload.length
      if result.2 then acceptAll handler result.1 rest else none

theorem acceptAll_append (state : State) (first second : List Bytes) :
    acceptAll handler state (first ++ second) =
      (acceptAll handler state first).bind fun reached => acceptAll handler reached second := by
  induction first generalizing state with
  | nil => rfl
  | cons payload rest ih =>
      simp only [List.cons_append, acceptAll, Option.bind_eq_bind, Option.bind_assoc]
      congr 1
      funext result
      split
      · exact ih result.1
      · rfl

/-! ## Rounds of the loop -/

variable {state : State} {fuel : Nat}

theorem receiveLoop_idle (handler : State → Bytes → Int → Option (State × Bool))
    (counting : handle.getReciveBufferLength connectId = some (after, counted))
    (idle : ¬0 < counted) :
    receiveLoop connectId handler (fuel + 1) handle state = some (after, state, true) := by
  rw [receiveLoop, counting]
  simp only [Option.bind_eq_bind, Option.bind_some]
  rw [if_neg idle]
  rfl

theorem receiveLoop_undefined (handler : State → Bytes → Int → Option (State × Bool))
    (counting : handle.getReciveBufferLength connectId = some (after, counted))
    (positive : 0 < counted) (undefined : after.reciveStrNoWait connectId [] = none) :
    receiveLoop connectId handler (fuel + 1) handle state = none := by
  rw [receiveLoop, counting]
  simp only [Option.bind_eq_bind, Option.bind_some]
  rw [if_pos positive, undefined]
  rfl

variable {later : LibeventHandle} {data : Bytes} {returned : Int}

/-- The attempt waits or takes an empty payload. -/
theorem receiveLoop_waiting (handler : State → Bytes → Int → Option (State × Bool))
    (counting : handle.getReciveBufferLength connectId = some (after, counted))
    (positive : 0 < counted)
    (received : after.reciveStrNoWait connectId [] = some (later, data, 0)) :
    receiveLoop connectId handler (fuel + 1) handle state = some (later, state, false) := by
  rw [receiveLoop, counting]
  simp only [Option.bind_eq_bind, Option.bind_some]
  rw [if_pos positive, received]
  rfl

/-- The attempt takes a payload, which goes to the handler. -/
theorem receiveLoop_payload
    (counting : handle.getReciveBufferLength connectId = some (after, counted))
    (positive : 0 < counted)
    (received : after.reciveStrNoWait connectId [] = some (later, data, returned))
    (nonempty : 0 < returned) :
    receiveLoop connectId handler (fuel + 1) handle state =
      (handler state data returned).bind fun result =>
        if result.2 then receiveLoop connectId handler fuel later result.1
        else some (later, result.1, false) := by
  rw [receiveLoop, counting]
  simp only [Option.bind_eq_bind, Option.bind_some]
  rw [if_pos positive, received]
  simp only [Option.bind_some]
  rw [if_neg (Int.not_le.mpr nonempty)]
  rfl

/-- The loop of the read callback hands to its handler what the receiver drains. -/
theorem receiveLoop_of_ready {fuel : Nat} {next : Receiver} {handed : List Bytes}
    {state final : State} (ready : handle.Ready connectId info) (countable : info.Countable)
    (drained : Receiver.drain controlFormat fuel info.view = some (next, handed))
    (accepted : acceptAll handler state handed = some final) :
    ∃ after reached complete,
      receiveLoop connectId handler fuel handle state = some (after, final, complete) ∧
      after.Ready connectId reached ∧ reached.view = next ∧ reached.Countable := by
  induction fuel generalizing handle info handed state with
  | zero => cases drained
  | succ fuel ih =>
      rcases getReciveBufferLength_of_ready ready countable with ⟨counted, counting, still⟩
      rw [Receiver.drain] at drained
      by_cases empty : info.bev.input = []
      · rw [if_pos (show info.view.input = [] from empty)] at drained
        cases drained
        cases accepted
        have idle : ¬0 < (info.bev.input.length : Int) := by simp [empty]
        exact ⟨counted, info, true, receiveLoop_idle handler counting idle, still, rfl, countable⟩
      · rw [if_neg (show ¬info.view.input = [] from empty)] at drained
        rcases Option.bind_eq_some_iff.mp drained with ⟨outcome, polled, continued⟩
        rcases outcome with ⟨moved, payload⟩
        rcases reciveStrNoWait_of_ready still countable polled with
          ⟨after, reached, data, returned, received, readyNext, seen, countableNext, result⟩
        have positive : (0 : Int) < info.bev.input.length := by
          have := List.length_pos_of_ne_nil empty
          omega
        cases payload with
        | none =>
            cases result
            cases continued
            cases accepted
            exact ⟨after, reached, false, receiveLoop_waiting handler counting positive received,
              readyNext, seen, countableNext⟩
        | some bytes =>
            rcases result with ⟨rfl, rfl⟩
            cases data with
            | nil =>
                cases continued
                cases accepted
                exact ⟨after, reached, false,
                  receiveLoop_waiting handler counting positive received, readyNext, seen,
                  countableNext⟩
            | cons byte payload =>
                rcases Option.bind_eq_some_iff.mp continued with ⟨later, drainedNext, combined⟩
                cases combined
                rw [acceptAll] at accepted
                rcases Option.bind_eq_some_iff.mp accepted with ⟨result, handled, remaining⟩
                split at remaining
                · rename_i agreed
                  rw [receiveLoop_payload counting positive received (by simp), handled,
                    Option.bind_some, if_pos agreed]
                  subst seen
                  exact ih readyNext countableNext drainedNext remaining
                · cases remaining

/-- The record when a chunk has arrived. -/
def grown (info : BevInfor) (chunk : Bytes) : BevInfor :=
  { info with bev := { info.bev with input := info.bev.input ++ chunk } }

/-- A chunk that reaches the watermark runs the callback. -/
theorem arrive_woken (ready : handle.Ready connectId info) (callback : ReadCallback State)
    (state : State) {chunk : Bytes}
    (woken : info.bev.readLow ≤ (info.bev.input ++ chunk).length) :
    handle.arrive connectId callback state chunk =
      (callback ((info.bev.input ++ chunk).length + 1)
        (handle.setBevInfor connectId (grown info chunk)) state).map
          fun result => (result.1, result.2.1) := by
  rw [arrive, ready.found]
  simp only [Option.bind_eq_bind, Option.bind_some]
  rw [if_pos woken, Option.map_eq_bind]
  rfl

theorem arrive_asleep (ready : handle.Ready connectId info) (callback : ReadCallback State)
    (state : State) {chunk : Bytes}
    (asleep : ¬info.bev.readLow ≤ (info.bev.input ++ chunk).length) :
    handle.arrive connectId callback state chunk =
      some (handle.setBevInfor connectId (grown info chunk), state) := by
  rw [arrive, ready.found]
  simp only [Option.bind_eq_bind, Option.bind_some]
  rw [if_neg asleep]
  rfl

theorem ready_grown (ready : handle.Ready connectId info) (chunk : Bytes) :
    (handle.setBevInfor connectId (grown info chunk)).Ready connectId (grown info chunk) :=
  ready_setBevInfor ready.table ready.read

theorem countable_grown (countable : info.Countable) {chunk : Bytes}
    (fits : info.bev.input.length + chunk.length < 2 ^ 31) : (grown info chunk).Countable := by
  refine ⟨countable.cached, ?_⟩
  rw [grown, List.length_append]
  exact fits

/-- A chunk that arrives is a chunk delivered to the receiver. -/
theorem arrive_of_ready {chunk : Bytes} {next : Receiver} {handed : List Bytes}
    {state final : State} (ready : handle.Ready connectId info) (countable : info.Countable)
    (fits : info.bev.input.length + chunk.length < 2 ^ 31)
    (delivered : Receiver.deliver controlFormat info.view chunk = some (next, handed))
    (accepted : acceptAll handler state handed = some final) :
    ∃ after reached, handle.arrive connectId (receiveLoop connectId handler) state chunk =
      some (after, final) ∧
      after.Ready connectId reached ∧ reached.view = next ∧ reached.Countable := by
  rw [Receiver.deliver] at delivered
  by_cases woken : info.bev.readLow ≤ (info.bev.input ++ chunk).length
  · rw [if_pos (show info.view.low ≤ (info.view.input ++ chunk).length from woken)]
      at delivered
    rcases receiveLoop_of_ready (ready_grown ready chunk) (countable_grown countable fits)
      delivered accepted with ⟨after, reached, complete, looped, readyNext, seen, countableNext⟩
    have length : (info.view.input ++ chunk).length = (info.bev.input ++ chunk).length := rfl
    rw [length] at looped
    refine ⟨after, reached, ?_, readyNext, seen, countableNext⟩
    rw [arrive_woken ready _ state woken, looped]
    rfl
  · rw [if_neg (show ¬info.view.low ≤ (info.view.input ++ chunk).length from woken)]
      at delivered
    cases delivered
    cases accepted
    exact ⟨_, grown info chunk, arrive_asleep ready _ state woken, ready_grown ready chunk, rfl,
      countable_grown countable fits⟩

/-! ## Runs over chunks -/

/-- Chunks arrive one after another.  An undefined run has no state. -/
def receiving (connectId : Int) (callback : ReadCallback State) :
    Machine (Option (LibeventHandle × State)) Bytes Unit where
  step reached chunk :=
    (reached.bind fun current => current.1.arrive connectId callback current.2 chunk, ())

/-- The state after the chunks, from a handle and the callback's first state. -/
def receiveChunks (connectId : Int) (callback : ReadCallback State)
    (handle : LibeventHandle) (state : State) (chunks : List Bytes) :
    Option (LibeventHandle × State) :=
  (receiving connectId callback).exec (some (handle, state)) chunks

theorem receiveChunks_cons (callback : ReadCallback State) (state : State) (chunk : Bytes)
    (chunks : List Bytes) :
    handle.receiveChunks connectId callback state (chunk :: chunks) =
      (handle.arrive connectId callback state chunk).bind fun current =>
        current.1.receiveChunks connectId callback current.2 chunks := by
  rw [receiveChunks, Machine.exec_cons]
  change (receiving connectId callback).exec (handle.arrive connectId callback state chunk)
    chunks = _
  cases handle.arrive connectId callback state chunk with
  | some current => rfl
  | none =>
      induction chunks with
      | nil => rfl
      | cons other rest ih => exact ih

theorem receiveChunks_append (callback : ReadCallback State) (state : State)
    (first second : List Bytes) :
    handle.receiveChunks connectId callback state (first ++ second) =
      (handle.receiveChunks connectId callback state first).bind fun current =>
        current.1.receiveChunks connectId callback current.2 second := by
  induction first generalizing handle state with
  | nil => rfl
  | cons chunk rest ih =>
      rw [List.cons_append, receiveChunks_cons, receiveChunks_cons]
      cases handle.arrive connectId callback state chunk with
      | none => rfl
      | some current => exact ih current.2

/-- No chunk makes the input too long to be counted by an `int`. -/
def InputBelow (connectId : Int) (callback : ReadCallback State)
    (handle : LibeventHandle) (state : State) (chunks : List Bytes) : Prop :=
  (receiving connectId callback).Respects (some (handle, state))
    (fun _ reached chunk =>
      ∀ current ∈ reached, current.1.inputLength connectId + chunk.length < 2 ^ 31) chunks

/-- Where a run over chunks of a stream of frames has got to. -/
structure Progress (connectId : Int)
    (handler : State → Bytes → Int → Option (State × Bool)) (state : State)
    (payloads : List Bytes) (arrived : Bytes) (reached : Option (LibeventHandle × State))
    (done rest : List Bytes) (pending : Bytes) (handle : LibeventHandle) (info : BevInfor)
    (final : State) : Prop where
  reached : reached = some (handle, final)
  split : payloads = done ++ rest
  bytes : arrived = controlFormat.frames done ++ pending
  ready : handle.Ready connectId info
  countable : info.Countable
  standing : Receiver.Standing controlFormat info.view rest pending
  accepted : acceptAll handler state done = some final

theorem progress_initial (ready : handle.Ready connectId info) (fresh : info.Fresh)
    {payloads : List Bytes} (sized : Receiver.Sized controlFormat payloads) (state : State) :
    Progress connectId handler state payloads [] (some (handle, state)) [] payloads []
      handle info state := by
  refine ⟨rfl, rfl, rfl, ready, fresh.countable, ?_, rfl⟩
  rw [fresh.view_eq]
  exact Receiver.standing_initial sized

theorem Progress.inputLength_eq {state final : State} {payloads done rest : List Bytes}
    {arrived pending : Bytes} {reached : Option (LibeventHandle × State)}
    (progress : Progress connectId handler state payloads arrived reached done rest pending
      handle info final) : handle.inputLength connectId = info.bev.input.length := by
  rw [inputLength, progress.ready.found]

/-- One more chunk of the stream, when the handler accepts all payloads. -/
theorem Progress.step {state final : State} {payloads done rest : List Bytes}
    {arrived pending chunk : Bytes} {reached : Option (LibeventHandle × State)}
    (progress : Progress connectId handler state payloads arrived reached done rest pending
      handle info final)
    (accepting : ∀ initial, initial <+: payloads → (acceptAll handler state initial).isSome)
    (arriving : chunk ≠ []) (within : arrived ++ chunk <+: controlFormat.frames payloads)
    (fits : handle.inputLength connectId + chunk.length < 2 ^ 31) :
    ∃ handed later remaining after moved last,
      Receiver.deliver controlFormat info.view chunk = some (moved.view, handed) ∧
      Progress connectId handler state payloads (arrived ++ chunk)
        ((receiving connectId (receiveLoop connectId handler)).step reached chunk).1
        (done ++ handed) later remaining after moved last := by
  have inside : pending ++ chunk <+: controlFormat.frames rest := by
    rw [progress.bytes, progress.split, HeaderFormat.frames_append, List.append_assoc,
      List.prefix_append_right_inj] at within
    exact within
  rcases Receiver.deliver_standing progress.standing arriving inside with
    ⟨next, handed, later, remaining, delivered, split, bytes, standing, _⟩
  have whole : payloads = (done ++ handed) ++ later := by
    rw [progress.split, split, List.append_assoc]
  rcases Option.isSome_iff_exists.mp
    (accepting (done ++ handed) (whole ▸ List.prefix_append _ _)) with ⟨last, accepted⟩
  have acceptedNow : acceptAll handler final handed = some last := by
    rw [acceptAll_append, progress.accepted, Option.bind_some] at accepted
    exact accepted
  rw [progress.inputLength_eq] at fits
  rcases arrive_of_ready progress.ready progress.countable fits delivered acceptedNow with
    ⟨after, moved, arrived, ready, seen, countable⟩
  subst seen
  refine ⟨handed, later, remaining, after, moved, last, delivered, ?_, whole, ?_, ready,
    countable, standing, accepted⟩
  · rw [receiving, progress.reached]
    exact arrived
  · rw [progress.bytes, List.append_assoc, bytes, HeaderFormat.frames_append,
      List.append_assoc]

/-- Chunks that cut a prefix of a stream: none is empty. -/
structure CutPrefix (chunks : List Bytes) (stream : Bytes) : Prop where
  nonempty : ∀ chunk ∈ chunks, chunk ≠ []
  within : chunks.flatten <+: stream

theorem CutPrefix.init {chunks : List Bytes} {chunk stream : Bytes}
    (cut : CutPrefix (chunks ++ [chunk]) stream) : CutPrefix chunks stream := by
  refine ⟨fun other member => cut.nonempty other (List.mem_append_left _ member), ?_⟩
  have within := cut.within
  rw [List.flatten_append] at within
  exact (List.prefix_append _ _).trans within

/-- Every run over chunks of a stream of frames makes progress through it. -/
theorem progress_run (ready : handle.Ready connectId info) (fresh : info.Fresh)
    {payloads chunks : List Bytes} {state : State}
    (sized : Receiver.Sized controlFormat payloads)
    (accepting : ∀ initial, initial <+: payloads → (acceptAll handler state initial).isSome)
    (cut : CutPrefix chunks (controlFormat.frames payloads))
    (below : InputBelow connectId (receiveLoop connectId handler) handle state chunks) :
    ∃ done rest pending after reached final,
      Progress connectId handler state payloads chunks.flatten
        (receiveChunks connectId (receiveLoop connectId handler) handle state chunks)
        done rest pending after reached final := by
  induction chunks using List.reverseRecOn with
  | nil => exact ⟨[], payloads, [], handle, info, state, progress_initial ready fresh sized state⟩
  | append_singleton chunks chunk ih =>
      rcases Machine.respects_concat.mp below with ⟨earlier, fits⟩
      rcases ih cut.init earlier with ⟨done, rest, pending, after, reached, final, progress⟩
      have within := cut.within
      rw [List.flatten_append, List.flatten_singleton] at within
      rcases progress.step accepting (cut.nonempty chunk (by simp)) within
        (fits _ progress.reached) with
        ⟨handed, later, remaining, next, moved, last, _, stepped⟩
      refine ⟨done ++ handed, later, remaining, next, moved, last, ?_⟩
      rw [List.flatten_append, List.flatten_singleton, receiveChunks, Machine.exec_concat]
      exact stepped

end LibeventHandle

end MultiMaster.NetIO
