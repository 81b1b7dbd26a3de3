import MultiMaster.NetIO.Delivery

/-!
# Receiving with and without waiting

`wait_recive` and `recive_str_Wait` sleep until a control block and its payload have
arrived; `recive_str_NoWait` returns at once.  Both leave a control block that was read in
the record of the connection, but only `recive_str_NoWait` looks whether one is there.
The definitions follow `libevent_handle.cc`, with the outcomes of the reads as flags.

A waiting call is given the bytes that libevent appends to the input while it waits for the
control block, and those while it waits for the payload.
-/

namespace MultiMaster.NetIO

open Foundation

/-- Why a call does not return: it spins at a lock, it still waits for bytes, a string
throws, or it reads through a bad pointer. -/
inductive Stop where
  | spinning
  | waiting
  | throwing
  | undefined
  deriving DecidableEq

/-- A result, or the reason for which there is none. -/
def orStop {α : Type} (stop : Stop) : Option α → Except Stop α
  | some value => .ok value
  | none => .error stop

namespace BevInfor

/-- The part that both variants share: a control block is read into the record.  The record
is marked before the read and stays so when libevent refuses it. -/
def readBlock (info : BevInfor) (accepted : Bool) : BevInfor × Int :=
  if accepted then
    let (block, bev) := info.bev.read controlBlockSize
    ({ info with
      bev := bev
      cacheBlock := true
      blockSize := toInt (leValue block) }, toInt block.length)
  else
    ({ info with cacheBlock := true, blockSize := 0 }, -1)

/-- The payload is read into `data` and the read lock given back. -/
def readPayload (info : BevInfor) (data : Bytes) (accepted : Bool) : BevInfor × Bytes × Int :=
  if accepted then
    let (bytes, bev) := info.bev.read (toSize info.blockSize)
    ({ info with
      bev := bev
      cacheBlock := false
      readSingal := rwWUnlock info.readSingal }, overwrite data 0 bytes, toInt bytes.length)
  else
    ({ info with readSingal := rwWUnlock info.readSingal }, data, -1)

/-- `readBufferControlBlock_NoWait` when the read may fail. -/
def tryReadBufferControlBlockNoWait (info : BevInfor) (accepted : Bool) :
    Except Stop (BevInfor × Int) := do
  let locked ← orStop .spinning (rwWLock info.readSingal)
  if toSize (toInt info.bev.input.length) < controlBlockSize then
    return ({ info with readSingal := rwWUnlock locked }, 0)
  else
    let (info, readSize) := { info with readSingal := locked }.readBlock accepted
    if readSize < 0 then
      return ({ info with readSingal := rwWUnlock info.readSingal }, -1)
    else
      return (info, readSize)

/-- `readBuffer_NoWait` when the read may fail. -/
def tryReadBufferNoWait (info : BevInfor) (data : Bytes) (accepted : Bool) :
    BevInfor × Bytes × Int :=
  if info.cacheBlock then
    if toInt info.bev.input.length < info.blockSize then
      ({ info with
        bev := info.bev.setReadWatermark (toSize info.blockSize)
        readSingal := rwWUnlock info.readSingal }, data, 0)
    else
      { info with bev := info.bev.setReadWatermark 0 }.readPayload data accepted
  else
    (info, data, -1)

/-- Wait for a control block and read it.  The read lock is held meanwhile, and kept when
the block was read. -/
def readBufferControlBlockWait (info : BevInfor) (arriving : Bytes) (accepted : Bool) :
    Except Stop (BevInfor × Int) := do
  let locked ← orStop .spinning (rwWLock info.readSingal)
  let info := LibeventHandle.grown { info with readSingal := locked } arriving
  if toSize (toInt info.bev.input.length) < controlBlockSize then
    .error .waiting
  else
    let (info, readSize) := info.readBlock accepted
    if readSize < 0 then
      return ({ info with readSingal := rwWUnlock info.readSingal }, -1)
    else
      return (info, readSize)

/-- Wait for the payload and read it into `data`. -/
def readBufferWait (info : BevInfor) (data : Bytes) (arriving : Bytes) (accepted : Bool) :
    Except Stop (BevInfor × Bytes × Int) :=
  if info.cacheBlock then
    let info := LibeventHandle.grown info arriving
    if toInt info.bev.input.length < info.blockSize then
      .error .waiting
    else
      return info.readPayload data accepted
  else
    return (info, data, -1)

end BevInfor

/-- What happens while a call receives: the bytes that arrive during its two waits, and
whether libevent accepts its two reads. -/
structure Reception where
  first : Bytes
  second : Bytes
  blockAccepted : Bool
  dataAccepted : Bool

namespace LibeventHandle

/-- Receive into a buffer of the caller, which must have room for the payload. -/
def waitRecive (handle : LibeventHandle) (connectId : Int) (reciveBytes : Bytes)
    (reception : Reception) : Except Stop (LibeventHandle × Bytes × Int) := do
  let (handle, found) ← orStop .spinning (handle.lookupConnection connectId)
  match found with
  | none => return (handle, reciveBytes, -1)
  | some info =>
      let (info, _) ← info.readBufferControlBlockWait reception.first reception.blockAccepted
      let read ← info.readBufferWait reciveBytes reception.second reception.dataAccepted
      return (handle.setBevInfor connectId read.1, read.2)

/-- Receive into a string, which grows as with `recive_str_NoWait`. -/
def reciveStrWait (handle : LibeventHandle) (connectId : Int) (bufferStr : Bytes)
    (reception : Reception) : Except Stop (LibeventHandle × Bytes × Int) := do
  let (handle, found) ← orStop .spinning (handle.lookupConnection connectId)
  match found with
  | none => return (handle, bufferStr, -1)
  | some info =>
      let (info, _) ← info.readBufferControlBlockWait reception.first reception.blockAccepted
      let bufferStr ← orStop .throwing (info.growString bufferStr)
      let read ← info.readBufferWait bufferStr reception.second reception.dataAccepted
      return (handle.setBevInfor connectId read.1, read.2)

/-- `recive_str_NoWait` when the reads may fail. -/
def tryReciveStrNoWait (handle : LibeventHandle) (connectId : Int) (bufferStr : Bytes)
    (blockAccepted dataAccepted : Bool) : Except Stop (LibeventHandle × Bytes × Int) := do
  let (handle, found) ← orStop .spinning (handle.lookupConnection connectId)
  match found with
  | none => return (handle, bufferStr, -1)
  | some _ =>
      let (handle, length) ← orStop .spinning (handle.getReciveBufferLength connectId)
      if toSize length ≤ controlBlockSize then
        return (handle, bufferStr, 0)
      else
        let info ← orStop .undefined (handle.bevMap.lookup connectId)
        let info ← if info.cacheBlock then pure info
          else (info.tryReadBufferControlBlockNoWait blockAccepted).map Prod.fst
        let bufferStr ← orStop .throwing (info.growString bufferStr)
        let read := info.tryReadBufferNoWait bufferStr dataAccepted
        return (handle.setBevInfor connectId read.1, read.2)

end LibeventHandle

@[simp] theorem orStop_some {α : Type} (stop : Stop) (value : α) :
    orStop stop (some value) = .ok value := rfl

@[simp] theorem orStop_none {α : Type} (stop : Stop) :
    orStop stop (none : Option α) = .error stop := rfl

@[simp] theorem orStop_pure {α : Type} (stop : Stop) (value : α) :
    orStop stop (pure value) = pure value := rfl

@[simp] theorem ok_bind {α β : Type} (value : α) (next : α → Except Stop β) :
    (Except.ok value >>= next) = next value := rfl

@[simp] theorem error_bind {α β : Type} (stop : Stop) (next : α → Except Stop β) :
    (Except.error stop >>= next) = .error stop := rfl

/-! ## Accepted reads -/

namespace BevInfor

variable {info : BevInfor}

theorem not_toInt_take_neg (bytes : Bytes) :
    ¬toInt (bytes.take controlBlockSize).length < 0 := by
  have few : (bytes.take controlBlockSize).length ≤ 4 := List.length_take_le _ _
  rw [toInt_of_lt (by omega)]
  omega

/-- The record and the size after an accepted read of a control block. -/
theorem readBlock_accepted (info : BevInfor) :
    info.readBlock true =
      ({ info with
        bev := { info.bev with input := info.bev.input.drop controlBlockSize }
        cacheBlock := true
        blockSize := toInt (leValue (info.bev.input.take controlBlockSize)) },
        toInt (info.bev.input.take controlBlockSize).length) := by
  simp only [readBlock, Bufferevent.read, if_true]

theorem tryReadBufferControlBlockNoWait_accepted (info : BevInfor) :
    info.tryReadBufferControlBlockNoWait true =
      orStop .spinning info.readBufferControlBlockNoWait := by
  rw [tryReadBufferControlBlockNoWait, readBufferControlBlockNoWait]
  dsimp only
  generalize toSize (toInt info.bev.input.length) = available
  cases rwWLock info.readSingal with
  | none => rfl
  | some locked =>
      rw [orStop_some, ok_bind, Option.bind_eq_bind, Option.bind_some]
      by_cases few : available < controlBlockSize
      · rw [if_pos few, if_pos few, orStop_pure]
      · rw [if_neg few, if_neg few, readBlock_accepted]
        dsimp only
        rw [if_neg (not_toInt_take_neg info.bev.input), Bufferevent.read, orStop_pure]

theorem tryReadBufferNoWait_accepted (info : BevInfor) (data : Bytes) :
    info.tryReadBufferNoWait data true = info.readBufferNoWait data := by
  rw [tryReadBufferNoWait, readBufferNoWait]
  by_cases cached : info.cacheBlock = true
  · rw [if_pos cached, if_pos cached]
    rfl
  · rw [if_neg cached, if_neg cached]

end BevInfor

namespace LibeventHandle

/-- With accepted reads this is the call that is used elsewhere. -/
theorem tryReciveStrNoWait_accepted (handle : LibeventHandle) (connectId : Int)
    (bufferStr : Bytes) :
    (handle.tryReciveStrNoWait connectId bufferStr true true).toOption =
      handle.reciveStrNoWait connectId bufferStr := by
  rw [tryReciveStrNoWait, reciveStrNoWait]
  cases handle.lookupConnection connectId with
  | none => rfl
  | some looked =>
      rcases looked with ⟨unlocked, found⟩
      cases found with
      | none => rfl
      | some _ =>
          simp only [orStop_some, Option.bind_eq_bind, Option.bind_some, ok_bind]
          cases unlocked.getReciveBufferLength connectId with
          | none => rfl
          | some counted =>
              rcases counted with ⟨after, length⟩
              simp only [orStop_some, Option.bind_some, ok_bind]
              by_cases few : toSize length ≤ controlBlockSize
              · rw [if_pos few, if_pos few]
                rfl
              · rw [if_neg few, if_neg few]
                cases after.bevMap.lookup connectId with
                | none => rfl
                | some info =>
                    simp only [orStop_some, Option.bind_some, ok_bind,
                      BevInfor.tryReadBufferControlBlockNoWait_accepted,
                      BevInfor.tryReadBufferNoWait_accepted]
                    by_cases cached : info.cacheBlock = true
                    · rw [if_pos cached, if_pos cached]
                      simp only [pure_bind]
                      cases info.growString bufferStr with
                      | none => rfl
                      | some grown => rfl
                    · rw [if_neg cached, if_neg cached]
                      cases info.readBufferControlBlockNoWait with
                      | none => rfl
                      | some read =>
                          simp only [orStop_some, Option.map_some, Option.bind_some]
                          cases growing : read.1.growString bufferStr with
                          | none => simp [Except.map, growing, Except.toOption]
                          | some grown => simp [Except.map, growing, Except.toOption]

end LibeventHandle

end MultiMaster.NetIO
