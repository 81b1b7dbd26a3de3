import MultiMaster.NetIO.SendReport
import MultiMaster.NetIO.WaitingReceive

/-!
# Locks between two calls

All operations of a `LibeventHandle` take and give back the lock of the connection table,
that of the list of listeners and those of a connection.  This module supplies the
operations that are not modelled elsewhere and follows the counters of all locks over
sequential runs, with failing reads and writes and with ids that do not exist.

`bev_map[id]` enters an id that does not exist with null pointers.  Such ids are kept
beside the table; an operation that follows one of the pointers is undefined.
-/

namespace MultiMaster.NetIO

open Foundation

/-! ## More operations -/

namespace LibeventHandle

def getListenConnectionCount (handle : LibeventHandle) : Option (LibeventHandle × Int) := do
  let locked ← rwRLock handle.listenVectorRwLockSingal
  return ({ handle with listenVectorRwLockSingal := rwRUnlock locked },
    toInt handle.listenIdVector.length)

def getListenConnectionArray (handle : LibeventHandle) :
    Option (LibeventHandle × List Int) := do
  let locked ← rwRLock handle.listenVectorRwLockSingal
  return ({ handle with listenVectorRwLockSingal := rwRUnlock locked }, handle.listenIdVector)

/-- Remove a connection.  For an accepted one the source also erases from the list of
listeners, but the entry at position `id`. -/
def removeBuffevent (handle : LibeventHandle) (id : Int) :
    Except Stop (LibeventHandle × Int) := do
  let locked ← orStop .spinning (rwWLock handle.bevMapRwLockSingal)
  match handle.bevMap.lookup id with
  | none => return ({ handle with bevMapRwLockSingal := rwWUnlock locked }, -1)
  | some info =>
      let handle ←
        if info.isListen then do
          let listening ← orStop .spinning (rwWLock handle.listenVectorRwLockSingal)
          if 0 ≤ id ∧ id < handle.listenIdVector.length then
            pure { handle with
              listenVectorRwLockSingal := rwWUnlock listening
              listenIdVector := handle.listenIdVector.eraseIdx id.toNat }
          else
            .error .undefined
        else
          pure handle
      return ({ handle with
        bevMapRwLockSingal := rwWUnlock locked
        bevMap := handle.bevMap.erase id }, id)

end LibeventHandle

/-- A handle with the ids that were entered without a connection. -/
structure HandleState where
  handle : LibeventHandle
  blanks : List Int

namespace HandleState

/-- `bev_map[id]` for an id that need not exist. -/
def enter (state : HandleState) (id : Int) : HandleState :=
  if (state.handle.bevMap.lookup id).isSome ∨ id ∈ state.blanks then state
  else { state with blanks := id :: state.blanks }

/-- Put back a handle; ids that now have a connection are no longer blank. -/
def update (state : HandleState) (handle : LibeventHandle) : HandleState :=
  ⟨handle, state.blanks.filter fun id => (handle.bevMap.lookup id).isNone⟩

def getConnectionIp (state : HandleState) (id : Int) : Option (HandleState × CString) := do
  let locked ← rwRLock state.handle.bevMapRwLockSingal
  let entered := state.enter id
  let ip := (state.handle.bevMap.lookup id).elim (.ofString "") BevInfor.ip
  return ({ entered with
    handle := { entered.handle with bevMapRwLockSingal := rwRUnlock locked } }, ip)

def getConnectionPort (state : HandleState) (id : Int) : Option (HandleState × Int) := do
  let locked ← rwRLock state.handle.bevMapRwLockSingal
  let entered := state.enter id
  let port := (state.handle.bevMap.lookup id).elim 0 BevInfor.port
  return ({ entered with
    handle := { entered.handle with bevMapRwLockSingal := rwRUnlock locked } }, port)

end HandleState

/-- The operations with their arguments and the outcomes of the calls into libevent. -/
inductive HandleCall where
  | send (connectId : Int) (sendBytes : Bytes) (sendSize : Int)
      (blockAccepted dataAccepted : Bool)
  | waitRecive (connectId : Int) (reciveBytes : Bytes) (reception : Reception)
  | reciveStrWait (connectId : Int) (bufferStr : Bytes) (reception : Reception)
  | reciveStrNoWait (connectId : Int) (bufferStr : Bytes) (blockAccepted dataAccepted : Bool)
  | getReciveBufferLength (connectId : Int)
  | getConnectionId (ip : CString) (port : Int) (tryConnect connected : Bool)
      (fresh : Int × Bool)
  | getConnectionIp (id : Int)
  | getConnectionPort (id : Int)
  | getListenConnectionCount
  | getListenConnectionArray
  | addBuffereventConnect (ip : CString) (port : Int) (connected : Bool) (fresh : Int × Bool)
  | addBuffereventListen (ip : CString) (port : Int) (fresh : Int × Bool)
  | removeBuffevent (id : Int)

namespace HandleState

/-- Follow the pointers of a connection, unless they are null. -/
def follow {α : Type} (state : HandleState) (id : Int) (result : Except Stop α) :
    Except Stop α :=
  if id ∈ state.blanks then .error .undefined else result

/-- The state after an operation that returns. -/
def call (state : HandleState) : HandleCall → Except Stop HandleState
  | .send connectId sendBytes sendSize blockAccepted dataAccepted => do
      let sent ←
        if connectId < 0 then pure (state.handle, false)
        else state.follow connectId (orStop .spinning
          (state.handle.send connectId sendBytes sendSize blockAccepted dataAccepted))
      return state.update sent.1
  | .waitRecive connectId reciveBytes reception => do
      let received ← state.follow connectId
        (state.handle.waitRecive connectId reciveBytes reception)
      return state.update received.1
  | .reciveStrWait connectId bufferStr reception => do
      let received ← state.follow connectId
        (state.handle.reciveStrWait connectId bufferStr reception)
      return state.update received.1
  | .reciveStrNoWait connectId bufferStr blockAccepted dataAccepted => do
      let received ← state.follow connectId
        (state.handle.tryReciveStrNoWait connectId bufferStr blockAccepted dataAccepted)
      return state.update received.1
  | .getReciveBufferLength connectId => do
      let counted ← state.follow connectId
        (orStop .spinning (state.handle.getReciveBufferLength connectId))
      return state.update counted.1
  | .getConnectionId ip port tryConnect connected fresh => do
      -- A blank entry has an empty ip and port 0 and is found like any other.
      let blankFound := ip.val = [] ∧ port = 0 ∧ state.blanks ≠ []
      let asked ← orStop .spinning (state.handle.getConnectionId ip port
        (tryConnect && !decide blankFound) connected fresh)
      return state.update asked.1
  | .getConnectionIp id => do
      let asked ← orStop .spinning (state.getConnectionIp id)
      return asked.1
  | .getConnectionPort id => do
      let asked ← orStop .spinning (state.getConnectionPort id)
      return asked.1
  | .getListenConnectionCount => do
      let counted ← orStop .spinning state.handle.getListenConnectionCount
      return state.update counted.1
  | .getListenConnectionArray => do
      let copied ← orStop .spinning state.handle.getListenConnectionArray
      return state.update copied.1
  | .addBuffereventConnect ip port connected fresh => do
      let added ← orStop .spinning (state.handle.addBuffereventConnect ip port connected fresh)
      return state.update added.1
  | .addBuffereventListen ip port fresh => do
      let added ← orStop .spinning (state.handle.addBuffereventListen ip port fresh)
      return state.update added.1
  | .removeBuffevent id => do
      let removed ← state.follow id (state.handle.removeBuffevent id)
      return state.update removed.1

end HandleState

/-! ## Free locks -/

theorem rwWLock_free {singal : Int} (free : singal = 0) : rwWLock singal = some (-1) := by
  rw [free]
  rfl

/-- Neither lock of a record is held. -/
def BevInfor.Released (info : BevInfor) : Prop :=
  info.readSingal = 0 ∧ info.writeSingal = 0

/-- No lock is held. -/
structure LibeventHandle.AllFree (handle : LibeventHandle) : Prop where
  table : handle.bevMapRwLockSingal = 0
  listeners : handle.listenVectorRwLockSingal = 0
  connections : ∀ id info, handle.bevMap.lookup id = some info →
    info.Released

/-- A call returns with all locks free, or still waits for bytes. -/
def GivesBack {α : Type} (handleOf : α → LibeventHandle) : Except Stop α → Prop
  | .ok after => (handleOf after).AllFree
  | .error stop => stop = .waiting

namespace LibeventHandle

variable {handle : LibeventHandle} {connectId : Int} {info : BevInfor}

/-- A record with free locks is put into the table. -/
theorem AllFree.insert (free : handle.AllFree)
    (released : info.Released) (id : Int) :
    ∀ other found, (handle.bevMap.insert id info).lookup other = some found →
      found.Released := by
  intro other found looked
  by_cases same : other = id
  · rw [same, OrderedMap.lookup_insert, Option.some.injEq] at looked
    rw [← looked]
    exact released
  · rw [OrderedMap.lookup_insert_ne same] at looked
    exact free.connections other found looked

theorem AllFree.setBevInfor (free : handle.AllFree)
    (released : info.Released) (id : Int) :
    (handle.setBevInfor id info).AllFree :=
  ⟨free.table, free.listeners, free.insert released id⟩

theorem AllFree.withConnection (free : handle.AllFree) (ip : CString) (port : Int)
    (fresh : Int × Bool) : (handle.withConnection ip port fresh).AllFree :=
  ⟨free.table, free.listeners, free.insert ⟨rfl, rfl⟩ _⟩

theorem AllFree.lookupConnection (free : handle.AllFree) (id : Int) :
    handle.lookupConnection id = some (handle, handle.bevMap.lookup id) := by
  rcases handle with ⟨maxBevId, singal, bevMap, listenSingal, listenIdVector⟩
  cases free.table
  rfl

theorem AllFree.ready (free : handle.AllFree)
    (found : handle.bevMap.lookup connectId = some info) : handle.Ready connectId info :=
  ⟨free.table, found, (free.connections connectId info found).1⟩

end LibeventHandle

/-! ## Reading -/

namespace BevInfor

variable {info : BevInfor} {data : Bytes}

/-- The size in a control block that is read, or the zero that stays when libevent refuses
the read. -/
def announced (input : Bytes) (accepted : Bool) : Int :=
  if accepted then toInt (leValue (input.take controlBlockSize)) else 0

/-- The locks of a record while a payload is received: the read lock is held by the call or
free. -/
structure Reading (info blocked : BevInfor) : Prop where
  cached : blocked.cacheBlock = true
  read : blocked.readSingal = -1 ∨ blocked.readSingal = 0
  write : blocked.writeSingal = info.writeSingal

theorem Reading.unlocked {blocked : BevInfor} (reading : Reading info blocked) :
    rwWUnlock blocked.readSingal = 0 := by
  rcases reading.read with held | free
  · rw [held]
    rfl
  · rw [free]
    rfl

theorem readBlock_refused (info : BevInfor) :
    info.readBlock false = ({ info with cacheBlock := true, blockSize := 0 }, -1) := rfl

/-- A refused read gives the read lock back and an accepted one keeps it; the payload is
read next in both cases. -/
theorem reading_readBlock {accepted : Bool} {blocked : BevInfor} {size : Int}
    (locked : info.readSingal = -1) (read : info.readBlock accepted = (blocked, size)) :
    ∃ after taken,
      (if size < 0 then
          pure ({ blocked with readSingal := rwWUnlock blocked.readSingal }, (-1 : Int))
        else pure (blocked, size) : Except Stop (BevInfor × Int)) = .ok (after, taken) ∧
      Reading info after ∧ after.blockSize = announced info.bev.input accepted := by
  cases accepted with
  | false =>
      rw [readBlock_refused, Prod.mk.injEq] at read
      rw [← read.1, ← read.2, if_pos (by decide)]
      refine ⟨_, _, rfl, ⟨rfl, .inr ?_, rfl⟩, rfl⟩
      rw [locked]
      rfl
  | true =>
      rw [readBlock_accepted, Prod.mk.injEq] at read
      rw [← read.1, ← read.2, if_neg (not_toInt_take_neg info.bev.input), announced, if_pos rfl]
      refine ⟨_, _, rfl, ⟨rfl, .inl locked, rfl⟩, ?_⟩
      dsimp only

theorem readPayload_releases (reading : Reading info info) (free : info.writeSingal = 0)
    (accepted : Bool) : (info.readPayload data accepted).1.Released := by
  cases accepted with
  | false => exact ⟨reading.unlocked, free⟩
  | true => exact ⟨reading.unlocked, free⟩

/-- Room for a payload can be made in a string. -/
def CanGrow (size : Int) (bufferStr : Bytes) : Prop :=
  0 ≤ size ∨ toSize size < bufferStr.length

theorem growString_cases (info : BevInfor) (bufferStr : Bytes) :
    (CanGrow info.blockSize bufferStr ∧ ∃ grown, info.growString bufferStr = some grown) ∨
      ¬CanGrow info.blockSize bufferStr ∧ info.growString bufferStr = none := by
  rw [growString, CanGrow]
  generalize toSize info.blockSize = size
  by_cases fits : bufferStr.length ≤ size
  · rw [if_pos fits]
    by_cases negative : info.blockSize < 0
    · rw [if_pos negative]
      exact .inr ⟨by omega, rfl⟩
    · rw [if_neg negative]
      exact .inl ⟨.inl (by omega), _, rfl⟩
  · rw [if_neg fits]
    exact .inl ⟨.inr (by omega), _, rfl⟩

theorem readBufferControlBlockWait_cases (free : info.readSingal = 0) (arriving : Bytes)
    (accepted : Bool) :
    (toSize (toInt (info.bev.input ++ arriving).length) < controlBlockSize ∧
        info.readBufferControlBlockWait arriving accepted = .error .waiting) ∨
      ¬toSize (toInt (info.bev.input ++ arriving).length) < controlBlockSize ∧
        ∃ blocked size, info.readBufferControlBlockWait arriving accepted =
            .ok (blocked, size) ∧
          Reading info blocked ∧
          blocked.blockSize = announced (info.bev.input ++ arriving) accepted := by
  rw [readBufferControlBlockWait, rwWLock_free free, orStop_some, ok_bind]
  dsimp only [LibeventHandle.grown]
  generalize toSize (toInt (info.bev.input ++ arriving).length) = available
  by_cases few : available < controlBlockSize
  · rw [if_pos few]
    exact .inl ⟨few, rfl⟩
  · rw [if_neg few]
    refine .inr ⟨few, ?_⟩
    rcases read : readBlock _ accepted with ⟨blocked, size⟩
    rcases reading_readBlock rfl read with ⟨after, taken, outcome, reading, announces⟩
    exact ⟨after, taken, outcome, ⟨reading.cached, reading.read, reading.write⟩, announces⟩

/-- Once the payload has arrived and was read or not, the locks are free. -/
theorem readBufferWait_cases (data : Bytes) (reading : Reading info info)
    (free : info.writeSingal = 0) (arriving : Bytes) (accepted : Bool) :
    info.readBufferWait data arriving accepted = .error .waiting ∨
      ∃ read, info.readBufferWait data arriving accepted = .ok read ∧ read.1.Released := by
  rw [readBufferWait, if_pos reading.cached]
  dsimp only
  by_cases few : toInt (LibeventHandle.grown info arriving).bev.input.length <
      (LibeventHandle.grown info arriving).blockSize
  · rw [if_pos few]
    exact .inl rfl
  · rw [if_neg few]
    have grown : Reading (LibeventHandle.grown info arriving)
        (LibeventHandle.grown info arriving) := ⟨reading.cached, reading.read, rfl⟩
    exact .inr ⟨_, rfl, readPayload_releases grown free accepted⟩

/-- Without waiting the read lock is kept for a control block that was read. -/
theorem tryReadBufferControlBlockNoWait_reading (free : info.readSingal = 0)
    (enough : ¬toSize (toInt info.bev.input.length) < controlBlockSize) (accepted : Bool) :
    ∃ blocked size, info.tryReadBufferControlBlockNoWait accepted = .ok (blocked, size) ∧
      Reading info blocked ∧ blocked.blockSize = announced info.bev.input accepted := by
  rw [tryReadBufferControlBlockNoWait, rwWLock_free free, orStop_some, ok_bind, if_neg enough]
  rcases read : readBlock _ accepted with ⟨blocked, size⟩
  rcases reading_readBlock rfl read with ⟨after, taken, outcome, reading, announces⟩
  exact ⟨after, taken, outcome, ⟨reading.cached, reading.read, reading.write⟩, announces⟩

theorem tryReadBufferNoWait_releases (reading : Reading info info) (free : info.writeSingal = 0)
    (accepted : Bool) : (info.tryReadBufferNoWait data accepted).1.Released := by
  rw [tryReadBufferNoWait, if_pos reading.cached]
  by_cases few : toInt info.bev.input.length < info.blockSize
  · rw [if_pos few]
    exact ⟨reading.unlocked, free⟩
  · rw [if_neg few]
    have watched : Reading { info with bev := info.bev.setReadWatermark 0 }
        { info with bev := info.bev.setReadWatermark 0 } := ⟨reading.cached, reading.read, rfl⟩
    exact readPayload_releases watched free accepted

end BevInfor

/-! ## Single calls -/

section Returns

variable {α β : Type} {handleOf : α → LibeventHandle} {stop : Stop}

theorem givesBack_orStop {result : Option α} (different : stop ≠ .waiting) :
    GivesBack handleOf (orStop stop result) ↔
      ∃ after, result = some after ∧ (handleOf after).AllFree := by
  cases result with
  | none => simp [GivesBack, different]
  | some after => simp [GivesBack]

/-- What is done with a result that keeps its handle does not matter. -/
theorem givesBack_map {next : α → β} {handleOf' : β → LibeventHandle}
    (same : ∀ after, handleOf' (next after) = handleOf after) (result : Except Stop α) :
    GivesBack handleOf' (result >>= fun after => pure (next after)) ↔
      GivesBack handleOf result := by
  cases result with
  | error stop => rfl
  | ok after =>
      change (handleOf' (next after)).AllFree ↔ (handleOf after).AllFree
      rw [same]

theorem HandleState.givesBack_follow {state : HandleState} {id : Int}
    {result : Except Stop α} :
    GivesBack handleOf (state.follow id result) ↔
      id ∉ state.blanks ∧ GivesBack handleOf result := by
  rw [follow]
  by_cases blank : id ∈ state.blanks
  · rw [if_pos blank]
    exact iff_of_false Stop.noConfusion fun present => present.1 blank
  · rw [if_neg blank, and_iff_right blank]

end Returns

namespace LibeventHandle

variable {handle : LibeventHandle} {connectId : Int} {info : BevInfor} {bufferStr : Bytes}

/-- The lock of the table stays taken by a send to an id that does not exist. -/
theorem send_givesBack_iff (free : handle.AllFree) (valid : 0 ≤ connectId) (sendBytes : Bytes)
    (sendSize : Int) (blockAccepted dataAccepted : Bool) :
    GivesBack Prod.fst (orStop .spinning
        (handle.send connectId sendBytes sendSize blockAccepted dataAccepted)) ↔
      (handle.bevMap.lookup connectId).isSome := by
  rw [givesBack_orStop Stop.noConfusion]
  cases found : handle.bevMap.lookup connectId with
  | none =>
      have sent : handle.send connectId sendBytes sendSize blockAccepted dataAccepted =
          some ({ handle with bevMapRwLockSingal := 1 }, false) := by
        rw [send, if_neg (by omega), free.table, found]
        rfl
      rw [sent]
      simp only [Option.some.injEq, Option.isSome_none, Bool.false_eq_true, iff_false]
      rintro ⟨_, rfl, leaked⟩
      cases leaked.table
  | some info =>
      have released := free.connections connectId info found
      rw [send_present valid (by rw [free.table]) found (by rw [released.2])]
      generalize written : info.appendOutput _ = after
      have unlocked : after.Released := by
        rw [← written]
        exact released
      exact iff_of_true ⟨_, rfl, free.setBevInfor unlocked connectId⟩ rfl

/-- Asking for the length changes nothing. -/
theorem getReciveBufferLength_free (free : handle.AllFree)
    (found : handle.bevMap.lookup connectId = some info) :
    ∃ after, handle.getReciveBufferLength connectId =
        some (after, toInt info.bev.input.length) ∧
      after.AllFree ∧ after.Ready connectId info := by
  have released := free.connections connectId info found
  exact ⟨_, getReciveBufferLength_ready (free.ready found), free.setBevInfor released connectId,
    ready_setBevInfor free.table released.1⟩

theorem getReciveBufferLength_givesBack (free : handle.AllFree) (connectId : Int) :
    GivesBack Prod.fst (orStop .spinning (handle.getReciveBufferLength connectId)) := by
  rw [givesBack_orStop Stop.noConfusion]
  cases found : handle.bevMap.lookup connectId with
  | none =>
      refine ⟨(handle, 0), ?_, free⟩
      rw [getReciveBufferLength, free.lookupConnection, found]
      rfl
  | some info =>
      rcases getReciveBufferLength_free free found with ⟨after, counted, unlocked, _⟩
      exact ⟨_, counted, unlocked⟩

/-- The second half of a waiting call, with the control block in the record. -/
theorem waitsAndReads_givesBack (free : handle.AllFree) (reading : info.Reading info)
    (writable : info.writeSingal = 0) (connectId : Int) (data arriving : Bytes)
    (accepted : Bool) :
    GivesBack Prod.fst (do
      let read ← info.readBufferWait data arriving accepted
      return (handle.setBevInfor connectId read.1, read.2)) := by
  rcases BevInfor.readBufferWait_cases data reading writable arriving accepted with
    waits | ⟨read, reads, after⟩
  · rw [waits]
    rfl
  · rw [reads]
    exact free.setBevInfor after connectId

theorem waitRecive_givesBack (free : handle.AllFree) (connectId : Int) (reciveBytes : Bytes)
    (reception : Reception) :
    GivesBack Prod.fst (handle.waitRecive connectId reciveBytes reception) := by
  rw [waitRecive, free.lookupConnection, orStop_some, ok_bind]
  cases found : handle.bevMap.lookup connectId with
  | none => exact free
  | some info =>
      have released := free.connections connectId info found
      dsimp only
      rcases info.readBufferControlBlockWait_cases released.1 reception.first
        reception.blockAccepted with ⟨_, waits⟩ | ⟨_, blocked, size, blocks, reading, _⟩
      · rw [waits]
        rfl
      · rw [blocks, ok_bind]
        exact waitsAndReads_givesBack free ⟨reading.cached, reading.read, rfl⟩
          (reading.write.trans released.2) connectId _ _ _

/-- A string that cannot grow throws while the read lock may still be held. -/
theorem reciveStrWait_givesBack_iff (free : handle.AllFree) (connectId : Int)
    (bufferStr : Bytes) (reception : Reception) :
    GivesBack Prod.fst (handle.reciveStrWait connectId bufferStr reception) ↔
      ∀ info, handle.bevMap.lookup connectId = some info →
        toSize (toInt (info.bev.input ++ reception.first).length) < controlBlockSize ∨
        BevInfor.CanGrow
          (BevInfor.announced (info.bev.input ++ reception.first) reception.blockAccepted)
          bufferStr := by
  rw [reciveStrWait, free.lookupConnection, orStop_some, ok_bind]
  cases found : handle.bevMap.lookup connectId with
  | none => exact iff_of_true free (by simp)
  | some info =>
      have released := free.connections connectId info found
      simp only [Option.some.injEq, forall_eq']
      rcases info.readBufferControlBlockWait_cases released.1 reception.first
        reception.blockAccepted with
        ⟨few, waits⟩ | ⟨enough, blocked, _, blocks, reading, size⟩
      · rw [waits]
        exact iff_of_true rfl (.inl few)
      · rw [blocks, ok_bind, or_iff_right enough, ← size]
        dsimp only
        rcases blocked.growString_cases bufferStr with ⟨grows, grown, room⟩ | ⟨throws, none⟩
        · rw [room, orStop_some, ok_bind, iff_true_right grows]
          exact waitsAndReads_givesBack free ⟨reading.cached, reading.read, rfl⟩
            (reading.write.trans released.2) connectId _ _ _
        · rw [none, iff_false_right throws]
          exact Stop.noConfusion

/-- The second half of `recive_str_NoWait`, with the control block in the record. -/
theorem growsAndReads_givesBack_iff (free : handle.AllFree) (reading : info.Reading info)
    (writable : info.writeSingal = 0) (connectId : Int) (bufferStr : Bytes) (accepted : Bool) :
    GivesBack Prod.fst (do
        let bufferStr ← orStop .throwing (info.growString bufferStr)
        let read := info.tryReadBufferNoWait bufferStr accepted
        return (handle.setBevInfor connectId read.1, read.2)) ↔
      BevInfor.CanGrow info.blockSize bufferStr := by
  rcases info.growString_cases bufferStr with ⟨grows, grown, room⟩ | ⟨throws, none⟩
  · rw [room, orStop_some, ok_bind, iff_true_right grows]
    exact free.setBevInfor
      (BevInfor.tryReadBufferNoWait_releases reading writable accepted) connectId
  · rw [none, iff_false_right throws]
    exact Stop.noConfusion

theorem tryReciveStrNoWait_givesBack_iff (free : handle.AllFree) (connectId : Int)
    (bufferStr : Bytes) (blockAccepted dataAccepted : Bool) :
    GivesBack Prod.fst
        (handle.tryReciveStrNoWait connectId bufferStr blockAccepted dataAccepted) ↔
      ∀ info, handle.bevMap.lookup connectId = some info →
        toSize (toInt info.bev.input.length) ≤ controlBlockSize ∨
        BevInfor.CanGrow (if info.cacheBlock then info.blockSize
          else BevInfor.announced info.bev.input blockAccepted) bufferStr := by
  rw [tryReciveStrNoWait, free.lookupConnection, orStop_some, ok_bind]
  cases found : handle.bevMap.lookup connectId with
  | none => exact iff_of_true free (by simp)
  | some info =>
      have released := free.connections connectId info found
      simp only [Option.some.injEq, forall_eq']
      rcases getReciveBufferLength_free free found with ⟨after, counted, unlocked, still⟩
      rw [counted, orStop_some, ok_bind]
      dsimp only
      by_cases few : toSize (toInt info.bev.input.length) ≤ controlBlockSize
      · rw [if_pos few]
        exact iff_of_true unlocked (.inl few)
      · rw [if_neg few, or_iff_right few, still.found, orStop_some, ok_bind]
        by_cases cached : info.cacheBlock = true
        · rw [if_pos cached, if_pos cached, pure_bind]
          exact growsAndReads_givesBack_iff unlocked ⟨cached, .inr released.1, rfl⟩ released.2
            connectId bufferStr dataAccepted
        · rw [if_neg cached, if_neg cached]
          rcases BevInfor.tryReadBufferControlBlockNoWait_reading released.1 (by omega)
            blockAccepted with ⟨blocked, size, blocks, reading, announces⟩
          rw [blocks, ← announces]
          exact growsAndReads_givesBack_iff unlocked ⟨reading.cached, reading.read, rfl⟩
            (reading.write.trans released.2) connectId bufferStr dataAccepted

theorem addBuffereventConnect_givesBack (free : handle.AllFree) (ip : CString) (port : Int)
    (connected : Bool) (fresh : Int × Bool) :
    GivesBack Prod.fst
      (orStop .spinning (handle.addBuffereventConnect ip port connected fresh)) := by
  cases connected with
  | false => exact free
  | true =>
      rw [addBuffereventConnect_free free.table]
      exact free.withConnection ip port fresh

theorem getConnectionId_givesBack (free : handle.AllFree) (ip : CString) (port : Int)
    (tryConnect connected : Bool) (fresh : Int × Bool) :
    GivesBack Prod.fst
      (orStop .spinning (handle.getConnectionId ip port tryConnect connected fresh)) := by
  rw [getConnectionId_free (by rw [free.table])]
  cases handle.firstTo ip port with
  | some entry => exact free
  | none =>
      cases tryConnect with
      | false => exact free
      | true => exact addBuffereventConnect_givesBack free ip port connected fresh

theorem addBuffereventListen_givesBack (free : handle.AllFree) (ip : CString) (port : Int)
    (fresh : Int × Bool) :
    GivesBack Prod.fst (orStop .spinning (handle.addBuffereventListen ip port fresh)) := by
  rw [addBuffereventListen, free.table, free.listeners]
  exact ⟨rfl, rfl, free.insert ⟨rfl, rfl⟩ _⟩

theorem getListenConnectionCount_givesBack (free : handle.AllFree) :
    GivesBack Prod.fst (orStop .spinning handle.getListenConnectionCount) := by
  rw [getListenConnectionCount, free.listeners]
  exact ⟨free.table, rfl, free.connections⟩

theorem getListenConnectionArray_givesBack (free : handle.AllFree) :
    GivesBack Prod.fst (orStop .spinning handle.getListenConnectionArray) := by
  rw [getListenConnectionArray, free.listeners]
  exact ⟨free.table, rfl, free.connections⟩

theorem AllFree.erase (free : handle.AllFree) (id : Int) :
    ∀ other found, (handle.bevMap.erase id).lookup other = some found → found.Released := by
  intro other found looked
  exact free.connections other found (OrderedMap.lookup_of_erase looked)

/-- The position that is erased must exist. -/
theorem removeBuffevent_givesBack_iff (free : handle.AllFree) (id : Int) :
    GivesBack Prod.fst (handle.removeBuffevent id) ↔
      ∀ info, handle.bevMap.lookup id = some info → info.isListen = true →
        0 ≤ id ∧ id < handle.listenIdVector.length := by
  rw [removeBuffevent, rwWLock_free free.table, orStop_some, ok_bind]
  cases found : handle.bevMap.lookup id with
  | none => exact iff_of_true ⟨rfl, free.listeners, free.connections⟩ (by simp)
  | some info =>
      simp only [Option.some.injEq, forall_eq']
      by_cases accepted : info.isListen = true
      · rw [if_pos accepted, rwWLock_free free.listeners, orStop_some, ok_bind]
        by_cases inside : 0 ≤ id ∧ id < handle.listenIdVector.length
        · rw [if_pos inside]
          exact iff_of_true ⟨rfl, rfl, free.erase id⟩ fun _ => inside
        · rw [if_neg inside]
          exact iff_of_false Stop.noConfusion fun safe => inside (safe accepted)
      · rw [if_neg accepted]
        exact iff_of_true ⟨rfl, free.listeners, free.erase id⟩ fun listens =>
          absurd listens accepted

end LibeventHandle

namespace HandleState

variable {α : Type} {state : HandleState}

theorem handle_enter (state : HandleState) (id : Int) : (state.enter id).handle = state.handle := by
  rw [enter]
  by_cases known : (state.handle.bevMap.lookup id).isSome ∨ id ∈ state.blanks
  · rw [if_pos known]
  · rw [if_neg known]

theorem getConnectionIp_givesBack (free : state.handle.AllFree) (id : Int) :
    GivesBack (HandleState.handle ∘ Prod.fst) (orStop .spinning (state.getConnectionIp id)) := by
  rw [getConnectionIp, free.table]
  have same := congrArg LibeventHandle.AllFree (state.handle_enter id)
  have entered := same.mpr free
  exact ⟨rfl, entered.listeners, entered.connections⟩

theorem getConnectionPort_givesBack (free : state.handle.AllFree) (id : Int) :
    GivesBack (HandleState.handle ∘ Prod.fst)
      (orStop .spinning (state.getConnectionPort id)) := by
  rw [getConnectionPort, free.table]
  have same := congrArg LibeventHandle.AllFree (state.handle_enter id)
  have entered := same.mpr free
  exact ⟨rfl, entered.listeners, entered.connections⟩

/-- A call gives back the locks when it follows no null pointer, a send goes to a connection
that exists, a string can grow by the size in the control block, and the position that is
erased from the list of listeners exists. -/
def Permits (state : HandleState) : HandleCall → Prop
  | .send connectId _ _ _ _ => 0 ≤ connectId →
      connectId ∉ state.blanks ∧ (state.handle.bevMap.lookup connectId).isSome
  | .waitRecive connectId _ _ => connectId ∉ state.blanks
  | .reciveStrWait connectId bufferStr reception => connectId ∉ state.blanks ∧
      ∀ info, state.handle.bevMap.lookup connectId = some info →
        toSize (toInt (info.bev.input ++ reception.first).length) < controlBlockSize ∨
        BevInfor.CanGrow
          (BevInfor.announced (info.bev.input ++ reception.first) reception.blockAccepted)
          bufferStr
  | .reciveStrNoWait connectId bufferStr blockAccepted _ => connectId ∉ state.blanks ∧
      ∀ info, state.handle.bevMap.lookup connectId = some info →
        toSize (toInt info.bev.input.length) ≤ controlBlockSize ∨
        BevInfor.CanGrow (if info.cacheBlock then info.blockSize
          else BevInfor.announced info.bev.input blockAccepted) bufferStr
  | .getReciveBufferLength connectId => connectId ∉ state.blanks
  | .removeBuffevent id => id ∉ state.blanks ∧
      ∀ info, state.handle.bevMap.lookup id = some info → info.isListen = true →
        0 ≤ id ∧ id < state.handle.listenIdVector.length
  | _ => True

/-- Putting the handle back leaves its locks as they are. -/
theorem givesBack_update (result : Except Stop (LibeventHandle × α)) :
    GivesBack HandleState.handle (result >>= fun after => pure (state.update after.1)) ↔
      GivesBack Prod.fst result :=
  givesBack_map (fun _ => rfl) result

/-- Exactly the permitted calls give back all locks. -/
theorem call_givesBack_iff (free : state.handle.AllFree) (call : HandleCall) :
    GivesBack HandleState.handle (state.call call) ↔ state.Permits call := by
  cases call with
  | send connectId sendBytes sendSize blockAccepted dataAccepted =>
      rw [HandleState.call, Permits]
      by_cases negative : connectId < 0
      · rw [if_pos negative]
        have same : (state.update state.handle).handle.AllFree := free
        exact iff_of_true same fun valid => absurd valid (by omega)
      · rw [if_neg negative, forall_prop_of_true (by omega),
          ← LibeventHandle.send_givesBack_iff free (by omega) sendBytes sendSize blockAccepted
            dataAccepted, ← givesBack_follow]
        exact givesBack_update _
  | waitRecive connectId reciveBytes reception =>
      rw [HandleState.call, givesBack_update, givesBack_follow, Permits]
      exact and_iff_left (LibeventHandle.waitRecive_givesBack free _ _ _)
  | reciveStrWait connectId bufferStr reception =>
      rw [HandleState.call, givesBack_update, givesBack_follow, Permits,
        LibeventHandle.reciveStrWait_givesBack_iff free]
  | reciveStrNoWait connectId bufferStr blockAccepted dataAccepted =>
      rw [HandleState.call, givesBack_update, givesBack_follow, Permits,
        LibeventHandle.tryReciveStrNoWait_givesBack_iff free]
  | getReciveBufferLength connectId =>
      rw [HandleState.call, givesBack_update, givesBack_follow, Permits]
      exact and_iff_left (LibeventHandle.getReciveBufferLength_givesBack free _)
  | getConnectionId ip port tryConnect connected fresh =>
      refine iff_of_true ?_ trivial
      rw [HandleState.call, givesBack_update]
      exact LibeventHandle.getConnectionId_givesBack free _ _ _ _ _
  | getConnectionIp id =>
      refine iff_of_true ?_ trivial
      rw [HandleState.call, givesBack_map fun _ => rfl]
      exact getConnectionIp_givesBack free id
  | getConnectionPort id =>
      refine iff_of_true ?_ trivial
      rw [HandleState.call, givesBack_map fun _ => rfl]
      exact getConnectionPort_givesBack free id
  | getListenConnectionCount =>
      refine iff_of_true ?_ trivial
      rw [HandleState.call, givesBack_update]
      exact LibeventHandle.getListenConnectionCount_givesBack free
  | getListenConnectionArray =>
      refine iff_of_true ?_ trivial
      rw [HandleState.call, givesBack_update]
      exact LibeventHandle.getListenConnectionArray_givesBack free
  | addBuffereventConnect ip port connected fresh =>
      refine iff_of_true ?_ trivial
      rw [HandleState.call, givesBack_update]
      exact LibeventHandle.addBuffereventConnect_givesBack free _ _ _ _
  | addBuffereventListen ip port fresh =>
      refine iff_of_true ?_ trivial
      rw [HandleState.call, givesBack_update]
      exact LibeventHandle.addBuffereventListen_givesBack free _ _ _
  | removeBuffevent id =>
      rw [HandleState.call, givesBack_update, givesBack_follow, Permits,
        LibeventHandle.removeBuffevent_givesBack_iff free]

/-! ## Runs -/

/-- The operations as a machine.  After a call that does not return nothing happens. -/
def calls : Machine (Except Stop HandleState) HandleCall Unit where
  step state call := (state >>= fun current => current.call call, ())

/-- From free locks on, all calls of a run give back all locks exactly when every call is
permitted by the state that it finds. -/
theorem calls_giveLocksBack_iff (free : state.handle.AllFree) (run : List HandleCall) :
    (∀ initial, initial <+: run →
        GivesBack HandleState.handle (calls.exec (.ok state) initial)) ↔
      calls.Respects (.ok state)
        (fun _ before call => ∀ current, before = .ok current → current.Permits call) run := by
  refine Machine.prefixes_iff_respects free ?_ run
  intro run call before
  rw [Machine.exec_concat]
  cases reached : calls.exec (.ok state) run with
  | error stop =>
      rw [reached] at before
      exact iff_of_true before fun _ stopped => by cases stopped
  | ok current =>
      rw [reached] at before
      simp only [Except.ok.injEq, forall_eq']
      exact call_givesBack_iff before call

theorem initHandle_free : LibeventHandle.initHandle.AllFree :=
  ⟨rfl, rfl, fun _ _ found => by cases found⟩

/-- A connection is opened and written to. -/
theorem calls_giveLocksBack_openAndSend :
    GivesBack HandleState.handle (calls.exec (.ok ⟨.initHandle, []⟩)
      [.addBuffereventConnect (.ofString "127.0.0.1") 9000 true (0, false),
        .send 0 [1, 2] 2 true true]) := by
  have free : (HandleState.mk .initHandle []).handle.AllFree := initHandle_free
  refine (calls_giveLocksBack_iff free _).mpr ?_ _ (List.prefix_refl _)
  change calls.Respects _ _ ([] ++ [_] ++ [_])
  rw [Machine.respects_concat, Machine.respects_concat]
  refine ⟨⟨Machine.respects_nil, fun _ _ => trivial⟩, ?_⟩
  intro current opened _
  cases opened
  exact ⟨List.not_mem_nil, rfl⟩

/-- A send to an id that was never given out keeps the lock of the table, and the next new
connection waits for it for ever. -/
theorem send_unknown_keeps_tableLock :
    ¬GivesBack HandleState.handle
        (calls.exec (.ok ⟨.initHandle, []⟩) [.send 0 [1, 2] 2 true true]) ∧
      calls.exec (.ok ⟨.initHandle, []⟩) [.send 0 [1, 2] 2 true true,
        .addBuffereventConnect (.ofString "127.0.0.1") 9000 true (0, false)] =
        .error .spinning := by
  refine ⟨?_, rfl⟩
  intro returned
  cases returned.table

end HandleState

end MultiMaster.NetIO
