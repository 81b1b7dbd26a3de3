import Mathlib.Data.Fintype.Basic
import MultiMaster.Foundation.Interleaving

/-!
# The counter lock

Readers count up one `atomic<int>` and writers count it down.  Any number of threads lock and
unlock it over and over; every `load`, `fetch_add` and `fetch_sub` is a step of its own, and
the steps are interleaved in any order.  The definitions follow `rw_r_lock`, `rw_w_lock` and
their unlocks in `libevent_handle.cc`.

A lock call tests the counter and then changes it by a second operation, a writer does not
wait for other writers, and an unlock call leaves a counter of the wrong sign as it is.  The
lock excludes and returns to zero as long as every lock call changes the counter while the
lock is really free for it.
-/

namespace MultiMaster.NetIO

open Foundation

inductive LockKind where
  | reader
  | writer
  deriving DecidableEq

/-- What a holder of the lock adds to the counter. -/
def LockKind.weight : LockKind → Int
  | .reader => 1
  | .writer => -1

/-- What a thread does next: it begins a lock call, it is at one of the two operations of
the call, it has the lock, or it is at one of the two operations of the unlock call. -/
inductive LockPoint where
  | outside
  | lockLoad (kind : LockKind)
  | lockUpdate (kind : LockKind)
  | inside (kind : LockKind)
  | unlockLoad (kind : LockKind)
  | unlockUpdate (kind : LockKind)
  deriving DecidableEq

/-- A thread, with the kinds of lock that it takes in its rounds. -/
structure LockUser where
  plan : Nat → LockKind
  round : Nat
  point : LockPoint

namespace LockUser

def moveTo (user : LockUser) (point : LockPoint) : LockUser := { user with point := point }

/-- The unlock call has returned. -/
def leave (user : LockUser) : LockUser :=
  { user with round := user.round + 1, point := .outside }

/-- The kind of lock that a thread has taken and not given back. -/
def holding (user : LockUser) : Option LockKind :=
  match user.point with
  | .inside kind | .unlockLoad kind | .unlockUpdate kind => some kind
  | .outside | .lockLoad _ | .lockUpdate _ => none

end LockUser

/-- `fetch_add`, which wraps. -/
def fetchAdd (singal amount : Int) : Int := Int.bmod (singal + amount) (2 ^ 32)

/-- One step of a thread. -/
def lockStep (singal : Int) (user : LockUser) : Int × LockUser × Unit :=
  match user.point with
  | .outside => (singal, user.moveTo (.lockLoad (user.plan user.round)), ())
  | .lockLoad .reader =>
      if singal < 0 then (singal, user, ())
      else (singal, user.moveTo (.lockUpdate .reader), ())
  | .lockUpdate .reader => (fetchAdd singal 1, user.moveTo (.inside .reader), ())
  | .lockLoad .writer =>
      if 0 < singal then (singal, user, ())
      else (singal, user.moveTo (.lockUpdate .writer), ())
  | .lockUpdate .writer => (fetchAdd singal (-1), user.moveTo (.inside .writer), ())
  | .inside kind => (singal, user.moveTo (.unlockLoad kind), ())
  | .unlockLoad .reader =>
      if 0 < singal then (singal, user.moveTo (.unlockUpdate .reader), ())
      else (singal, user.leave, ())
  | .unlockUpdate .reader => (fetchAdd singal (-1), user.leave, ())
  | .unlockLoad .writer =>
      if singal < 0 then (singal, user.moveTo (.unlockUpdate .writer), ())
      else (singal, user.leave, ())
  | .unlockUpdate .writer => (fetchAdd singal 1, user.leave, ())

def lockProgram : Program Int LockUser Unit := ⟨lockStep⟩

variable {count : Nat}

/-- The threads and the counter. -/
abbrev LockState (count : Nat) := Threads (Fin count) Int LockUser

def lockUsers : Machine (LockState count) (Fin count) Unit := lockProgram.interleaved

/-- The counter is zero and no thread has begun a call. -/
def unlocked (plans : Fin count → Nat → LockKind) : LockState count :=
  ⟨0, fun thread => ⟨plans thread, 0, .outside⟩⟩

/-- While a thread is between `rw_w_lock` and `rw_w_unlock`, no other thread is between its
own lock and unlock. -/
def Excludes (state : LockState count) : Prop :=
  ∀ writer other, (state.locals writer).point = .inside .writer → other ≠ writer →
    ∀ kind, (state.locals other).point ≠ .inside kind

/-- No thread is between the start of a lock call and the end of the unlock call. -/
def AllOutside (state : LockState count) : Prop :=
  ∀ thread, (state.locals thread).point = .outside

instance (state : LockState count) : Decidable (AllOutside state) :=
  inferInstanceAs (Decidable (∀ _, _))

/-- A lock call changes the counter while what it has tested is still so: a reader finds no
negative counter, a writer no positive one, and the counter does not wrap. -/
def UpdatesInTime (state : LockState count) (thread : Fin count) : Prop :=
  ((state.locals thread).point = .lockUpdate .reader →
      0 ≤ state.shared ∧ state.shared < 2 ^ 31 - 1) ∧
    ((state.locals thread).point = .lockUpdate .writer →
      -2 ^ 31 < state.shared ∧ state.shared ≤ 0)

/-- A lock call changes the counter while the lock is free for it: a reader finds no
negative counter, a writer finds zero, and the counter does not wrap. -/
def FindsFree (state : LockState count) (thread : Fin count) : Prop :=
  ((state.locals thread).point = .lockUpdate .reader →
      0 ≤ state.shared ∧ state.shared < 2 ^ 31 - 1) ∧
    ((state.locals thread).point = .lockUpdate .writer → state.shared = 0)

instance (state : LockState count) (thread : Fin count) : Decidable (UpdatesInTime state thread) :=
  inferInstanceAs (Decidable ((_ → _) ∧ (_ → _)))

instance (state : LockState count) (thread : Fin count) : Decidable (FindsFree state thread) :=
  inferInstanceAs (Decidable ((_ → _) ∧ (_ → _)))

theorem FindsFree.updatesInTime {state : LockState count} {thread : Fin count}
    (free : FindsFree state thread) : UpdatesInTime state thread := by
  refine ⟨free.1, fun updating => ?_⟩
  rw [free.2 updating]
  decide

/-! ## One step -/

/-- What a step does: it changes neither the counter nor what the thread holds, it takes the
lock, it gives the lock back, or it finds the wrong sign and gives nothing back. -/
inductive LockEffect (singal : Int) (user : LockUser) : Int × LockUser × Unit → Prop where
  | quiet {later : LockUser} (holding : later.holding = user.holding) :
      LockEffect singal user (singal, later, ())
  | enter {later : LockUser} (kind : LockKind) (before : user.point = .lockUpdate kind)
      (holding : later.holding = some kind) :
      LockEffect singal user (fetchAdd singal kind.weight, later, ())
  | giveBack {later : LockUser} (kind : LockKind) (before : user.holding = some kind)
      (holding : later.holding = none) :
      LockEffect singal user (fetchAdd singal (-kind.weight), later, ())
  | skip {later : LockUser} (kind : LockKind) (before : user.holding = some kind)
      (wrong : kind.weight * singal ≤ 0) (holding : later.holding = none) :
      LockEffect singal user (singal, later, ())

theorem lockStep_effect (singal : Int) (user : LockUser) :
    LockEffect singal user (lockStep singal user) := by
  rcases user with ⟨plan, round, point⟩
  cases point with
  | outside => exact .quiet rfl
  | lockLoad kind =>
      cases kind with
      | reader =>
          rw [lockStep]
          dsimp only
          split
          · exact .quiet rfl
          · exact .quiet rfl
      | writer =>
          rw [lockStep]
          dsimp only
          split
          · exact .quiet rfl
          · exact .quiet rfl
  | lockUpdate kind =>
      cases kind with
      | reader => exact .enter .reader rfl rfl
      | writer => exact .enter .writer rfl rfl
  | inside kind => exact .quiet rfl
  | unlockLoad kind =>
      cases kind with
      | reader =>
          rw [lockStep]
          dsimp only
          split
          · exact .quiet rfl
          · exact .skip .reader rfl (by rw [LockKind.weight]; omega) rfl
      | writer =>
          rw [lockStep]
          dsimp only
          split
          · exact .quiet rfl
          · exact .skip .writer rfl (by rw [LockKind.weight]; omega) rfl
  | unlockUpdate kind =>
      cases kind with
      | reader => exact .giveBack .reader rfl rfl
      | writer => exact .giveBack .writer rfl rfl

/-! ## Holders -/

/-- The number of threads that hold the lock in one way. -/
def holders (kind : LockKind) (state : LockState count) : Nat :=
  Program.population (fun user : LockUser => user.holding = some kind) state.locals

/-- The counter counts the holders, who are all of one kind. -/
structure Balanced (state : LockState count) : Prop where
  balance : state.shared = holders .reader state - holders .writer state
  apart : holders .reader state = 0 ∨ holders .writer state = 0
  small : -2 ^ 31 ≤ state.shared ∧ state.shared < 2 ^ 31

theorem fetchAdd_eq {singal amount : Int} (least : -2 ^ 31 ≤ singal + amount)
    (most : singal + amount < 2 ^ 31) : fetchAdd singal amount = singal + amount := by
  rw [fetchAdd, Int.bmod_eq_of_le]
  · omega
  · omega

/-- The holders after a step of one thread. -/
theorem holders_step (kind : LockKind) (state : LockState count) (thread : Fin count) :
    holders kind (lockUsers.step state thread).1 +
        (if (state.locals thread).holding = some kind then 1 else 0) =
      holders kind state +
        (if (lockStep state.shared (state.locals thread)).2.1.holding = some kind then 1
          else 0) :=
  Program.population_update state.locals thread _

/-- A step by which the thread neither becomes nor ceases to be a holder of a kind. -/
theorem holders_step_same {kind : LockKind} {state : LockState count} {thread : Fin count}
    (same : (lockStep state.shared (state.locals thread)).2.1.holding = some kind ↔
      (state.locals thread).holding = some kind) :
    holders kind (lockUsers.step state thread).1 = holders kind state := by
  have counted := holders_step kind state thread
  simp only [same] at counted
  omega

theorem holders_step_enter {kind : LockKind} {state : LockState count} {thread : Fin count}
    (before : (state.locals thread).holding ≠ some kind)
    (after : (lockStep state.shared (state.locals thread)).2.1.holding = some kind) :
    holders kind (lockUsers.step state thread).1 = holders kind state + 1 := by
  have counted := holders_step kind state thread
  rw [if_neg before, if_pos after] at counted
  exact counted

theorem holders_step_leave {kind : LockKind} {state : LockState count} {thread : Fin count}
    (before : (state.locals thread).holding = some kind)
    (after : (lockStep state.shared (state.locals thread)).2.1.holding ≠ some kind) :
    holders kind (lockUsers.step state thread).1 + 1 = holders kind state := by
  have counted := holders_step kind state thread
  rw [if_pos before, if_neg after] at counted
  exact counted

/-- What a step in time does to the counter and the numbers of holders. -/
inductive HoldersEffect (state after : LockState count) (point : LockPoint) : Prop where
  | same (readers : holders .reader after = holders .reader state)
      (writers : holders .writer after = holders .writer state)
      (singal : after.shared = state.shared)
  | readerEnters (readers : holders .reader after = holders .reader state + 1)
      (writers : holders .writer after = holders .writer state)
      (singal : after.shared = state.shared + 1)
      (before : 0 ≤ state.shared ∧ state.shared < 2 ^ 31 - 1)
  | writerEnters (readers : holders .reader after = holders .reader state)
      (writers : holders .writer after = holders .writer state + 1)
      (singal : after.shared = state.shared - 1)
      (before : point = .lockUpdate .writer ∧ -2 ^ 31 < state.shared ∧ state.shared ≤ 0)
  | readerLeaves (readers : holders .reader after + 1 = holders .reader state)
      (writers : holders .writer after = holders .writer state)
      (singal : after.shared = state.shared - 1)
  | writerLeaves (readers : holders .reader after = holders .reader state)
      (writers : holders .writer after + 1 = holders .writer state)
      (singal : after.shared = state.shared + 1)

/-- A lock call in time does not wrap the counter. -/
theorem UpdatesInTime.enter_eq {state : LockState count} {thread : Fin count} {kind : LockKind}
    (inTime : UpdatesInTime state thread)
    (before : (state.locals thread).point = .lockUpdate kind) :
    fetchAdd state.shared kind.weight = state.shared + kind.weight := by
  cases kind with
  | reader =>
      have range := inTime.1 before
      exact fetchAdd_eq (by rw [LockKind.weight]; omega) (by rw [LockKind.weight]; omega)
  | writer =>
      have range := inTime.2 before
      exact fetchAdd_eq (by rw [LockKind.weight]; omega) (by rw [LockKind.weight]; omega)

/-- A holder that is counted finds the sign of its own kind. -/
theorem Balanced.sign {state : LockState count} {kind : LockKind} (balanced : Balanced state)
    (holds : 0 < holders kind state) : 0 < kind.weight * state.shared := by
  have balance := balanced.balance
  have apart := balanced.apart
  cases kind with
  | reader =>
      rw [LockKind.weight]
      omega
  | writer =>
      rw [LockKind.weight]
      omega

/-- What it gives back does not wrap the counter either. -/
theorem Balanced.giveBack_eq {state : LockState count} {kind : LockKind}
    (balanced : Balanced state) (holds : 0 < holders kind state) :
    fetchAdd state.shared (-kind.weight) = state.shared - kind.weight := by
  have sign := balanced.sign holds
  have small := balanced.small
  cases kind with
  | reader =>
      rw [LockKind.weight] at sign ⊢
      exact fetchAdd_eq (by omega) (by omega)
  | writer =>
      rw [LockKind.weight] at sign ⊢
      exact fetchAdd_eq (by omega) (by omega)

/-- While the counter counts the holders, every holder gives back what it has added. -/
theorem Balanced.effect {state : LockState count} {thread : Fin count}
    (balanced : Balanced state) (inTime : UpdatesInTime state thread) :
    HoldersEffect state (lockUsers.step state thread).1 (state.locals thread).point := by
  have shared : (lockUsers.step state thread).1.shared =
      (lockStep state.shared (state.locals thread)).1 := rfl
  have effect := lockStep_effect state.shared (state.locals thread)
  generalize stepped : lockStep state.shared (state.locals thread) = result at *
  cases effect with
  | quiet holding =>
      refine .same ?_ ?_ shared
      · exact holders_step_same (by rw [stepped, holding])
      · exact holders_step_same (by rw [stepped, holding])
  | enter kind before holding =>
      have outside : (state.locals thread).holding = none := by rw [LockUser.holding, before]
      have counter := shared.trans (inTime.enter_eq before)
      cases kind with
      | reader =>
          refine .readerEnters ?_ ?_ counter (inTime.1 before)
          · exact holders_step_enter (by simp [outside]) (by rw [stepped, holding])
          · exact holders_step_same (by simp [stepped, holding, outside])
      | writer =>
          refine .writerEnters ?_ ?_ counter ⟨before, inTime.2 before⟩
          · exact holders_step_same (by simp [stepped, holding, outside])
          · exact holders_step_enter (by simp [outside]) (by rw [stepped, holding])
  | giveBack kind before holding =>
      have left : holders kind (lockUsers.step state thread).1 + 1 = holders kind state :=
        holders_step_leave before (by simp [stepped, holding])
      have counter := shared.trans (balanced.giveBack_eq (by omega : 0 < holders kind state))
      cases kind with
      | reader =>
          refine .readerLeaves left ?_ counter
          exact holders_step_same (by simp [stepped, holding, before])
      | writer =>
          refine .writerLeaves ?_ left ?_
          · exact holders_step_same (by simp [stepped, holding, before])
          · rw [counter, LockKind.weight]
            omega
  | skip kind before wrong holding =>
      have left : holders kind (lockUsers.step state thread).1 + 1 = holders kind state :=
        holders_step_leave before (by simp [stepped, holding])
      have sign := balanced.sign (by omega : 0 < holders kind state)
      omega

theorem Balanced.step {state : LockState count} {thread : Fin count}
    (balanced : Balanced state) (inTime : UpdatesInTime state thread) :
    Balanced (lockUsers.step state thread).1 := by
  have balance := balanced.balance
  have apart := balanced.apart
  have small := balanced.small
  cases balanced.effect inTime with
  | same readers writers singal => exact ⟨by omega, by omega, by omega⟩
  | readerEnters readers writers singal before => exact ⟨by omega, by omega, by omega⟩
  | writerEnters readers writers singal before => exact ⟨by omega, by omega, by omega⟩
  | readerLeaves readers writers singal => exact ⟨by omega, by omega, by omega⟩
  | writerLeaves readers writers singal => exact ⟨by omega, by omega, by omega⟩

/-- Besides, there is one writer at most. -/
structure OneWriter (state : LockState count) : Prop where
  balanced : Balanced state
  writer : holders .writer state ≤ 1

theorem OneWriter.step {state : LockState count} {thread : Fin count}
    (one : OneWriter state) (free : FindsFree state thread) :
    OneWriter (lockUsers.step state thread).1 := by
  refine ⟨one.balanced.step free.updatesInTime, ?_⟩
  have balance := one.balanced.balance
  have apart := one.balanced.apart
  have writer := one.writer
  cases one.balanced.effect free.updatesInTime with
  | same readers writers singal => omega
  | readerEnters readers writers singal before => omega
  | writerEnters readers writers singal before =>
      have zero := free.2 before.1
      omega
  | readerLeaves readers writers singal => omega
  | writerLeaves readers writers singal => omega

/-! ## Runs -/

variable {plans : Fin count → Nat → LockKind} {schedule : List (Fin count)}

theorem holders_unlocked (kind : LockKind) (plans : Fin count → Nat → LockKind) :
    holders kind (unlocked plans) = 0 :=
  Program.population_eq_zero_iff.mpr fun _ holding => by cases holding

theorem balanced_unlocked (plans : Fin count → Nat → LockKind) : Balanced (unlocked plans) := by
  have zero : (unlocked plans).shared = 0 := rfl
  refine ⟨?_, .inl (holders_unlocked .reader plans), ?_⟩
  · rw [holders_unlocked, holders_unlocked]
    rfl
  · rw [zero]
    decide

theorem balanced_run
    (respects : lockUsers.Respects (unlocked plans) (fun _ => UpdatesInTime) schedule) :
    Balanced (lockUsers.exec (unlocked plans) schedule) :=
  Machine.exec_invariant (balanced_unlocked plans)
    (fun _ _ _ balanced inTime => balanced.step inTime) respects

theorem oneWriter_run
    (respects : lockUsers.Respects (unlocked plans) (fun _ => FindsFree) schedule) :
    OneWriter (lockUsers.exec (unlocked plans) schedule) :=
  Machine.exec_invariant
    ⟨balanced_unlocked plans, by rw [holders_unlocked]; exact Nat.zero_le 1⟩
    (fun _ _ _ one free => one.step free) respects

theorem OneWriter.excludes {state : LockState count} (one : OneWriter state) :
    Excludes state := by
  intro writer other writing different kind inside
  have holding : (state.locals writer).holding = some .writer := by
    rw [LockUser.holding, writing]
  have held : (state.locals other).holding = some kind := by
    rw [LockUser.holding, inside]
  have some : holders .writer state ≠ 0 :=
    fun none => Program.population_eq_zero_iff.mp none writer holding
  cases kind with
  | reader =>
      have readers : holders .reader state = 0 := one.balanced.apart.resolve_right some
      exact Program.population_eq_zero_iff.mp readers other held
  | writer =>
      exact different (Program.population_le_one_iff.mp one.writer other writer held holding)

/-- In every state of a run in which each lock call changes the counter while the lock is
free for it, a writer has the lock alone. -/
theorem counterLock_excludes (plans : Fin count → Nat → LockKind) (schedule : List (Fin count))
    (respects : lockUsers.Respects (unlocked plans) (fun _ => FindsFree) schedule) :
    ∀ initial, initial <+: schedule → Excludes (lockUsers.exec (unlocked plans) initial) :=
  fun _ front => (oneWriter_run (respects.initial front)).excludes

/-- A reader, then a writer. -/
def readThenWrite : Fin 2 → Nat → LockKind
  | 0, _ => .reader
  | 1, _ => .writer

/-- The reader has come and gone, and the writer has the lock. -/
theorem counterLock_excludes_inTurn :
    Excludes (lockUsers.exec (unlocked readThenWrite)
      (List.replicate 6 0 ++ List.replicate 3 1)) :=
  counterLock_excludes readThenWrite _ (by decide +kernel) _ List.prefix_rfl

/-- Of two writers the second finds a negative counter and does not wait. -/
theorem writers_share_counterLock :
    ¬Excludes (lockUsers.exec (unlocked fun _ : Fin 2 => fun _ => .writer)
      [0, 0, 0, 1, 1, 1]) := by
  intro excludes
  exact excludes 0 1 (by decide) (by decide) .writer (by decide)

/-- In every run in which each lock call changes the counter while its test still holds,
the counter is zero whenever all threads are outside. -/
theorem counterLock_returns (plans : Fin count → Nat → LockKind) (schedule : List (Fin count))
    (respects : lockUsers.Respects (unlocked plans) (fun _ => UpdatesInTime) schedule) :
    ∀ initial, initial <+: schedule →
      AllOutside (lockUsers.exec (unlocked plans) initial) →
        (lockUsers.exec (unlocked plans) initial).shared = 0 := by
  intro initial front outside
  have balance := (balanced_run (respects.initial front)).balance
  have none : ∀ kind, holders kind (lockUsers.exec (unlocked plans) initial) = 0 := by
    intro kind
    refine Program.population_eq_zero_iff.mpr fun thread holding => ?_
    rw [LockUser.holding, outside thread] at holding
    cases holding
  rw [none, none] at balance
  exact balance

/-- Two writers hold the lock together and give it back. -/
theorem counterLock_returns_twoWriters :
    (lockUsers.exec (unlocked fun _ : Fin 2 => fun _ => .writer)
      ([0, 0, 0, 1, 1, 1] ++ [0, 0, 0, 1, 1, 1])).shared = 0 :=
  counterLock_returns (fun _ => fun _ => .writer) _ (by decide +kernel) _ List.prefix_rfl
    (by decide +kernel)

/-- Two readers and a writer. -/
def readersAndWriter : Fin 3 → Nat → LockKind
  | 0, _ => .reader
  | 1, _ => .reader
  | 2, _ => .writer

/-- The writer tests the counter, both readers come in, and the writer enters with them.  It
leaves without a change; the readers test the counter and then both count it down. -/
def lostBalance : List (Fin 3) :=
  [2, 2] ++ [0, 0, 0] ++ [1, 1, 1] ++ [2, 2, 2] ++ [0, 0, 1, 1, 0, 1]

/-- All threads are outside and the counter is -1, so that every reader waits for ever. -/
theorem counterLock_lost :
    AllOutside (lockUsers.exec (unlocked readersAndWriter) lostBalance) ∧
      (lockUsers.exec (unlocked readersAndWriter) lostBalance).shared = -1 := by
  decide +kernel

end MultiMaster.NetIO
