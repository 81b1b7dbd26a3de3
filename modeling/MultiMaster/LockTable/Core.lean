import Mathlib.Data.Fintype.Defs
import Mathlib.Data.List.AList
import MultiMaster.Foundation.Bytes
import MultiMaster.Foundation.Machine

/-!
# The page lock table

The centralized lock server keeps one record for each page fold and answers
read-lock, write-lock and unlock requests one after another.  The definitions
follow `remote_page_lock_manager.cc` and `lock_common.h`.

The hash table is a finite map on the four key bytes that `HASH_FIND_INT` and
`HASH_ADD_INT` are given.
-/

namespace MultiMaster.LockTable

open Foundation

abbrev HostName := CString

/-- Lock types, in the order of their enumerators: the unlocked state is last
and the others are sorted by lock level. -/
inductive PageLockType where
  | rLock
  | wLock
  | unlock
  deriving DecidableEq, Repr

instance : Fintype PageLockType where
  elems := {.rLock, .wLock, .unlock}
  complete := by
    intro type
    cases type <;> decide

/-- Numeric value of the enumerator. -/
def PageLockType.value : PageLockType → Nat
  | .rLock => 0
  | .wLock => 1
  | .unlock => 2

inductive PageReplyType where
  | lockSuccess
  | lockFail
  | unlockSuccess
  | unlockFail
  deriving DecidableEq, Repr

/-- One waiting host and the lock it was refused. -/
structure WaitInfor where
  name : HostName
  type : PageLockType
  deriving DecidableEq

/-- One record of the lock table. -/
structure PageLockT where
  mFold : UInt64
  spaceId : UInt32
  pageNo : UInt32
  versionNo : UInt64
  lockType : PageLockType
  lockHolder : List HostName
  waitList : List WaitInfor
  deriving DecidableEq

structure PageLockRequest where
  spaceId : UInt32
  pageNo : UInt32
  versionNo : UInt64
  lockType : PageLockType
  deriving DecidableEq, Repr

structure PageLockReply where
  spaceId : UInt32
  pageNo : UInt32
  replyType : PageReplyType
  deriving DecidableEq, Repr

/-- The page a request is about. -/
def PageLockRequest.page (request : PageLockRequest) : UInt32 × UInt32 :=
  (request.spaceId, request.pageNo)

/-- Fold of a page number.  The sum is computed in 32 bits and only then widened
to the 64-bit result. -/
def calFold (mSpace mPageNo : UInt32) : UInt64 :=
  ((mSpace <<< 20) + mSpace + mPageNo).toUInt64

/-- Compatibility of a requested lock with the stored one, shared against shared
only.  Neither argument is ever `UNLOCK` where the server consults the matrix. -/
def lockCompatibilityMatrix : PageLockType → PageLockType → Bool
  | .rLock, .rLock => true
  | _, _ => false

/-- The four key bytes of a fold on a little-endian machine. -/
def hashKey (fold : UInt64) : UInt32 := fold.toUInt32

/-- The hash table, a finite map from key bytes to records. -/
abbrev PageLockHash := AList fun _ : UInt32 => PageLockT

def hashFindInt (table : PageLockHash) (fold : UInt64) : Option PageLockT :=
  table.lookup (hashKey fold)

def hashAddInt (table : PageLockHash) (record : PageLockT) : PageLockHash :=
  table.insert (hashKey record.mFold) record

/-! ## Record updates -/

/-- The record created for the first request on its fold. -/
def newPageLockT (asker : HostName) (request : PageLockRequest) : PageLockT where
  mFold := calFold request.spaceId request.pageNo
  spaceId := request.spaceId
  pageNo := request.pageNo
  versionNo := 0
  lockType := request.lockType
  lockHolder := [asker]
  waitList := []

def insertPageLockT (table : PageLockHash) (asker : HostName)
    (request : PageLockRequest) : PageLockHash :=
  hashAddInt table (newPageLockT asker request)

/-- Release by `asker`.  `std::list::remove` drops every entry of that name, and
the first waiter takes over a record that is left without holders. -/
def updateUnlockPageLockT (asker : HostName) (pageLock : PageLockT) : PageLockT :=
  let released := { pageLock with
    lockType := .unlock
    lockHolder := pageLock.lockHolder.filter (· ≠ asker) }
  if released.lockHolder.isEmpty then
    match released.waitList with
    | [] => released
    | iter :: rest => { released with
        lockHolder := released.lockHolder ++ [iter.name]
        lockType := iter.type
        waitList := rest }
  else
    released

def updateSuccessPageLockT (asker : HostName) (request : PageLockRequest)
    (pageLock : PageLockT) : PageLockT :=
  { pageLock with
    versionNo :=
      if request.lockType = .wLock then pageLock.versionNo + 1
      else pageLock.versionNo
    lockType := request.lockType
    lockHolder := pageLock.lockHolder ++ [asker] }

/-- Refusal.  A host that waits already has its entry upgraded.  For a host that
does not wait yet the source fills in a local `WaitInfor` and drops it, so the
list keeps its length. -/
def updateFailPageLockT (asker : HostName) (request : PageLockRequest)
    (pageLock : PageLockT) : PageLockT :=
  { pageLock with
    waitList := pageLock.waitList.map fun iter =>
      if iter.name = asker ∧ iter.type.value < request.lockType.value then
        { iter with type := request.lockType }
      else
        iter }

/-! ## Answering requests -/

/-- One request: the table afterwards, the reply, and the return value. -/
def checkLockRequest (table : PageLockHash) (asker : HostName)
    (request : PageLockRequest) : PageLockHash × PageLockReply × Int :=
  let reply (replyType : PageReplyType) : PageLockReply :=
    ⟨request.spaceId, request.pageNo, replyType⟩
  match hashFindInt table (calFold request.spaceId request.pageNo) with
  | none => (insertPageLockT table asker request, reply .lockSuccess, 0)
  | some pageLock =>
      -- The record is updated in place, under the key it was found by.
      let store (record : PageLockT) : PageLockHash :=
        table.insert (hashKey (calFold request.spaceId request.pageNo)) record
      if request.lockType = .unlock then
        (store (updateUnlockPageLockT asker pageLock), reply .unlockSuccess, 2)
      else if pageLock.lockType = .unlock then
        (store (updateSuccessPageLockT asker request pageLock),
          reply .lockSuccess, 1)
      else if lockCompatibilityMatrix request.lockType pageLock.lockType then
        (store (updateSuccessPageLockT asker request pageLock),
          reply .lockSuccess, 1)
      else
        (store (updateFailPageLockT asker request pageLock), reply .lockFail, -1)

/-- A request together with the host that sent it. -/
structure LockCall where
  asker : HostName
  request : PageLockRequest
  deriving DecidableEq

/-- A call of a named host, with the version number it does not use. -/
def lockCall (host : String) (spaceId pageNo : UInt32)
    (lockType : PageLockType) : LockCall :=
  ⟨CString.ofString host, ⟨spaceId, pageNo, 0, lockType⟩⟩

namespace LockCall

def fold (call : LockCall) : UInt64 :=
  calFold call.request.spaceId call.request.pageNo

def key (call : LockCall) : UInt32 := hashKey call.fold

theorem calFold_page (call : LockCall) :
    calFold call.request.page.1 call.request.page.2 = call.fold := rfl

end LockCall

/-- The lock server as a machine over its table. -/
def server : Machine PageLockHash LockCall PageLockReply where
  step table call :=
    let answer := checkLockRequest table call.asker call.request
    (answer.1, answer.2.1)

/-- Histories of the server: calls with their replies, oldest first. -/
abbrev LockHistory := List (LockCall × PageLockReply)

/-! ## One record at a time -/

/-- What a call does to the record of its own fold, with the type of the reply.
`none` is a fold that has not been requested before. -/
def recordStep : Option PageLockT → LockCall → PageLockT × PageReplyType
  | none, call => (newPageLockT call.asker call.request, .lockSuccess)
  | some pageLock, call =>
      if call.request.lockType = .unlock then
        (updateUnlockPageLockT call.asker pageLock, .unlockSuccess)
      else if pageLock.lockType = .unlock ∨
          lockCompatibilityMatrix call.request.lockType pageLock.lockType then
        (updateSuccessPageLockT call.asker call.request pageLock, .lockSuccess)
      else
        (updateFailPageLockT call.asker call.request pageLock, .lockFail)

/-- The machine of a single record. -/
def recordMachine : Machine (Option PageLockT) LockCall PageLockReply where
  step record call :=
    let answer := recordStep record call
    (some answer.1, ⟨call.request.spaceId, call.request.pageNo, answer.2⟩)

/-- The server applies the record step to the record found under the key of the
request and touches nothing else. -/
theorem server_step (table : PageLockHash) (call : LockCall) :
    server.step table call =
      (table.insert call.key (recordStep (table.lookup call.key) call).1,
        ⟨call.request.spaceId, call.request.pageNo,
          (recordStep (table.lookup call.key) call).2⟩) := by
  simp only [server, checkLockRequest, hashFindInt, LockCall.key, LockCall.fold]
  cases table.lookup (hashKey (calFold call.request.spaceId call.request.pageNo)) with
  | none => rfl
  | some pageLock =>
      simp only [recordStep]
      by_cases unlocks : call.request.lockType = .unlock
      · simp [unlocks]
      · by_cases free : pageLock.lockType = .unlock
        · simp [unlocks, free]
        · by_cases compatible :
            lockCompatibilityMatrix call.request.lockType pageLock.lockType
          · simp [unlocks, free, compatible]
          · simp [unlocks, free, compatible]

section Lookup

variable {table : PageLockHash} {call : LockCall} {key : UInt32}

theorem lookup_step_self :
    (server.step table call).1.lookup call.key =
      some (recordStep (table.lookup call.key) call).1 := by
  rw [server_step]
  exact AList.lookup_insert _

/-- The first call on a fold leaves a new record. -/
theorem lookup_step_created (missing : table.lookup call.key = none) :
    (server.step table call).1.lookup call.key =
      some (newPageLockT call.asker call.request) := by
  rw [lookup_step_self, missing]
  rfl

/-- A call on a record of its own keeps all other records. -/
theorem lookup_step_of_ne (other : key ≠ call.key) :
    (server.step table call).1.lookup key = table.lookup key := by
  rw [server_step]
  exact AList.lookup_insert_ne other

/-- A record that is there after a call was left by it under its key, or was there before. -/
theorem lookup_step_cases {record : PageLockT}
    (found : (server.step table call).1.lookup key = some record) :
    (key = call.key ∧ (recordStep (table.lookup call.key) call).1 = record) ∨
      (key ≠ call.key ∧ table.lookup key = some record) := by
  by_cases same : key = call.key
  · rw [same, lookup_step_self, Option.some.injEq] at found
    exact .inl ⟨same, found⟩
  · rw [lookup_step_of_ne same] at found
    exact .inr ⟨same, found⟩

end Lookup

/-- The record under one key is a component of the server: requests with that key
are answered from it alone, and all others leave it unchanged. -/
theorem record_component (key : UInt32) :
    Machine.Component server recordMachine (AList.lookup key)
      (fun call => call.key = key) where
  visible_step := by
    rintro table call rfl
    simp [server_step, recordMachine]
  hidden_step := by
    intro table call hidden
    exact lookup_step_of_ne (Ne.symm hidden)

/-! ## Folds and keys -/

/-- A fold fits in its four key bytes. -/
theorem hashKey_calFold_inj {space page space' page' : UInt32} :
    hashKey (calFold space page) = hashKey (calFold space' page') ↔
      calFold space page = calFold space' page' := by
  constructor
  · intro equal
    simp only [hashKey, calFold, UInt32.toUInt32_toUInt64] at equal
    rw [calFold, calFold, equal]
  · intro equal
    rw [equal]

/-- Two calls reach the same record exactly when their folds agree. -/
theorem LockCall.key_eq_iff {left right : LockCall} :
    left.key = right.key ↔ left.fold = right.fold :=
  hashKey_calFold_inj

end MultiMaster.LockTable
