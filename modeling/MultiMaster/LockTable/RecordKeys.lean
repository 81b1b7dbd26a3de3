import MultiMaster.Foundation.KeyedRecords
import MultiMaster.LockTable.Core

/-!
# The keys of the records

A record of the lock table carries its key: `HASH_ADD_INT` and `HASH_FIND_INT` are given the
address of an eight-byte fold and look at the `sizeof(int)` bytes there.  The definitions
follow `remote_page_lock_manager.cc` and `lock_common.h` for the list of records that uthash
keeps, where a record is identified by its address and nothing but the code itself keeps two
records from having one key.

The lock table as a finite map is what the searches see of that list.
-/

namespace MultiMaster.LockTable

open Foundation

/-- The bytes at the address of a fold that are hashed and compared, on a little-endian
machine. -/
def keyBytes (fold : UInt64) : Bytes := (leBytes 8 fold.toNat).take 4

/-- The search of uthash, which compares the bytes at the key address of a record with those
it is given. -/
abbrev UtHash := KeySearch fun record : PageLockT => keyBytes record.mFold

namespace Intrusive

/-! ## The server on its records -/

def hashFindInt (uthash : UtHash) (head : List PageLockT) (findint : UInt64) :
    Option (Fin head.length) :=
  uthash.find head (keyBytes findint)

/-- The record goes to the end of the list, whatever its key is. -/
def hashAddInt (head : List PageLockT) (add : PageLockT) : List PageLockT := head ++ [add]

def insertPageLockT (pageLockHash : List PageLockT) (asker : HostName)
    (request : PageLockRequest) : List PageLockT :=
  hashAddInt pageLockHash (newPageLockT asker request)

/-- One request: the records afterwards, the reply, and the return value. -/
def checkLockRequest (uthash : UtHash) (pageLockHash : List PageLockT) (asker : HostName)
    (request : PageLockRequest) : List PageLockT × PageLockReply × Int :=
  let reply (replyType : PageReplyType) : PageLockReply :=
    ⟨request.spaceId, request.pageNo, replyType⟩
  let fold := calFold request.spaceId request.pageNo
  -- `page_lock_hash` is `NULL` as long as there are no records.
  let pageLockInfor :=
    if pageLockHash.isEmpty then none else hashFindInt uthash pageLockHash fold
  match pageLockInfor with
  | none => (insertPageLockT pageLockHash asker request, reply .lockSuccess, 0)
  | some place =>
      let pageLock := pageLockHash.get place
      if request.lockType = .unlock then
        (pageLockHash.set place (updateUnlockPageLockT asker pageLock),
          reply .unlockSuccess, 2)
      else if pageLock.lockType = .unlock then
        (pageLockHash.set place (updateSuccessPageLockT asker request pageLock),
          reply .lockSuccess, 1)
      else if lockCompatibilityMatrix request.lockType pageLock.lockType then
        (pageLockHash.set place (updateSuccessPageLockT asker request pageLock),
          reply .lockSuccess, 1)
      else
        (pageLockHash.set place (updateFailPageLockT asker request pageLock),
          reply .lockFail, -1)

/-- The lock server as a machine over its records. -/
def server (uthash : UtHash) : Machine (List PageLockT) LockCall PageLockReply where
  step pageLockHash call :=
    let answer := checkLockRequest uthash pageLockHash call.asker call.request
    (answer.1, answer.2.1)

/-- The records after a run, in the order of their creation. -/
def records (uthash : UtHash) (calls : List LockCall) : List PageLockT :=
  (server uthash).exec [] calls

/-! ## One call -/

theorem hashFindInt_guarded (uthash : UtHash) (head : List PageLockT) (fold : UInt64) :
    (if head.isEmpty then none else hashFindInt uthash head fold) =
      hashFindInt uthash head fold := by
  cases head with
  | nil =>
      cases found : hashFindInt uthash [] fold with
      | none => rfl
      | some place => exact place.elim0
  | cons record rest => rfl

/-- The server upserts the record of the fold, by the step of a single record. -/
theorem server_step (uthash : UtHash) (pageLockHash : List PageLockT) (call : LockCall) :
    (server uthash).step pageLockHash call =
      (uthash.upsert pageLockHash (keyBytes call.fold)
          (fun record => (recordStep record call).1),
        ⟨call.request.spaceId, call.request.pageNo,
          (recordStep (uthash.lookup pageLockHash (keyBytes call.fold)) call).2⟩) := by
  simp only [server, checkLockRequest, hashFindInt_guarded]
  rw [KeySearch.upsert, KeySearch.lookup, LockCall.fold, ← hashFindInt]
  cases hashFindInt uthash pageLockHash (calFold call.request.spaceId call.request.pageNo) with
  | none => rfl
  | some place =>
      simp only [recordStep, Option.map_some]
      by_cases unlocks : call.request.lockType = .unlock
      · simp only [unlocks, if_true]
      · by_cases free : (pageLockHash.get place).lockType = .unlock
        · simp only [unlocks, free, if_true, if_false, true_or]
        · by_cases compatible :
            lockCompatibilityMatrix call.request.lockType (pageLockHash.get place).lockType
          · simp only [unlocks, free, compatible, if_true, if_false, false_or]
          · simp only [unlocks, free, compatible, Bool.false_eq_true, if_false, or_self]

end Intrusive

/-! ## What identifies a record -/

/-- The fold of a record and the page it was created for. -/
def PageLockT.identity (record : PageLockT) : UInt64 × UInt32 × UInt32 :=
  (record.mFold, record.spaceId, record.pageNo)

@[simp] theorem identity_updateUnlock (asker : HostName) (record : PageLockT) :
    (updateUnlockPageLockT asker record).identity = record.identity := by
  dsimp only [updateUnlockPageLockT]
  split
  · split
    · rfl
    · rfl
  · rfl

@[simp] theorem identity_updateSuccess (asker : HostName) (request : PageLockRequest)
    (record : PageLockT) :
    (updateSuccessPageLockT asker request record).identity = record.identity := rfl

@[simp] theorem identity_updateFail (asker : HostName) (request : PageLockRequest)
    (record : PageLockT) :
    (updateFailPageLockT asker request record).identity = record.identity := rfl

/-- No call changes what identifies a record. -/
theorem identity_recordStep (record : PageLockT) (call : LockCall) :
    (recordStep (some record) call).1.identity = record.identity := by
  rw [recordStep]
  split
  · exact identity_updateUnlock _ _
  · split
    · exact identity_updateSuccess _ _ _
    · exact identity_updateFail _ _ _

/-! ## Key bytes -/

/-- A little-endian machine puts the low half of a fold at its address. -/
theorem keyBytes_eq (fold : UInt64) : keyBytes fold = leBytes 4 (hashKey fold).toNat := by
  have low : keyBytes fold = leBytes 4 fold.toNat := rfl
  have again := leBytes_leValue (leBytes 4 fold.toNat)
  rw [length_leBytes, leValue_leBytes] at again
  rw [low, ← again, hashKey, UInt64.toNat_toUInt32]
  norm_num

theorem keyBytes_eq_iff {left right : UInt64} :
    keyBytes left = keyBytes right ↔ hashKey left = hashKey right := by
  constructor
  · intro equal
    have fits : ∀ key : UInt32, key.toNat % 256 ^ 4 = key.toNat :=
      fun key => Nat.mod_eq_of_lt key.toNat_lt
    have values := congrArg leValue equal
    rw [keyBytes_eq, keyBytes_eq, leValue_leBytes, leValue_leBytes, fits, fits] at values
    exact UInt32.toNat_inj.mp values
  · intro equal
    rw [keyBytes_eq, keyBytes_eq, equal]

theorem calFold_lt (space page : UInt32) : (calFold space page).toNat < 2 ^ 32 := by
  rw [calFold, UInt32.toNat_toUInt64]
  exact UInt32.toNat_lt _

/-! ## Every history -/

namespace Intrusive

variable {uthash : UtHash} {calls : List LockCall}

/-- The fold is the name of a record: a call asks for the record of its own fold and no
update changes a fold, and folds that can be asked for differ in their key bytes. -/
theorem server_named (uthash : UtHash) :
    Machine.Named (server uthash) uthash LockCall.fold
      (fun call record => (recordStep record call).1) where
  step_eq _ _ := by rw [server_step]
  created _ := rfl
  kept call record := congrArg Prod.fst (identity_recordStep record call)
  apart left right := by
    rw [keyBytes_eq_iff]
    exact LockCall.key_eq_iff.mp

/-- The fold of a record is the one of the page stored in it. -/
theorem fold_of_page :
    ∀ record ∈ records uthash calls, record.mFold = calFold record.spaceId record.pageNo := by
  refine (server_named uthash).forall_mem_exec (fun call => rfl) ?_ calls
  intro call record own
  have same := identity_recordStep record call
  simp only [PageLockT.identity, Prod.mk.injEq] at same
  rw [same.1, same.2.1, same.2.2, own]

/-- The keys of the records are as they should be after a run. -/
structure KeysConsistent (uthash : UtHash) (calls : List LockCall) : Prop where
  /-- No two records have the same fold. -/
  distinct : ((records uthash calls).map PageLockT.mFold).Nodup
  /-- The fold of every record is that of its own page and fits in the key bytes. -/
  ownFold : ∀ record ∈ records uthash calls,
    record.mFold = calFold record.spaceId record.pageNo ∧ record.mFold.toNat < 2 ^ 32
  /-- The search by four bytes finds a record exactly when its eight bytes are the fold that
  is asked for. -/
  found : ∀ spaceId pageNo (place : Fin (records uthash calls).length),
    hashFindInt uthash (records uthash calls) (calFold spaceId pageNo) = some place ↔
      ((records uthash calls).get place).mFold = calFold spaceId pageNo
  /-- Whatever is requested later, a record is still there, with its fold and its page. -/
  kept : ∀ (later : List LockCall) (address : Nat) record,
    (records uthash calls)[address]? = some record →
      ∃ after, (records uthash (calls ++ later))[address]? = some after ∧
        after.mFold = record.mFold ∧ after.spaceId = record.spaceId ∧
        after.pageNo = record.pageNo
  /-- There is one record for each fold that was requested. -/
  counted : (records uthash calls).length = (calls.map LockCall.fold).toFinset.card

/-- Every history from the empty table keeps the keys of the records consistent. -/
theorem keys_consistent (uthash : UtHash) (calls : List LockCall) :
    KeysConsistent uthash calls where
  distinct := (server_named uthash).nodup_names calls
  ownFold record member := by
    have own := fold_of_page record member
    refine ⟨own, ?_⟩
    rw [own]
    exact calFold_lt _ _
  found spaceId pageNo place := by
    -- Any host may ask for the page, in any mode.
    let call : LockCall := lockCall "" spaceId pageNo .rLock
    exact (server_named uthash).find_eq_some_iff calls call
  kept later address record created := by
    have untouched := fun call record => identity_recordStep record call
    rcases (server_named uthash).getElem?_exec_append untouched later created with
      ⟨after, found, same⟩
    simp only [PageLockT.identity, Prod.mk.injEq] at same
    exact ⟨after, found, same⟩
  counted := (server_named uthash).length_exec calls

/-- Two pages with one fold and a third page: two records. -/
theorem keys_consistent_sharedFold :
    (records (KeySearch.first _) [lockCall "host1" 0 1048577 .wLock,
      lockCall "host2" 1 0 .wLock, lockCall "host1" 1 1 .rLock]).length = 2 :=
  (keys_consistent _ _).counted.trans (by decide)

/-! ## The finite map of the records -/

/-- The table as a finite map has the records that the searches find. -/
def ShowsRecords (uthash : UtHash) (pageLockHash : List PageLockT) (table : PageLockHash) :
    Prop :=
  (pageLockHash.map fun record => keyBytes record.mFold).Nodup ∧
    ∀ fold, LockTable.hashFindInt table fold = uthash.lookup pageLockHash (keyBytes fold)

theorem showsRecords_nil (uthash : UtHash) : ShowsRecords uthash [] ∅ := by
  refine ⟨List.nodup_nil, ?_⟩
  intro fold
  rw [KeySearch.lookup, KeySearch.find_eq_none_iff.mpr (by simp)]
  rfl

/-- An upsert is an insertion into the map. -/
theorem ShowsRecords.upsert {pageLockHash : List PageLockT} {table : PageLockHash}
    (shows : ShowsRecords uthash pageLockHash table) (call : LockCall) :
    ShowsRecords uthash
      (uthash.upsert pageLockHash (keyBytes call.fold) fun record => (recordStep record call).1)
      (table.insert call.key
        (recordStep (uthash.lookup pageLockHash (keyBytes call.fold)) call).1) := by
  have created : keyBytes (recordStep none call).1.mFold = keyBytes call.fold := rfl
  have kept : ∀ record, keyBytes (recordStep (some record) call).1.mFold =
      keyBytes record.mFold := fun record =>
    congrArg (fun identity => keyBytes identity.1) (identity_recordStep record call)
  refine ⟨KeySearch.distinct_upsert created kept shows.1, ?_⟩
  intro fold
  by_cases same : keyBytes fold = keyBytes call.fold
  · have sameKey : hashKey fold = call.key := keyBytes_eq_iff.mp same
    rw [same, KeySearch.lookup_upsert created kept shows.1, LockTable.hashFindInt, sameKey,
      AList.lookup_insert]
  · have otherKey : hashKey fold ≠ call.key := fun equal => same (keyBytes_eq_iff.mpr equal)
    rw [KeySearch.lookup_upsert_ne created kept shows.1 same, LockTable.hashFindInt,
      AList.lookup_insert_ne otherKey]
    exact shows.2 fold

/-- The lock table as a finite map follows the server on its records. -/
theorem server_follows (uthash : UtHash) : Machine.Simulation (server uthash) LockTable.server
    (ShowsRecords uthash) (fun _ _ => True) (fun _ _ => True) id id where
  follows := by
    intro pageLockHash table call shows _
    have own : table.lookup call.key = uthash.lookup pageLockHash (keyBytes call.fold) :=
      shows.2 call.fold
    rw [id, server_step, LockTable.server_step, own]
    exact ⟨trivial, shows.upsert call, rfl⟩

/-- After every history the lock table holds the records of the list, and has given the same
replies. -/
theorem records_of_table (uthash : UtHash) (calls : List LockCall) :
    ShowsRecords uthash (records uthash calls) (LockTable.server.exec ∅ calls) ∧
      ((server uthash).trace [] calls).map Prod.snd =
        (LockTable.server.trace ∅ calls).map Prod.snd := by
  have permitted : (server uthash).Respects [] (fun _ _ _ => True) calls :=
    fun _ _ _ _ => trivial
  have follows := ((server_follows uthash).run (showsRecords_nil uthash) permitted).2
  rw [List.map_id, List.map_id] at follows
  exact follows

end Intrusive

end MultiMaster.LockTable
