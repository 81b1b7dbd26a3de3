import MultiMaster.LockTable.Holders

/-!
# Version numbers

The version number of a record is meant to count the write locks granted on it.  It
does so for every grant on an existing record; the grant that creates the record is not
counted.
-/

namespace MultiMaster.LockTable

open Foundation

variable {history : LockHistory} {calls : List LockCall} {call : LockCall} {fold : UInt64}

/-! ## Write grants -/

/-- The write lock that an unlock hands over: nobody else holds the record and its first
waiter asked to write. -/
def HandsOverWrite (record : PageLockT) (call : LockCall) : Prop :=
  record.lockHolder.filter (· ≠ call.asker) = [] ∧
    ∃ iter ∈ record.waitList.head?, iter.type = .wLock

instance (record : PageLockT) (call : LockCall) : Decidable (HandsOverWrite record call) :=
  inferInstanceAs (Decidable (_ ∧ _))

/-- The number of write locks that a call grants on its record: to its own host, when the
request is answered with success, or to a waiter. -/
def writeGrants (record : Option PageLockT) (call : LockCall) : Nat :=
  match call.request.lockType with
  | .rLock => 0
  | .wLock => if (recordStep record call).2 = .lockSuccess then 1 else 0
  | .unlock =>
      match record with
      | none => 0
      | some record => if HandsOverWrite record call then 1 else 0

/-- Count the write locks granted on the record of a fold. -/
def countWriteGrants (fold : UInt64) (count : Nat) (table : PageLockHash)
    (call : LockCall) : Nat :=
  if call.fold = fold then count + writeGrants (table.lookup call.key) call else count

/-- Write locks granted on the record of a fold in a run from the empty table. -/
def writeGrantsOf (fold : UInt64) (calls : List LockCall) : Nat :=
  server.watch (countWriteGrants fold) 0 ∅ calls

/-- Every version number is the number of write locks granted on its record. -/
def VersionsExact (calls : List LockCall) : Prop :=
  ∀ key record, (server.exec ∅ calls).lookup key = some record →
    record.versionNo.toNat = writeGrantsOf record.mFold calls

/-- The first request of a run on its fold. -/
def FirstOnRecord (calls : List LockCall) (call : LockCall) : Prop :=
  calls.find? (fun other => other.fold = call.fold) = some call

instance (calls : List LockCall) (call : LockCall) : Decidable (FirstOnRecord calls call) :=
  inferInstanceAs (Decidable (_ = _))

/-- No record of the run is created by a write request. -/
def NoWriteCreates (calls : List LockCall) : Prop :=
  ∀ call ∈ calls, FirstOnRecord calls call → call.request.lockType ≠ .wLock

instance (calls : List LockCall) : Decidable (NoWriteCreates calls) :=
  inferInstanceAs (Decidable (∀ call ∈ calls, _))

/-! ## Counting in the history -/

/-- A write request on a record that was answered with success. -/
def WriteGranted (fold : UInt64) (event : LockCall × PageLockReply) : Prop :=
  event.1.fold = fold ∧ event.1.request.lockType = .wLock ∧
    event.2.replyType = .lockSuccess

instance (fold : UInt64) : DecidablePred (WriteGranted fold) :=
  fun _ => instDecidableAnd

/-- Successful write requests on a record. -/
def writesGranted (fold : UInt64) (history : LockHistory) : Nat :=
  history.countP fun event => WriteGranted fold event

theorem writesGranted_concat (event : LockCall × PageLockReply) :
    writesGranted fold (history ++ [event]) =
      writesGranted fold history + if WriteGranted fold event then 1 else 0 := by
  simp [writesGranted, List.countP_append, List.countP_singleton]

/-- Without waiters only the host of a request is granted a lock. -/
theorem writeGrants_eq {table : PageLockHash}
    (noWaiters : ∀ key record, table.lookup key = some record → record.waitList = []) :
    writeGrants (table.lookup call.key) call =
      if WriteGranted call.fold (call, (server.step table call).2) then 1 else 0 := by
  have replied : (server.step table call).2.replyType =
      (recordStep (table.lookup call.key) call).2 := by rw [server_step]
  cases kind : call.request.lockType with
  | rLock => simp [writeGrants, WriteGranted, kind]
  | wLock => simp [writeGrants, WriteGranted, kind, replied]
  | unlock =>
      cases found : table.lookup call.key with
      | none => simp [writeGrants, WriteGranted, kind]
      | some record =>
          simp [writeGrants, WriteGranted, HandsOverWrite, kind, noWaiters _ _ found]

/-- The write locks granted in a run are its successful write requests. -/
theorem writeGrantsOf_eq (fold : UInt64) (calls : List LockCall) :
    writeGrantsOf fold calls = writesGranted fold (server.trace ∅ calls) := by
  induction calls using List.reverseRecOn with
  | nil => rfl
  | append_singleton calls call ih =>
      rw [writeGrantsOf] at ih ⊢
      rw [Machine.watch_concat, Machine.trace_concat, writesGranted_concat, ih,
        countWriteGrants, writeGrants_eq (consistent_run calls).noWaiters]
      by_cases same : call.fold = fold
      · rw [if_pos same, same]
      · rw [if_neg same]
        simp [WriteGranted, same]

/-! ## The version of a record -/

/-- The record of a fold was created by a write request. -/
def WriteCreated (fold : UInt64) (history : LockHistory) : Prop :=
  ∃ event ∈ history.find? (fun event => event.1.fold = fold),
    event.1.request.lockType = .wLock

instance (fold : UInt64) (history : LockHistory) : Decidable (WriteCreated fold history) :=
  inferInstanceAs (Decidable (∃ event ∈ history.find? _, _))

/-- What a version number counts: the successful write requests but for the one that
created the record. -/
def VersionCounts (history : LockHistory) (record : PageLockT) : Prop :=
  (∃ event ∈ history, event.1.fold = record.mFold) ∧
    record.versionNo + (if WriteCreated record.mFold history then 1 else 0) =
      UInt64.ofNat (writesGranted record.mFold history)

/-- Once a fold has a record, the request that created it stays the same. -/
theorem writeCreated_concat_of_known (known : ∃ event ∈ history, event.1.fold = fold)
    (event : LockCall × PageLockReply) :
    WriteCreated fold (history ++ [event]) ↔ WriteCreated fold history := by
  rcases known with ⟨earlier, member, sameFold⟩
  have found : (history.find? fun event => event.1.fold = fold).isSome := by
    rw [List.find?_isSome]
    exact ⟨earlier, member, by simpa using sameFold⟩
  rw [WriteCreated, WriteCreated, List.find?_append, Option.or_of_isSome found]

theorem writeCreated_concat_of_fresh (event : LockCall × PageLockReply)
    (fresh : ∀ earlier ∈ history, earlier.1.fold ≠ event.1.fold) :
    WriteCreated event.1.fold (history ++ [event]) ↔ event.1.request.lockType = .wLock := by
  have missing : history.find? (fun earlier => earlier.1.fold = event.1.fold) = none := by
    apply List.find?_eq_none.mpr
    intro earlier member
    simpa using fresh earlier member
  simp [WriteCreated, List.find?_append, missing]

theorem writesGranted_fresh (fresh : ∀ event ∈ history, event.1.fold ≠ fold) :
    writesGranted fold history = 0 := by
  apply List.countP_eq_zero.mpr
  intro event member
  simp [WriteGranted, fresh event member]

theorem versionCounts_created {table : PageLockHash}
    (missing : table.lookup call.key = none)
    (fresh : ∀ event ∈ history, event.1.fold ≠ call.fold) :
    VersionCounts (history ++ [(call, (server.step table call).2)])
      (newPageLockT call.asker call.request) := by
  have granted := replyType_of_missing missing
  have sameFold : (newPageLockT call.asker call.request).mFold = call.fold := rfl
  have created := writeCreated_concat_of_fresh (call, (server.step table call).2) fresh
  refine ⟨⟨_, List.mem_append_right _ (List.mem_singleton.mpr rfl), rfl⟩, ?_⟩
  simp only [sameFold, writesGranted_concat, writesGranted_fresh fresh, created]
  by_cases writes : call.request.lockType = .wLock
  · simp [WriteGranted, writes, granted, newPageLockT]
  · simp [WriteGranted, writes, newPageLockT]

theorem version_succ {version created : UInt64} {count : Nat}
    (counted : version + created = UInt64.ofNat count) :
    version + 1 + created = UInt64.ofNat (count + 1) := by
  rw [UInt64.ofNat_add, ← counted, UInt64.add_assoc, UInt64.add_assoc,
    UInt64.add_comm 1 created]
  rfl

theorem versionCounts_kept {table : PageLockHash} {record : PageLockT}
    (found : table.lookup call.key = some record) (noWaiters : record.waitList = [])
    (sameFold : call.fold = record.mFold) (counts : VersionCounts history record) :
    VersionCounts (history ++ [(call, (server.step table call).2)])
      (recordStep (some record) call).1 := by
  rcases counts with ⟨known, counted⟩
  have replied := replyType_of_found found
  have frame := (recordStep_frame noWaiters call).1
  have laterKnown : ∃ event ∈ history ++ [(call, (server.step table call).2)],
      event.1.fold = record.mFold := by
    rcases known with ⟨event, member, same⟩
    exact ⟨event, List.mem_append_left _ member, same⟩
  refine ⟨by rw [frame]; exact laterKnown, ?_⟩
  simp only [frame, writesGranted_concat, writeCreated_concat_of_known known]
  rcases recordStep_cases noWaiters call with
    ⟨unlocks, step⟩ | ⟨_, _, step⟩ | ⟨_, _, _, step⟩
  · rw [step]
    simpa [WriteGranted, unlocks] using counted
  · rw [step] at replied ⊢
    by_cases writes : call.request.lockType = .wLock
    · have granted : WriteGranted record.mFold (call, (server.step table call).2) :=
        ⟨sameFold, writes, replied⟩
      rw [if_pos granted, updateSuccessPageLockT, if_pos writes]
      exact version_succ counted
    · simpa [WriteGranted, writes, updateSuccessPageLockT] using counted
  · rw [step] at replied ⊢
    simpa [WriteGranted, replied] using counted

theorem versionCounts_run (calls : List LockCall) {key : UInt32} {record : PageLockT}
    (found : (server.exec ∅ calls).lookup key = some record) :
    VersionCounts (server.trace ∅ calls) record := by
  have respects : server.Respects ∅ (fun _ _ _ => True) calls := fun _ _ _ _ => trivial
  refine record_invariant ?_ ?_ ?_ respects found
  · intro history table call _ missing fresh
    exact versionCounts_created missing fresh
  · intro history table call record _ found noWaiters sameFold counts
    exact versionCounts_kept found noWaiters sameFold counts
  · intro history call reply record otherFold counts
    rcases counts with ⟨known, counted⟩
    constructor
    · rcases known with ⟨event, member, same⟩
      exact ⟨event, List.mem_append_left _ member, same⟩
    · simp only [writesGranted_concat, writeCreated_concat_of_known known]
      simpa [WriteGranted, otherFold] using counted

/-! ## Exact versions -/

/-- A version number is too small by one exactly when its record was created by a write
request. -/
theorem version_eq_iff (short : calls.length < 2 ^ 64) {key : UInt32} {record : PageLockT}
    (found : (server.exec ∅ calls).lookup key = some record) :
    record.versionNo.toNat = writeGrantsOf record.mFold calls ↔
      ¬WriteCreated record.mFold (server.trace ∅ calls) := by
  have counted := (versionCounts_run calls found).2
  have bounded : writesGranted record.mFold (server.trace ∅ calls) < 2 ^ 64 := by
    have most : (server.trace ∅ calls).length = calls.length := by
      rw [← List.length_map Prod.fst, server.map_fst_trace]
    have counts : writesGranted record.mFold (server.trace ∅ calls) ≤
        (server.trace ∅ calls).length := List.countP_le_length
    omega
  rw [writeGrantsOf_eq]
  constructor
  · intro equal created
    rw [if_pos created, ← equal, UInt64.ofNat_toNat] at counted
    have one : (1 : UInt64) = 0 := add_eq_left.mp counted
    exact absurd one (by decide)
  · intro notCreated
    rw [if_neg notCreated, UInt64.add_zero] at counted
    rw [counted]
    exact UInt64.toNat_ofNat_of_lt' bounded

/-- The first request on a fold, in a run and in its history. -/
theorem find?_calls (fold : UInt64) (calls : List LockCall) :
    calls.find? (fun call => call.fold = fold) =
      ((server.trace ∅ calls).find? fun event => event.1.fold = fold).map Prod.fst := by
  conv_lhs => rw [← server.map_fst_trace ∅ calls]
  rw [List.find?_map]
  rfl

theorem writeCreated_iff (fold : UInt64) (calls : List LockCall) :
    WriteCreated fold (server.trace ∅ calls) ↔
      ∃ call ∈ calls.find? (fun call => call.fold = fold), call.request.lockType = .wLock := by
  rw [find?_calls, WriteCreated]
  simp

/-- Every version number of a run counts the write locks granted on its record if and
only if no record of the run was created by a write request. -/
theorem versions_exact_iff (calls : List LockCall) (short : calls.length < 2 ^ 64) :
    VersionsExact calls ↔ NoWriteCreates calls := by
  have consistent := consistent_run calls
  constructor
  · intro versionsExact call member first writes
    have inTrace : ∃ event ∈ server.trace ∅ calls, event.1 = call := by
      rw [← server.map_fst_trace ∅ calls] at member
      exact List.mem_map.mp member
    rcases inTrace with ⟨event, eventMember, rfl⟩
    rcases Option.isSome_iff_exists.mp (consistent.recorded event eventMember) with
      ⟨record, found⟩
    apply (version_eq_iff short found).mp (versionsExact _ record found)
    rw [writeCreated_iff, ← consistent.fold_eq found]
    exact ⟨event.1, first, writes⟩
  · intro noWriteCreates key record found
    apply (version_eq_iff short found).mpr
    intro created
    rcases (writeCreated_iff _ _).mp created with ⟨call, first, writes⟩
    have sameFold : call.fold = record.mFold := by
      simpa using List.find?_some first
    refine noWriteCreates call (List.mem_of_find?_eq_some first) ?_ writes
    rw [FirstOnRecord, sameFold]
    exact first

/-- A reader creates the record, a writer follows. -/
theorem versions_exact_iff_readerFirst :
    VersionsExact [lockCall "host1" 1 1 .rLock, lockCall "host1" 1 1 .unlock,
      lockCall "host2" 1 1 .wLock] :=
  (versions_exact_iff _ (by decide)).mpr (by decide)

/-- The version of a record created by a write request is zero, although a write lock was
granted. -/
theorem writeFirst_version_stale :
    ¬VersionsExact [lockCall "host1" 1 1 .wLock] := by
  intro versionsExact
  have found : (server.exec ∅ [lockCall "host1" 1 1 .wLock]).lookup 1048578 =
      some ⟨1048578, 1, 1, 0, .wLock, [CString.ofString "host1"], []⟩ := by decide
  have counted := versionsExact _ _ found
  exact absurd counted (by decide)

end MultiMaster.LockTable
