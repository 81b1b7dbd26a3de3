import MultiMaster.LockTable.Holders

/-!
# Unlock requests of hosts that hold nothing

The server handles an unlock request before it looks at the holders.  An unlock by a
host that is not listed as a holder is always answered with success; it marks the
record as unlocked for everybody, or creates a record with the host as its holder.
-/

namespace MultiMaster.LockTable

open Foundation

variable {table : PageLockHash} {call : LockCall}

/-- The host of a call is not among the holders of the record it reaches. -/
def Stranger (table : PageLockHash) (call : LockCall) : Prop :=
  ∀ record, table.lookup call.key = some record → call.asker ∉ record.lockHolder

/-- Lock type, holders, waiters and version of two records agree. -/
def SameLock (before after : PageLockT) : Prop :=
  after.lockType = before.lockType ∧ after.lockHolder = before.lockHolder ∧
    after.waitList = before.waitList ∧ after.versionNo = before.versionNo

/-- Every record that exists before a call is there afterwards with the same lock. -/
def RecordsKept (table : PageLockHash) (call : LockCall) : Prop :=
  ∀ key record, table.lookup key = some record →
    ∃ after, (server.step table call).1.lookup key = some after ∧ SameLock record after

/-- Every holder listed after a call was listed in the same record before it. -/
def NoHolderAdded (table : PageLockHash) (call : LockCall) : Prop :=
  ∀ key after host, (server.step table call).1.lookup key = some after →
    host ∈ after.lockHolder →
    ∃ record, table.lookup key = some record ∧ host ∈ record.lockHolder

/-- The call is not answered with success. -/
def NotSuccessful (table : PageLockHash) (call : LockCall) : Prop :=
  (server.step table call).2.replyType ≠ .lockSuccess ∧
    (server.step table call).2.replyType ≠ .unlockSuccess

/-- What is expected of an unlock by a stranger. -/
structure StrangerRefused (table : PageLockHash) (call : LockCall) : Prop where
  kept : RecordsKept table call
  noHolderAdded : NoHolderAdded table call
  notSuccessful : NotSuccessful table call

/-- An unlock by a stranger leaves a record as it is, except that it is unlocked. -/
theorem recordStep_stranger {record : PageLockT} (noWaiters : record.waitList = [])
    (unlocks : call.request.lockType = .unlock) (stranger : call.asker ∉ record.lockHolder) :
    recordStep (some record) call = ({ record with lockType := .unlock }, .unlockSuccess) := by
  have holders : record.lockHolder.filter (· ≠ call.asker) = record.lockHolder := by
    apply List.filter_eq_self.mpr
    intro host member
    have different : host ≠ call.asker := fun same => stranger (same ▸ member)
    simpa using different
  rcases recordStep_cases noWaiters call with ⟨_, step⟩ | ⟨locks, _⟩ | ⟨locks, _⟩
  · rw [step, holders]
  · exact absurd unlocks locks
  · exact absurd unlocks locks

/-- Unlock requests are always answered with success. -/
theorem unlock_successful (unlocks : call.request.lockType = .unlock) :
    ¬NotSuccessful table call := by
  intro notSuccessful
  cases found : table.lookup call.key with
  | none => exact notSuccessful.1 (replyType_of_missing found)
  | some record =>
      apply notSuccessful.2
      rw [replyType_of_found found, recordStep, if_pos unlocks]

/-- What an unlock by a stranger leaves under each key when its record exists. -/
theorem lookup_step_stranger {record : PageLockT}
    (found : table.lookup call.key = some record) (noWaiters : record.waitList = [])
    (unlocks : call.request.lockType = .unlock) (stranger : call.asker ∉ record.lockHolder)
    (key : UInt32) :
    (server.step table call).1.lookup key =
      if key = call.key then some { record with lockType := .unlock }
      else table.lookup key := by
  by_cases same : key = call.key
  · rw [if_pos same, same, lookup_step_self, found,
      recordStep_stranger noWaiters unlocks stranger]
  · rw [if_neg same, lookup_step_of_ne same]

/-- An unlock by a stranger keeps all records exactly when there is nothing to unlock. -/
theorem recordsKept_iff
    (noWaiters : ∀ key record, table.lookup key = some record → record.waitList = [])
    (unlocks : call.request.lockType = .unlock) (stranger : Stranger table call) :
    RecordsKept table call ↔
      ∀ record, table.lookup call.key = some record → record.lockType = .unlock := by
  constructor
  · intro kept record found
    rcases kept call.key record found with ⟨after, afterFound, sameType, _⟩
    rw [lookup_step_stranger found (noWaiters _ _ found) unlocks (stranger record found),
      if_pos rfl] at afterFound
    cases afterFound
    exact sameType.symm
  · intro unlocked key record found
    by_cases same : key = call.key
    · subst same
      refine ⟨{ record with lockType := .unlock }, ?_, ?_⟩
      · rw [lookup_step_stranger found (noWaiters _ _ found) unlocks (stranger record found),
          if_pos rfl]
      · exact ⟨(unlocked record found).symm, rfl, rfl, rfl⟩
    · exact ⟨record, by rw [lookup_step_of_ne same, found], rfl, rfl, rfl, rfl⟩

/-- An unlock by a stranger lists no new holder exactly when the record exists. -/
theorem noHolderAdded_iff
    (noWaiters : ∀ key record, table.lookup key = some record → record.waitList = [])
    (unlocks : call.request.lockType = .unlock) (stranger : Stranger table call) :
    NoHolderAdded table call ↔ (table.lookup call.key).isSome := by
  cases found : table.lookup call.key with
  | none =>
      have created := lookup_step_created found
      have listed : call.asker ∈ (newPageLockT call.asker call.request).lockHolder := by
        simp [newPageLockT]
      constructor
      · intro noHolderAdded
        rcases noHolderAdded call.key _ call.asker created listed with ⟨record, existing, _⟩
        rw [found] at existing
        cases existing
      · intro existing
        cases existing
  | some record =>
      refine ⟨fun _ => rfl, ?_⟩
      intro _ key after host afterFound listed
      rw [lookup_step_stranger found (noWaiters _ _ found) unlocks (stranger record found)]
        at afterFound
      by_cases same : key = call.key
      · rw [if_pos same] at afterFound
        cases afterFound
        exact ⟨record, same ▸ found, listed⟩
      · rw [if_neg same] at afterFound
        exact ⟨after, afterFound, listed⟩

/-- No unlock by a stranger is refused as it should be, in any state the server reaches:
it is answered with success.  It leaves the records alone only when its record is missing
or unlocked already, and it adds a holder exactly when its record is missing. -/
theorem stranger_never_refused (calls : List LockCall) (call : LockCall)
    (unlocks : call.request.lockType = .unlock)
    (stranger : Stranger (server.exec ∅ calls) call) :
    ¬StrangerRefused (server.exec ∅ calls) call ∧
      (RecordsKept (server.exec ∅ calls) call ↔
        ∀ record, (server.exec ∅ calls).lookup call.key = some record →
          record.lockType = .unlock) ∧
      (NoHolderAdded (server.exec ∅ calls) call ↔
        ((server.exec ∅ calls).lookup call.key).isSome) := by
  have noWaiters := (consistent_run calls).noWaiters
  refine ⟨?_, recordsKept_iff noWaiters unlocks stranger,
    noHolderAdded_iff noWaiters unlocks stranger⟩
  intro refused
  exact unlock_successful unlocks refused.notSuccessful

/-- An unlock of a page nobody has requested. -/
theorem stranger_never_refused_unknownPage :
    Stranger (server.exec ∅ []) (lockCall "other" 1 1 .unlock) ∧
      ¬StrangerRefused (server.exec ∅ []) (lockCall "other" 1 1 .unlock) ∧
      ¬NoHolderAdded (server.exec ∅ []) (lockCall "other" 1 1 .unlock) := by
  have stranger : Stranger (server.exec ∅ []) (lockCall "other" 1 1 .unlock) := by
    intro record found
    cases found
  rcases stranger_never_refused [] (lockCall "other" 1 1 .unlock) rfl stranger with
    ⟨notRefused, _, added⟩
  exact ⟨stranger, notRefused, fun none => absurd (added.mp none) (by decide)⟩

/-- The record of a page that a writer holds is unlocked by another host, which is told
that it succeeded. -/
theorem writer_unlocked_by_stranger :
    Stranger (server.exec ∅ [lockCall "writer" 1 1 .wLock]) (lockCall "other" 1 1 .unlock) ∧
      ¬StrangerRefused (server.exec ∅ [lockCall "writer" 1 1 .wLock])
        (lockCall "other" 1 1 .unlock) ∧
      (replyAfter [lockCall "writer" 1 1 .wLock]
        (lockCall "other" 1 1 .unlock)).replyType = .unlockSuccess := by
  have existing : (server.exec ∅ [lockCall "writer" 1 1 .wLock]).lookup
      (lockCall "other" 1 1 .unlock).key =
        some ⟨1048578, 1, 1, 0, .wLock, [CString.ofString "writer"], []⟩ := by decide
  have unlocked : (server.step (server.exec ∅ [lockCall "writer" 1 1 .wLock])
      (lockCall "other" 1 1 .unlock)).1.lookup (lockCall "other" 1 1 .unlock).key =
        some ⟨1048578, 1, 1, 0, .unlock, [CString.ofString "writer"], []⟩ := by decide
  refine ⟨?_, ?_, by decide⟩
  · intro record found
    rw [existing] at found
    cases found
    decide
  · intro refused
    rcases refused.kept _ _ existing with ⟨after, afterFound, sameType, _⟩
    rw [unlocked] at afterFound
    cases afterFound
    cases sameType

end MultiMaster.LockTable
