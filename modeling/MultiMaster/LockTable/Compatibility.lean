import MultiMaster.LockTable.Exclusion

/-!
# Who holds a page together

Hosts that hold one page at the same time are readers, as long as every unlock request
releases the only entry of a holder list.  Hosts that ask for write locks alone meet that
condition by themselves: their records never have a second holder.
-/

namespace MultiMaster.LockTable

open Foundation

variable {history : LockHistory} {call : LockCall} {record : PageLockT}

/-- Different hosts with grants on one page have read locks. -/
theorem Ledger.readers_of_ne {grants : List Grant} (ledger : Ledger history record grants)
    {page : UInt32 × UInt32} (onFold : calFold page.1 page.2 = record.mFold)
    {left right : HostName} {leftMode rightMode : PageLockType} (different : left ≠ right)
    (leftHolds : Holds (OnPage page) history left leftMode)
    (rightHolds : Holds (OnPage page) history right rightMode) :
    leftMode = .rLock ∧ rightMode = .rLock := by
  have leftGrant := (ledger.outstanding page onFold _ _).mp leftHolds
  have rightGrant := (ledger.outstanding page onFold _ _).mp rightHolds
  cases stored : record.lockType with
  | unlock =>
      rw [ledger.free stored] at leftGrant
      cases leftGrant
  | wLock =>
      rcases ledger.writer stored with ⟨grant, rfl⟩
      rw [List.mem_singleton] at leftGrant rightGrant
      exact absurd (congrArg Grant.host (leftGrant.trans rightGrant.symm)) different
  | rLock => exact ⟨ledger.readers stored _ leftGrant, ledger.readers stored _ rightGrant⟩

/-- Two hosts that hold one page hold it for reading. -/
def HoldersRead (history : LockHistory) : Prop :=
  ∀ page left right leftMode rightMode, left ≠ right →
    Holds (OnPage page) history left leftMode → Holds (OnPage page) history right rightMode →
    leftMode = .rLock ∧ rightMode = .rLock

theorem holdersRead_of_sole {calls : List LockCall}
    (wellBehaved : server.Respects ∅ (fun history _ => WellBehaved history) calls)
    (sole : server.Respects ∅ (fun _ table => ReleasesSoleHolder table) calls) :
    HoldersRead (server.trace ∅ calls) := by
  intro page left right leftMode rightMode different leftHolds rightHolds
  rcases record_of_holds leftHolds with ⟨record, found, onFold⟩
  rcases ledger_run wellBehaved sole found with ⟨grants, ledger⟩
  exact ledger.readers_of_ne onFold different leftHolds rightHolds

/-! ## Writers alone -/

/-- A record that no reader was let in to. -/
structure OneHolder (history : LockHistory) (record : PageLockT) : Prop where
  ledger : HasLedger history record
  few : record.lockHolder.length ≤ 1
  notShared : record.lockType ≠ .rLock

/-- A host that holds the page of a record is its only holder. -/
theorem OneHolder.sole {table : PageLockHash} (one : OneHolder history record)
    (found : table.lookup call.key = some record) (sameFold : call.fold = record.mFold)
    (wellBehaved : WellBehaved history call) : ReleasesSoleHolder table call := by
  intro unlocks
  rw [WellBehaved, if_pos unlocks] at wellBehaved
  rcases wellBehaved with ⟨mode, holds⟩
  rcases one.ledger with ⟨grants, ledger⟩
  have grant := (ledger.outstanding call.request.page sameFold _ _).mp holds
  have listed : call.asker ∈ record.lockHolder := by
    rw [ledger.holders]
    exact List.mem_map.mpr ⟨_, grant, rfl⟩
  obtain ⟨holder, only⟩ : ∃ holder, record.lockHolder = [holder] :=
    List.length_eq_one_iff.mp
      (Nat.le_antisymm one.few (List.length_pos_of_mem listed))
  rw [only, List.mem_singleton] at listed
  rw [found, Option.map_some, only, listed]

theorem OneHolder.kept {table : PageLockHash} (one : OneHolder history record)
    (wellBehaved : WellBehaved history call) (writes : call.request.lockType ≠ .rLock)
    (found : table.lookup call.key = some record) (noWaiters : record.waitList = [])
    (sameFold : call.fold = record.mFold) :
    OneHolder (history ++ [(call, (server.step table call).2)])
      (recordStep (some record) call).1 := by
  have sole := one.sole found sameFold wellBehaved
  rcases one.ledger with ⟨grants, ledger⟩
  refine ⟨ledger.kept wellBehaved sole found noWaiters sameFold, ?_, ?_⟩
  · rcases recordStep_cases noWaiters call with
      ⟨_, step⟩ | ⟨_, allowed, step⟩ | ⟨_, _, _, step⟩
    · rw [step]
      exact (List.length_filter_le _ _).trans one.few
    · have free : record.lockHolder = [] := by
        rw [ledger.holders, ledger.free (allowed.resolve_right fun shared => writes shared.1)]
        rfl
      rw [step]
      simp [updateSuccessPageLockT, free]
    · rw [step]
      exact one.few
  · rcases recordStep_cases noWaiters call with
      ⟨_, step⟩ | ⟨_, _, step⟩ | ⟨_, _, _, step⟩
    · rw [step]
      simp
    · rw [step]
      exact writes
    · rw [step]
      exact one.notShared

/-- Without read locks no page has two holders. -/
theorem holder_unique_of_writers {calls : List LockCall}
    (wellBehaved : server.Respects ∅ (fun history _ => WellBehaved history) calls)
    (writes : ∀ call ∈ calls, call.request.lockType ≠ .rLock)
    {page : UInt32 × UInt32} {left right : HostName} {leftMode rightMode : PageLockType}
    (leftHolds : Holds (OnPage page) (server.trace ∅ calls) left leftMode)
    (rightHolds : Holds (OnPage page) (server.trace ∅ calls) right rightMode) :
    left = right := by
  have respects : server.Respects ∅ (fun history _ call =>
      WellBehaved history call ∧ call.request.lockType ≠ .rLock) calls := by
    intro before call behind split
    exact ⟨wellBehaved before call behind split, writes call (by simp [split])⟩
  rcases record_of_holds leftHolds with ⟨record, found, onFold⟩
  have one : OneHolder (server.trace ∅ calls) record := by
    refine record_invariant ?_ ?_ ?_ respects found
    · intro history table call guarded missing fresh
      exact ⟨Ledger.created missing fresh guarded.1, Nat.le_refl _, guarded.2⟩
    · intro history table call record guarded found noWaiters sameFold one
      exact one.kept guarded.1 guarded.2 found noWaiters sameFold
    · intro history call reply record otherFold one
      rcases one.ledger with ⟨grants, ledger⟩
      exact ⟨⟨grants, ledger.framed otherFold⟩, one.few, one.notShared⟩
  rcases one.ledger with ⟨grants, ledger⟩
  have leftGrant := (ledger.outstanding page onFold _ _).mp leftHolds
  have rightGrant := (ledger.outstanding page onFold _ _).mp rightHolds
  have few := one.few
  rw [ledger.holders, List.length_map] at few
  rcases List.length_eq_one_iff.mp (Nat.le_antisymm few (List.length_pos_of_mem leftGrant)) with
    ⟨grant, rfl⟩
  rw [List.mem_singleton] at leftGrant rightGrant
  exact congrArg Grant.host (leftGrant.trans rightGrant.symm)

end MultiMaster.LockTable
