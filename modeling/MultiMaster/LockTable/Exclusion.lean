import MultiMaster.LockTable.Holders

/-!
# Mutual exclusion of page locks

A write lock on a page should exclude every other holder.  An unlock request,
however, marks its record as unlocked even when other hosts, or the same host on
another page of the fold, still hold it.  Exclusion therefore holds along the
runs whose unlock requests release the only entry of their record, and it can be
broken by the very next request after any other unlock.
-/

namespace MultiMaster.LockTable

open Foundation

variable {history : LockHistory} {call : LockCall}

/-- A well-behaved host asks for a lock only while it holds none on the page and
unlocks only while it holds one. -/
def WellBehaved (history : LockHistory) (call : LockCall) : Prop :=
  if call.request.lockType = .unlock then
    ∃ mode, Holds (OnPage call.request.page) history call.asker mode
  else
    ∀ mode, ¬Holds (OnPage call.request.page) history call.asker mode

/-- An unlock request finds its host as the only entry of the holder list. -/
def ReleasesSoleHolder (table : PageLockHash) (call : LockCall) : Prop :=
  call.request.lockType = .unlock →
    (table.lookup call.key).map PageLockT.lockHolder = some [call.asker]

/-- No two hosts hold one page when one of them holds it for writing. -/
def MutuallyExclusive (history : LockHistory) : Prop :=
  ∀ page left right mode, left ≠ right →
    Holds (OnPage page) history left .wLock → ¬Holds (OnPage page) history right mode

instance (history : LockHistory) (call : LockCall) :
    Decidable (WellBehaved history call) :=
  inferInstanceAs (Decidable (ite _ _ _))

instance (table : PageLockHash) (call : LockCall) :
    Decidable (ReleasesSoleHolder table call) :=
  inferInstanceAs (Decidable (_ → _))

/-! ## The ledger of a record -/

/-- One outstanding grant. -/
structure Grant where
  host : HostName
  page : UInt32 × UInt32
  mode : PageLockType

/-- The host and page of a grant. -/
def Grant.slot (grant : Grant) : HostName × (UInt32 × UInt32) :=
  (grant.host, grant.page)

/-- The grant a successful lock request creates. -/
def LockCall.grant (call : LockCall) : Grant :=
  ⟨call.asker, call.request.page, call.request.lockType⟩

/-- `grants` lists the outstanding grants on the pages of a record. -/
structure Ledger (history : LockHistory) (record : PageLockT)
    (grants : List Grant) : Prop where
  holders : record.lockHolder = grants.map Grant.host
  distinct : (grants.map Grant.slot).Nodup
  onFold : ∀ grant ∈ grants, calFold grant.page.1 grant.page.2 = record.mFold
  outstanding : ∀ page, calFold page.1 page.2 = record.mFold → ∀ host mode,
    Holds (OnPage page) history host mode ↔ ⟨host, page, mode⟩ ∈ grants
  free : record.lockType = .unlock → grants = []
  writer : record.lockType = .wLock → ∃ grant, grants = [grant]
  readers : record.lockType = .rLock → ∀ grant ∈ grants, grant.mode = .rLock

def HasLedger (history : LockHistory) (record : PageLockT) : Prop :=
  ∃ grants, Ledger history record grants

/-- A lock request of the ledger's record that succeeds adds its own grant. -/
theorem Ledger.outstanding_granted {fold : UInt64} {grants : List Grant}
    {reply : PageLockReply}
    (outstanding : ∀ page, calFold page.1 page.2 = fold → ∀ host mode,
      Holds (OnPage page) history host mode ↔ ⟨host, page, mode⟩ ∈ grants)
    (locks : call.request.lockType ≠ .unlock)
    (granted : reply.replyType = .lockSuccess) :
    ∀ page, calFold page.1 page.2 = fold → ∀ host mode,
      Holds (OnPage page) (history ++ [(call, reply)]) host mode ↔
        ⟨host, page, mode⟩ ∈ grants ++ [call.grant] := by
  intro page onFold host mode
  by_cases samePage : call.request.page = page
  · rw [holds_concat_of_granted samePage locks granted,
      outstanding page onFold host mode]
    simp only [List.mem_append, List.mem_singleton, LockCall.grant, Grant.mk.injEq,
      samePage]
    tauto
  · rw [holds_concat_of_not_about samePage, outstanding page onFold host mode]
    simp only [List.mem_append, List.mem_singleton, LockCall.grant, Grant.mk.injEq,
      Ne.symm samePage, false_and, and_false, or_false]

/-- A well-behaved lock request adds a host and page the ledger does not have. -/
theorem Ledger.distinct_granted {record : PageLockT} {grants : List Grant}
    (ledger : Ledger history record grants) (wellBehaved : WellBehaved history call)
    (locks : call.request.lockType ≠ .unlock) :
    ((grants ++ [call.grant]).map Grant.slot).Nodup := by
  rw [WellBehaved, if_neg locks] at wellBehaved
  rw [List.map_append, List.map_singleton, List.nodup_append]
  refine ⟨ledger.distinct, List.nodup_singleton _, ?_⟩
  intro slot earlier other last equal
  rcases List.mem_map.mp earlier with ⟨grant, member, rfl⟩
  rw [List.mem_singleton.mp last] at equal
  have sameHost : grant.host = call.asker := congrArg Prod.fst equal
  have samePage : grant.page = call.request.page := congrArg Prod.snd equal
  have holds := (ledger.outstanding _ (ledger.onFold grant member) _ _).mpr member
  rw [sameHost, samePage] at holds
  exact wellBehaved grant.mode holds

/-- Creating a record by a lock request opens a ledger with one grant. -/
theorem Ledger.created {table : PageLockHash}
    (missing : table.lookup call.key = none)
    (fresh : ∀ event ∈ history, event.1.fold ≠ call.fold)
    (wellBehaved : WellBehaved history call) :
    HasLedger (history ++ [(call, (server.step table call).2)])
      (newPageLockT call.asker call.request) := by
  have nothing : ∀ page, calFold page.1 page.2 = call.fold → ∀ host mode,
      Holds (OnPage page) history host mode ↔
        (⟨host, page, mode⟩ : Grant) ∈ ([] : List Grant) := by
    intro page onFold host mode
    simp only [List.not_mem_nil, iff_false]
    apply not_holds_of_no_event
    intro event member samePage
    apply fresh event member
    rw [← onFold, ← samePage, LockCall.calFold_page]
  have locks : call.request.lockType ≠ .unlock := by
    intro unlocks
    rw [WellBehaved, if_pos unlocks] at wellBehaved
    rcases wellBehaved with ⟨mode, holds⟩
    have member := (nothing _ call.calFold_page _ _).mp holds
    cases member
  have outstanding := Ledger.outstanding_granted nothing locks
    (replyType_of_missing missing)
  refine ⟨_, rfl, by simp, ?_, outstanding, fun free => absurd free locks,
    fun _ => ⟨_, rfl⟩, ?_⟩
  · intro grant member
    rw [List.mem_singleton.mp member]
    exact call.calFold_page
  · intro reads grant member
    rw [List.mem_singleton.mp member]
    exact reads

/-- The ledger of a record with one holder has one entry. -/
theorem Ledger.eq_singleton {record : PageLockT} {grants : List Grant} {grant : Grant}
    {host : HostName} (ledger : Ledger history record grants)
    (only : record.lockHolder = [host]) (member : grant ∈ grants) : grants = [grant] := by
  have counted := ledger.holders
  rw [only] at counted
  cases grants with
  | nil => cases member
  | cons first rest =>
      cases rest with
      | nil => rw [List.mem_singleton.mp member]
      | cons second rest => simp at counted

/-- The sole holder releases its record. -/
theorem Ledger.released {record : PageLockT} {grants : List Grant} {reply : PageLockReply}
    (wellBehaved : WellBehaved history call) (unlocks : call.request.lockType = .unlock)
    (only : record.lockHolder = [call.asker]) (sameFold : call.fold = record.mFold)
    (ledger : Ledger history record grants) :
    Ledger (history ++ [(call, reply)]) { record with
      lockType := .unlock
      lockHolder := record.lockHolder.filter (· ≠ call.asker) } [] := by
  rw [WellBehaved, if_pos unlocks] at wellBehaved
  rcases wellBehaved with ⟨mode, holds⟩
  have onFold := call.calFold_page.trans sameFold
  have single := ledger.eq_singleton only ((ledger.outstanding _ onFold _ _).mp holds)
  refine ⟨by simp [only], by simp, by simp, ?_, fun _ => rfl, by simp, by simp⟩
  intro page onFold host mode'
  have before := ledger.outstanding page onFold host mode'
  rw [single, List.mem_singleton, Grant.mk.injEq] at before
  simp only [List.not_mem_nil, iff_false]
  by_cases samePage : call.request.page = page
  · rw [holds_concat_of_unlock samePage unlocks, before]
    intro held
    exact held.2 held.1.1.symm
  · rw [holds_concat_of_not_about samePage, before]
    intro held
    exact samePage held.2.1.symm

/-- A lock is granted on a free record, or shared with readers. -/
theorem Ledger.granted {record : PageLockT} {grants : List Grant} {reply : PageLockReply}
    (wellBehaved : WellBehaved history call) (locks : call.request.lockType ≠ .unlock)
    (allowed : record.lockType = .unlock ∨
      (call.request.lockType = .rLock ∧ record.lockType = .rLock))
    (replied : reply.replyType = .lockSuccess) (sameFold : call.fold = record.mFold)
    (ledger : Ledger history record grants) :
    Ledger (history ++ [(call, reply)]) (updateSuccessPageLockT call.asker call.request record)
      (grants ++ [call.grant]) := by
  refine ⟨by simp [updateSuccessPageLockT, LockCall.grant, ledger.holders],
    ledger.distinct_granted wellBehaved locks, ?_,
    Ledger.outstanding_granted ledger.outstanding locks replied,
    fun free => absurd free locks, ?_, ?_⟩
  · intro grant member
    rcases List.mem_append.mp member with earlier | last
    · exact ledger.onFold grant earlier
    · rw [List.mem_singleton.mp last]
      exact call.calFold_page.trans sameFold
  · intro writes
    rcases allowed with free | ⟨reads, _⟩
    · rw [ledger.free free]
      exact ⟨_, rfl⟩
    · rw [show call.request.lockType = .wLock from writes] at reads
      cases reads
  · intro reads grant member
    rcases List.mem_append.mp member with earlier | last
    · rcases allowed with free | ⟨_, shared⟩
      · rw [ledger.free free] at earlier
        cases earlier
      · exact ledger.readers shared grant earlier
    · rw [List.mem_singleton.mp last]
      exact reads

/-- A call that meets the condition keeps the ledger of its record. -/
theorem Ledger.kept {table : PageLockHash} {record : PageLockT}
    {grants : List Grant} (wellBehaved : WellBehaved history call)
    (sole : ReleasesSoleHolder table call)
    (found : table.lookup call.key = some record)
    (noWaiters : record.waitList = []) (sameFold : call.fold = record.mFold)
    (ledger : Ledger history record grants) :
    HasLedger (history ++ [(call, (server.step table call).2)])
      (recordStep (some record) call).1 := by
  have replied := replyType_of_found found
  rcases recordStep_cases noWaiters call with
    ⟨unlocks, step⟩ | ⟨locks, allowed, step⟩ | ⟨locks, _, _, step⟩
  · have only : record.lockHolder = [call.asker] := by
      simpa [found] using sole unlocks
    rw [step]
    exact ⟨[], ledger.released wellBehaved unlocks only sameFold⟩
  · rw [step] at replied ⊢
    exact ⟨_, ledger.granted wellBehaved locks allowed replied sameFold⟩
  · rw [step] at replied ⊢
    have refused : (server.step table call).2.replyType ≠ .lockSuccess := by
      simp [replied]
    refine ⟨grants, ledger.holders, ledger.distinct, ledger.onFold, ?_,
      ledger.free, ledger.writer, ledger.readers⟩
    intro page onFold host mode
    rw [holds_concat_of_refused locks refused]
    exact ledger.outstanding page onFold host mode

theorem Ledger.framed {record : PageLockT} {grants : List Grant}
    {reply : PageLockReply} (otherFold : call.fold ≠ record.mFold)
    (ledger : Ledger history record grants) :
    Ledger (history ++ [(call, reply)]) record grants where
  holders := ledger.holders
  distinct := ledger.distinct
  onFold := ledger.onFold
  outstanding := by
    intro page onFold host mode
    have otherPage : ¬OnPage page call.request := by
      intro samePage
      apply otherFold
      rw [← onFold, ← samePage, LockCall.calFold_page]
    rw [holds_concat_of_not_about otherPage]
    exact ledger.outstanding page onFold host mode
  free := ledger.free
  writer := ledger.writer
  readers := ledger.readers

/-! ## Exclusion along runs -/

/-- Every record of a run within the condition has a ledger. -/
theorem ledger_run {calls : List LockCall}
    (wellBehaved : server.Respects ∅ (fun history _ => WellBehaved history) calls)
    (sole : server.Respects ∅ (fun _ table => ReleasesSoleHolder table) calls)
    {key : UInt32} {record : PageLockT}
    (found : (server.exec ∅ calls).lookup key = some record) :
    HasLedger (server.trace ∅ calls) record := by
  have respects : server.Respects ∅ (fun history table call =>
      WellBehaved history call ∧ ReleasesSoleHolder table call) calls :=
    fun before call after split =>
      ⟨wellBehaved before call after split, sole before call after split⟩
  refine record_invariant ?_ ?_ ?_ respects found
  · intro history table call guarded missing fresh
    exact Ledger.created missing fresh guarded.1
  · intro history table call record guarded found noWaiters sameFold opened
    rcases opened with ⟨grants, ledger⟩
    exact ledger.kept guarded.1 guarded.2 found noWaiters sameFold
  · intro history call reply record otherFold opened
    rcases opened with ⟨grants, ledger⟩
    exact ⟨grants, ledger.framed otherFold⟩

/-- A held page has a record, stored under the page's fold. -/
theorem record_of_holds {calls : List LockCall} {page : UInt32 × UInt32}
    {host : HostName} {mode : PageLockType}
    (holds : Holds (OnPage page) (server.trace ∅ calls) host mode) :
    ∃ record,
      (server.exec ∅ calls).lookup (hashKey (calFold page.1 page.2)) = some record ∧
        calFold page.1 page.2 = record.mFold := by
  rcases holds with ⟨before, event, after, split, granted, _⟩
  have member : event ∈ server.trace ∅ calls := by
    rw [split]
    simp
  have consistent := consistent_run calls
  rcases Option.isSome_iff_exists.mp (consistent.recorded event member) with
    ⟨record, found⟩
  have onFold : event.1.fold = calFold page.1 page.2 := by
    rw [← granted.2.1, LockCall.calFold_page]
  refine ⟨record, ?_, ?_⟩
  · rw [← onFold]
    exact found
  · rw [← onFold]
    exact consistent.fold_eq found

/-- Page locks are mutually exclusive in every state reached by a run of
well-behaved hosts in which each unlock request releases the only entry of its
record's holder list. -/
theorem pageLocks_mutuallyExclusive (calls : List LockCall)
    (wellBehaved : server.Respects ∅ (fun history _ => WellBehaved history) calls)
    (sole : server.Respects ∅ (fun _ table => ReleasesSoleHolder table) calls) :
    MutuallyExclusive (server.trace ∅ calls) := by
  intro page left right mode different leftHolds rightHolds
  rcases record_of_holds leftHolds with ⟨record, found, onFold⟩
  rcases ledger_run wellBehaved sole found with ⟨grants, ledger⟩
  have leftGrant := (ledger.outstanding page onFold _ _).mp leftHolds
  have rightGrant := (ledger.outstanding page onFold _ _).mp rightHolds
  cases stored : record.lockType with
  | unlock =>
      rw [ledger.free stored] at leftGrant
      cases leftGrant
  | wLock =>
      rcases ledger.writer stored with ⟨grant, rfl⟩
      have same := (List.mem_singleton.mp leftGrant).trans
        (List.mem_singleton.mp rightGrant).symm
      cases same
      exact different rfl
  | rLock =>
      have reads := ledger.readers stored _ leftGrant
      cases reads

/-- Two readers share a page, the first unlocks it, and a writer asks for it. -/
def sharedReleaseCalls : List LockCall :=
  [lockCall "reader1" 1 1 .rLock, lockCall "reader2" 1 1 .rLock,
    lockCall "reader1" 1 1 .unlock, lockCall "writer" 1 1 .wLock]

/-- The writer is let in while the second reader still holds the page. -/
theorem sharedRelease_not_exclusive :
    server.Respects ∅ (fun history _ => WellBehaved history) sharedReleaseCalls ∧
      ¬MutuallyExclusive (server.trace ∅ sharedReleaseCalls) := by
  refine ⟨by decide, ?_⟩
  intro exclusive
  exact exclusive (1, 1) (CString.ofString "writer") (CString.ofString "reader2")
    .rLock (by decide) (by decide) (by decide)

/-- A reader that unlocks before a writer asks is within the condition. -/
theorem pageLocks_mutuallyExclusive_handover :
    MutuallyExclusive (server.trace ∅
      [lockCall "reader1" 1 1 .rLock, lockCall "reader1" 1 1 .unlock,
        lockCall "writer" 1 1 .wLock]) :=
  pageLocks_mutuallyExclusive _ (by decide) (by decide)

/-! ## The condition cannot be relaxed -/

/-- Some host has not taken part in a history. -/
theorem exists_fresh_host (history : LockHistory) :
    ∃ host, ∀ event ∈ history, event.1.asker ≠ host := by
  rcases Infinite.exists_notMem_finset
    (history.map fun event => event.1.asker).toFinset with ⟨host, fresh⟩
  refine ⟨host, ?_⟩
  intro event member same
  apply fresh
  rw [List.mem_toFinset, List.mem_map]
  exact ⟨event, member, same⟩

/-- A host that has not taken part holds nothing. -/
theorem not_holds_of_fresh {about : PageLockRequest → Prop} {host : HostName}
    {mode : PageLockType} (fresh : ∀ event ∈ history, event.1.asker ≠ host) :
    ¬Holds about history host mode := by
  intro holds
  rcases holds with ⟨before, event, after, rfl, granted, _⟩
  exact fresh event (by simp) granted.1

/-- An unlock request that releases one of several entries leaves another grant
outstanding on the record. -/
theorem Ledger.other_grant {record : PageLockT} {grants : List Grant} {grant : Grant}
    (ledger : Ledger history record grants) (member : grant ∈ grants)
    (shared : record.lockHolder ≠ [grant.host]) :
    ∃ other ∈ grants, other.slot ≠ grant.slot := by
  have distinct := ledger.distinct
  have counted := ledger.holders
  rcases List.append_of_mem member with ⟨before, after, rfl⟩
  have others : before ++ after ≠ [] := by
    intro none
    rcases List.append_eq_nil_iff.mp none with ⟨rfl, rfl⟩
    exact shared counted
  rcases List.exists_mem_of_ne_nil _ others with ⟨other, otherMember⟩
  refine ⟨other, ?_, ?_⟩
  · rw [List.mem_append] at otherMember
    simp only [List.mem_append, List.mem_cons]
    tauto
  · intro same
    rw [List.map_append, List.map_cons, List.nodup_middle, List.nodup_cons,
      ← List.map_append] at distinct
    exact distinct.1 (List.mem_map.mpr ⟨other, otherMember, same⟩)

/-- An unlock request leaves the grants of other hosts and of other pages outstanding. -/
theorem holds_concat_of_other_slot {other : Grant}
    (unlocks : call.request.lockType = .unlock)
    (different : other.slot ≠ (call.asker, call.request.page))
    (holds : Holds (OnPage other.page) history other.host other.mode) :
    Holds (OnPage other.page) (history ++ [(call, reply)]) other.host other.mode := by
  by_cases samePage : call.request.page = other.page
  · refine (holds_concat_of_unlock samePage unlocks).mpr ⟨holds, ?_⟩
    intro sameHost
    apply different
    rw [Grant.slot, sameHost, samePage]
  · exact (holds_concat_of_not_about samePage).mpr holds

/-- After a run within the condition, a well-behaved unlock request that releases
one of several entries of its record lets the next writer in beside a holder. -/
theorem exclusion_broken_after_shared_release (calls : List LockCall) (call : LockCall)
    (wellBehaved : server.Respects ∅ (fun history _ => WellBehaved history)
      (calls ++ [call]))
    (sole : server.Respects ∅ (fun _ table => ReleasesSoleHolder table) calls)
    (shared : ¬ReleasesSoleHolder (server.exec ∅ calls) call) :
    ∃ next, WellBehaved (server.trace ∅ (calls ++ [call])) next ∧
      ¬MutuallyExclusive (server.trace ∅ (calls ++ [call] ++ [next])) := by
  rcases Machine.respects_concat.mp wellBehaved with ⟨earlier, last⟩
  simp only [ReleasesSoleHolder, Classical.not_imp] at shared
  rcases shared with ⟨unlocks, notSole⟩
  rw [WellBehaved, if_pos unlocks] at last
  rcases last with ⟨mode, holds⟩
  rcases record_of_holds holds with ⟨record, found, onFold⟩
  rw [LockCall.calFold_page] at found onFold
  change (server.exec ∅ calls).lookup call.key = some record at found
  rcases ledger_run earlier sole found with ⟨grants, ledger⟩
  have member := (ledger.outstanding _ (call.calFold_page.trans onFold) _ _).mp holds
  have several : record.lockHolder ≠ [call.asker] := by
    intro only
    apply notSole
    rw [found, Option.map_some, only]
  rcases ledger.other_grant member several with ⟨other, otherMember, different⟩
  have otherFold := ledger.onFold other otherMember
  have otherHolds := (ledger.outstanding _ otherFold _ _).mpr otherMember
  -- The unlock request leaves the other grant outstanding but unlocks the record.
  have stillHolds : Holds (OnPage other.page) (server.trace ∅ (calls ++ [call]))
      other.host other.mode := by
    rw [Machine.trace_concat]
    exact holds_concat_of_other_slot unlocks different otherHolds
  rcases exists_fresh_host (server.trace ∅ (calls ++ [call])) with ⟨writer, fresh⟩
  let next : LockCall := ⟨writer, other.page.1, other.page.2, 0, .wLock⟩
  have nextKey : next.key = call.key :=
    LockCall.key_eq_iff.mpr (otherFold.trans onFold.symm)
  have granted : (replyAfter (calls ++ [call]) next).replyType = .lockSuccess := by
    rw [replyType_eq, nextKey, Machine.exec_concat, lookup_step_self, found]
    apply recordStep_of_free
    · simp [recordStep, unlocks, updateUnlockPageLockT,
        (consistent_run calls).noWaiters _ _ found]
    · simp [next]
  have locks : next.request.lockType ≠ .unlock := by simp [next]
  have samePage : OnPage other.page next.request := rfl
  refine ⟨next, ?_, ?_⟩
  · rw [WellBehaved, if_neg locks]
    exact fun mode => not_holds_of_fresh fresh
  · intro exclusive
    rw [Machine.trace_concat] at exclusive
    refine exclusive other.page writer other.host other.mode ?_ ?_ ?_
    · intro same
      exact not_holds_of_fresh fresh (same ▸ stillHolds)
    · exact (holds_concat_of_granted samePage locks granted).mpr (.inl ⟨rfl, rfl⟩)
    · exact (holds_concat_of_granted samePage locks granted).mpr (.inr stillHolds)

end MultiMaster.LockTable
