import MultiMaster.LockTable.Core

/-!
# Grants, releases and the records they leave

Holding a lock is a property of the history of the server: a lock request was
answered with success and its host has not unlocked since.  The module relates
that notion to the records of the table.

No host ever waits: a refused request leaves its record as it was.  The
invariant rule below therefore hands every record to its user with an empty
wait list, together with what one call can do to it.
-/

namespace MultiMaster.LockTable

open Foundation

variable {about : PageLockRequest → Prop} {history : LockHistory}
variable {host : HostName} {mode : PageLockType}
variable {call : LockCall} {reply : PageLockReply}

/-! ## Holding a lock -/

/-- Requests on one page. -/
def OnPage (page : UInt32 × UInt32) (request : PageLockRequest) : Prop :=
  request.page = page

/-- Requests on one record, that is with one fold. -/
def OnRecord (fold : UInt64) (request : PageLockRequest) : Prop :=
  calFold request.spaceId request.pageNo = fold

instance (page : UInt32 × UInt32) : DecidablePred (OnPage page) :=
  fun request => inferInstanceAs (Decidable (request.page = page))

instance (fold : UInt64) : DecidablePred (OnRecord fold) :=
  fun request => inferInstanceAs
    (Decidable (calFold request.spaceId request.pageNo = fold))

/-- A lock request of one mode by `host`, answered with success. -/
def Grants (about : PageLockRequest → Prop) (host : HostName)
    (mode : PageLockType) (event : LockCall × PageLockReply) : Prop :=
  event.1.asker = host ∧ about event.1.request ∧
    event.1.request.lockType = mode ∧ mode ≠ .unlock ∧
    event.2.replyType = .lockSuccess

/-- An unlock request by `host`, whatever its answer. -/
def Releases (about : PageLockRequest → Prop) (host : HostName)
    (event : LockCall × PageLockReply) : Prop :=
  event.1.asker = host ∧ about event.1.request ∧
    event.1.request.lockType = .unlock

instance [DecidablePred about] : DecidablePred (Grants about host mode) :=
  fun _ => instDecidableAnd

instance [DecidablePred about] : DecidablePred (Releases about host) :=
  fun _ => instDecidableAnd

/-- `host` was granted a lock of type `mode` and has not unlocked since. -/
def Holds (about : PageLockRequest → Prop) (history : LockHistory)
    (host : HostName) (mode : PageLockType) : Prop :=
  Since (Grants about host mode) (Releases about host) history

instance [DecidablePred about] (history : LockHistory) :
    Decidable (Holds about history host mode) :=
  Since.decidable history

@[simp] theorem not_holds_nil : ¬Holds about [] host mode := not_since_nil

theorem holds_concat {event : LockCall × PageLockReply} :
    Holds about (history ++ [event]) host mode ↔
      Grants about host mode event ∨
        (Holds about history host mode ∧ ¬Releases about host event) :=
  since_concat

/-- A request about something else changes no holding. -/
theorem holds_concat_of_not_about (other : ¬about call.request) :
    Holds about (history ++ [(call, reply)]) host mode ↔
      Holds about history host mode := by
  rw [holds_concat]
  simp [Grants, Releases, other]

/-- A lock request that was refused changes no holding. -/
theorem holds_concat_of_refused
    (locks : call.request.lockType ≠ .unlock)
    (refused : reply.replyType ≠ .lockSuccess) :
    Holds about (history ++ [(call, reply)]) host mode ↔
      Holds about history host mode := by
  rw [holds_concat]
  simp [Grants, Releases, locks, refused]

/-- After a successful lock request its host holds the mode it asked for. -/
theorem holds_concat_of_granted (relevant : about call.request)
    (locks : call.request.lockType ≠ .unlock)
    (granted : reply.replyType = .lockSuccess) :
    Holds about (history ++ [(call, reply)]) host mode ↔
      (call.asker = host ∧ call.request.lockType = mode) ∨
        Holds about history host mode := by
  rw [holds_concat]
  simp only [Grants, Releases, relevant, locks, granted, true_and, and_true,
    and_false, not_false_eq_true]
  constructor
  · intro cases
    rcases cases with ⟨sameHost, sameMode, _⟩ | held
    · exact .inl ⟨sameHost, sameMode⟩
    · exact .inr held
  · intro cases
    rcases cases with ⟨sameHost, sameMode⟩ | held
    · exact .inl ⟨sameHost, sameMode, sameMode ▸ locks⟩
    · exact .inr held

/-- An unlock ends the holdings of its own host and no others. -/
theorem holds_concat_of_unlock (relevant : about call.request)
    (unlocks : call.request.lockType = .unlock) :
    Holds about (history ++ [(call, reply)]) host mode ↔
      Holds about history host mode ∧ call.asker ≠ host := by
  rw [holds_concat]
  simp only [Grants, Releases, relevant, unlocks, true_and, and_true]
  constructor
  · intro cases
    rcases cases with ⟨_, sameMode, locks, _⟩ | held
    · exact False.elim (locks sameMode.symm)
    · exact held
  · intro held
    exact .inr held

/-- Nothing is held on a fold that no request was about. -/
theorem not_holds_of_no_event
    (fresh : ∀ event ∈ history, ¬about event.1.request) :
    ¬Holds about history host mode := by
  intro held
  rcases held with ⟨before, event, after, rfl, granted, _⟩
  exact fresh event (by simp) granted.2.1

/-! ## What a call does to its record -/

/-- Without waiters a call releases, is granted, or is refused; a refusal leaves
the record unchanged. -/
theorem recordStep_cases {record : PageLockT} (noWaiters : record.waitList = [])
    (call : LockCall) :
    (call.request.lockType = .unlock ∧
      recordStep (some record) call =
        ({ record with
            lockType := .unlock
            lockHolder := record.lockHolder.filter (· ≠ call.asker) },
          .unlockSuccess)) ∨
    (call.request.lockType ≠ .unlock ∧
      (record.lockType = .unlock ∨
        (call.request.lockType = .rLock ∧ record.lockType = .rLock)) ∧
      recordStep (some record) call =
        (updateSuccessPageLockT call.asker call.request record, .lockSuccess)) ∨
    (call.request.lockType ≠ .unlock ∧ record.lockType ≠ .unlock ∧
      ¬(call.request.lockType = .rLock ∧ record.lockType = .rLock) ∧
      recordStep (some record) call = (record, .lockFail)) := by
  have compatible_iff :
      lockCompatibilityMatrix call.request.lockType record.lockType = true ↔
        call.request.lockType = .rLock ∧ record.lockType = .rLock := by
    cases call.request.lockType <;> cases record.lockType <;>
      simp [lockCompatibilityMatrix]
  by_cases unlocks : call.request.lockType = .unlock
  · left
    refine ⟨unlocks, ?_⟩
    simp [recordStep, unlocks, updateUnlockPageLockT, noWaiters]
  · right
    by_cases granted : record.lockType = .unlock ∨
        (call.request.lockType = .rLock ∧ record.lockType = .rLock)
    · left
      refine ⟨unlocks, granted, ?_⟩
      simp [recordStep, unlocks, compatible_iff, granted]
    · right
      refine ⟨unlocks, fun free => granted (.inl free),
        fun shared => granted (.inr shared), ?_⟩
      have unchanged : updateFailPageLockT call.asker call.request record = record := by
        simp only [updateFailPageLockT, noWaiters, List.map_nil]
        rw [← noWaiters]
      simp [recordStep, unlocks, compatible_iff, granted, unchanged]

/-- A record marked as unlocked grants every lock request. -/
theorem recordStep_of_free {record : PageLockT} (free : record.lockType = .unlock)
    (locks : call.request.lockType ≠ .unlock) :
    (recordStep (some record) call).2 = .lockSuccess := by
  simp [recordStep, locks, free]

/-- A call never changes the fold of a record, nor the absence of waiters. -/
theorem recordStep_frame {record : PageLockT} (noWaiters : record.waitList = [])
    (call : LockCall) :
    (recordStep (some record) call).1.mFold = record.mFold ∧
      (recordStep (some record) call).1.waitList = [] := by
  rcases recordStep_cases noWaiters call with
    ⟨_, step⟩ | ⟨_, _, step⟩ | ⟨_, _, _, step⟩
  · rw [step]
    exact ⟨rfl, noWaiters⟩
  · rw [step]
    exact ⟨rfl, noWaiters⟩
  · rw [step]
    exact ⟨rfl, noWaiters⟩

/-! ## Invariants of records -/

/-- What every run establishes about the table: each call left a record under its
key, and each record is stored under its own fold and has no waiters. -/
structure Consistent (history : LockHistory) (table : PageLockHash) : Prop where
  recorded : ∀ event ∈ history, (table.lookup event.1.key).isSome
  ownKey : ∀ key record, table.lookup key = some record →
    ∃ event ∈ history, event.1.key = key ∧ event.1.fold = record.mFold
  noWaiters : ∀ key record, table.lookup key = some record → record.waitList = []

namespace Consistent

variable {table : PageLockHash}

theorem initial : Consistent [] (∅ : PageLockHash) where
  recorded := by simp
  ownKey := by simp
  noWaiters := by simp

/-- The fold of a record is the fold of every call that reaches it. -/
theorem fold_eq (consistent : Consistent history table) {call : LockCall}
    {record : PageLockT} (found : table.lookup call.key = some record) :
    call.fold = record.mFold := by
  rcases consistent.ownKey call.key record found with ⟨event, _, sameKey, sameFold⟩
  rw [← sameFold]
  exact LockCall.key_eq_iff.mp sameKey.symm

/-- A fold without a record has not been requested. -/
theorem fold_fresh (consistent : Consistent history table) {call : LockCall}
    (missing : table.lookup call.key = none) :
    ∀ event ∈ history, event.1.fold ≠ call.fold := by
  intro event member sameFold
  have found := consistent.recorded event member
  rw [LockCall.key_eq_iff.mpr sameFold, missing] at found
  cases found

theorem step (consistent : Consistent history table) (call : LockCall) :
    Consistent (history ++ [(call, (server.step table call).2)])
      (server.step table call).1 := by
  have outcome : (recordStep (table.lookup call.key) call).1.mFold = call.fold ∧
      (recordStep (table.lookup call.key) call).1.waitList = [] := by
    cases found : table.lookup call.key with
    | none => exact ⟨rfl, rfl⟩
    | some record =>
        have frame := recordStep_frame
          (consistent.noWaiters call.key record found) call
        rw [← consistent.fold_eq found] at frame
        exact frame
  constructor
  · intro event member
    by_cases same : event.1.key = call.key
    · rw [same, lookup_step_self]
      rfl
    · rw [lookup_step_of_ne same]
      rcases List.mem_append.mp member with earlier | last
      · exact consistent.recorded event earlier
      · rw [List.mem_singleton.mp last] at same
        exact absurd rfl same
  · intro key record found
    rcases lookup_step_cases found with ⟨rfl, rfl⟩ | ⟨_, before⟩
    · exact ⟨_, List.mem_append_right _ (List.mem_singleton.mpr rfl), rfl,
        outcome.1.symm⟩
    · rcases consistent.ownKey key record before with ⟨event, member, facts⟩
      exact ⟨event, List.mem_append_left _ member, facts⟩
  · intro key record found
    rcases lookup_step_cases found with ⟨_, rfl⟩ | ⟨_, before⟩
    · exact outcome.2
    · exact consistent.noWaiters key record before

end Consistent

/-- Every run of the server leaves a consistent table. -/
theorem consistent_run (calls : List LockCall) :
    Consistent (server.trace ∅ calls) (server.exec ∅ calls) :=
  Machine.trace_invariant Consistent.initial
    (fun _ _ call consistent => consistent.step call) calls

/-- A consistent table whose records all have a property of the history. -/
structure RecordsSatisfy (property : LockHistory → PageLockT → Prop)
    (history : LockHistory) (table : PageLockHash) : Prop where
  consistent : Consistent history table
  every : ∀ key record, table.lookup key = some record → property history record

/-- Invariant rule for records.  A property relating the history to one record
holds of every record after every guarded run when it holds of a record just
created, is kept by calls on the record, and is kept by calls on other folds. -/
theorem record_invariant {guard : LockHistory → PageLockHash → LockCall → Prop}
    {property : LockHistory → PageLockT → Prop}
    (created : ∀ history table call, guard history table call →
      table.lookup call.key = none →
      (∀ event ∈ history, event.1.fold ≠ call.fold) →
      property (history ++ [(call, (server.step table call).2)])
        (newPageLockT call.asker call.request))
    (kept : ∀ history table call record, guard history table call →
      table.lookup call.key = some record → record.waitList = [] →
      call.fold = record.mFold → property history record →
      property (history ++ [(call, (server.step table call).2)])
        (recordStep (some record) call).1)
    (framed : ∀ history call reply record, call.fold ≠ record.mFold →
      property history record → property (history ++ [(call, reply)]) record)
    {calls : List LockCall} (respects : server.Respects ∅ guard calls)
    {key : UInt32} {record : PageLockT}
    (found : (server.exec ∅ calls).lookup key = some record) :
    property (server.trace ∅ calls) record := by
  have initial : RecordsSatisfy property [] (∅ : PageLockHash) :=
    ⟨Consistent.initial, by simp⟩
  have reached : RecordsSatisfy property (server.trace ∅ calls)
      (server.exec ∅ calls) := by
    refine Machine.guarded_invariant initial ?_ respects
    intro history table call satisfied guarded
    have consistent := satisfied.consistent
    refine ⟨consistent.step call, ?_⟩
    intro key record found
    rcases lookup_step_cases found with ⟨rfl, rfl⟩ | ⟨other, before⟩
    · cases earlier : table.lookup call.key with
      | none =>
          exact created history table call guarded earlier
            (consistent.fold_fresh earlier)
      | some old =>
          exact kept history table call old guarded earlier
            (consistent.noWaiters call.key old earlier)
            (consistent.fold_eq earlier) (satisfied.every call.key old earlier)
    · apply framed history call _ record ?_ (satisfied.every key record before)
      intro sameFold
      rcases consistent.ownKey key record before with ⟨event, _, ownKey, ownFold⟩
      apply other
      rw [← ownKey]
      exact LockCall.key_eq_iff.mpr (ownFold.trans sameFold.symm)
  exact reached.every key record found

end MultiMaster.LockTable
