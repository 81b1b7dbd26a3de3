import MultiMaster.LockTable.History

/-!
# What the records know of the grants

A record stores one lock type and a list of holder names.  The lock type of a
locked record is a mode that some host holds, so every refusal is justified.
The holder list names exactly the hosts that hold the record, as long as no
record is created by an unlock request.
-/

namespace MultiMaster.LockTable

open Foundation

variable {history : LockHistory} {host : HostName} {mode : PageLockType}
variable {call : LockCall}

/-- The reply the server gives to a call in a state it has reached. -/
def replyAfter (calls : List LockCall) (call : LockCall) : PageLockReply :=
  (server.step (server.exec ∅ calls) call).2

theorem replyType_eq (calls : List LockCall) (call : LockCall) :
    (replyAfter calls call).replyType =
      (recordStep ((server.exec ∅ calls).lookup call.key) call).2 := by
  rw [replyAfter, server_step]

theorem replyType_of_found {table : PageLockHash} {record : PageLockT}
    (found : table.lookup call.key = some record) :
    (server.step table call).2.replyType = (recordStep (some record) call).2 := by
  rw [server_step, found]

theorem replyType_of_missing {table : PageLockHash}
    (missing : table.lookup call.key = none) :
    (server.step table call).2.replyType = .lockSuccess := by
  rw [server_step, missing]
  rfl

/-! ## Refusals -/

/-- The lock type of a locked record is held by some host. -/
def TypeHeld (history : LockHistory) (record : PageLockT) : Prop :=
  record.lockType ≠ .unlock →
    ∃ host, Holds (OnRecord record.mFold) history host record.lockType

/-- A call on the record keeps `TypeHeld`: a release unlocks the record, a grant
makes its own host a holder, and a refusal changes neither side. -/
theorem typeHeld_step {table : PageLockHash} {record : PageLockT}
    (found : table.lookup call.key = some record)
    (noWaiters : record.waitList = []) (sameFold : call.fold = record.mFold)
    (held : TypeHeld history record) :
    TypeHeld (history ++ [(call, (server.step table call).2)])
      (recordStep (some record) call).1 := by
  have replied := replyType_of_found found
  rcases recordStep_cases noWaiters call with
    ⟨_, step⟩ | ⟨locks, _, step⟩ | ⟨locks, _, _, step⟩
  · rw [step]
    intro locked
    exact absurd rfl locked
  · rw [step] at replied ⊢
    intro _
    refine ⟨call.asker, (holds_concat_of_granted ?_ locks replied).mpr ?_⟩
    · exact sameFold
    · exact .inl ⟨rfl, rfl⟩
  · rw [step] at replied ⊢
    intro locked
    rcases held locked with ⟨host, holds⟩
    exact ⟨host, (holds_concat_of_refused locks (by simp [replied])).mpr holds⟩

theorem typeHeld_run (calls : List LockCall) {key : UInt32} {record : PageLockT}
    (found : (server.exec ∅ calls).lookup key = some record) :
    TypeHeld (server.trace ∅ calls) record := by
  have respects : server.Respects ∅ (fun _ _ _ => True) calls :=
    fun _ _ _ _ => trivial
  refine record_invariant ?_ ?_ ?_ respects found
  · intro history table call _ missing _ locked
    have granted := replyType_of_missing missing
    have relevant : OnRecord call.fold call.request := rfl
    exact ⟨call.asker, (holds_concat_of_granted relevant locked granted).mpr
      (.inl ⟨rfl, rfl⟩)⟩
  · intro history table call record _ found noWaiters sameFold held
    exact typeHeld_step found noWaiters sameFold held
  · intro history call reply record otherFold held locked
    rcases held locked with ⟨host, holds⟩
    exact ⟨host, (holds_concat_of_not_about otherFold).mpr holds⟩

/-- Every refusal is justified by a host that still holds the record in a mode
the request conflicts with.  Hence a record nobody holds refuses nothing: lock
requests on it succeed and so does an unlock. -/
theorem refusal_has_conflicting_holder (calls : List LockCall) (call : LockCall) :
    ((replyAfter calls call).replyType = .lockFail →
      ∃ host mode, Holds (OnRecord call.fold) (server.trace ∅ calls) host mode ∧
        ¬(call.request.lockType = .rLock ∧ mode = .rLock)) ∧
    ((∀ host mode, ¬Holds (OnRecord call.fold) (server.trace ∅ calls) host mode) →
      (call.request.lockType ≠ .unlock →
        (replyAfter calls call).replyType = .lockSuccess) ∧
      ((replyAfter calls call).replyType = .lockSuccess ∨
        (replyAfter calls call).replyType = .unlockSuccess)) := by
  rw [replyType_eq]
  cases found : (server.exec ∅ calls).lookup call.key with
  | none => simp [recordStep]
  | some record =>
      have consistent := consistent_run calls
      have held := typeHeld_run calls found
      rw [TypeHeld, ← consistent.fold_eq found] at held
      rcases recordStep_cases (consistent.noWaiters _ _ found) call with
        ⟨unlocks, step⟩ | ⟨_, _, step⟩ | ⟨_, locked, conflict, step⟩
      · simp [step, unlocks]
      · simp [step]
      · rcases held locked with ⟨host, holds⟩
        refine ⟨fun _ => ⟨host, record.lockType, holds, conflict⟩, ?_⟩
        intro nobody
        exact absurd holds (nobody host record.lockType)

/-- A writer refused by a reader: the reader is the conflicting holder. -/
theorem refusal_has_conflicting_holder_reader :
    (replyAfter [lockCall "reader" 1 1 .rLock]
        (lockCall "writer" 1 1 .wLock)).replyType = .lockFail ∧
      ∃ host mode, Holds (OnRecord (lockCall "writer" 1 1 .wLock).fold)
          (server.trace ∅ [lockCall "reader" 1 1 .rLock]) host mode ∧
        ¬((lockCall "writer" 1 1 .wLock).request.lockType = .rLock ∧ mode = .rLock) :=
  ⟨by decide, (refusal_has_conflicting_holder _ _).1 (by decide)⟩

/-! ## Holder lists -/

/-- The holder list names exactly the hosts that hold the record. -/
def HoldersExact (history : LockHistory) (record : PageLockT) : Prop :=
  ∀ host, host ∈ record.lockHolder ↔
    ∃ mode, Holds (OnRecord record.mFold) history host mode

/-- All holder lists of a table are exact. -/
def HolderListsExact (history : LockHistory) (table : PageLockHash) : Prop :=
  ∀ key record, table.lookup key = some record → HoldersExact history record

theorem holdersExact_step {table : PageLockHash} {record : PageLockT}
    (found : table.lookup call.key = some record)
    (noWaiters : record.waitList = []) (sameFold : call.fold = record.mFold)
    (holdersExact : HoldersExact history record) :
    HoldersExact (history ++ [(call, (server.step table call).2)])
      (recordStep (some record) call).1 := by
  have replied := replyType_of_found found
  rcases recordStep_cases noWaiters call with
    ⟨unlocks, step⟩ | ⟨locks, _, step⟩ | ⟨locks, _, _, step⟩
  · rw [step]
    intro host
    have relevant : OnRecord record.mFold call.request := sameFold
    simp only [holds_concat_of_unlock relevant unlocks, List.mem_filter,
      decide_eq_true_eq, holdersExact host]
    constructor
    · intro kept
      rcases kept with ⟨⟨mode, holds⟩, different⟩
      exact ⟨mode, holds, Ne.symm different⟩
    · intro kept
      rcases kept with ⟨mode, holds, different⟩
      exact ⟨⟨mode, holds⟩, Ne.symm different⟩
  · rw [step] at replied ⊢
    intro host
    have relevant : OnRecord record.mFold call.request := sameFold
    simp only [updateSuccessPageLockT, List.mem_append, List.mem_singleton,
      holds_concat_of_granted relevant locks replied, holdersExact host]
    constructor
    · intro member
      rcases member with ⟨mode, holds⟩ | rfl
      · exact ⟨mode, .inr holds⟩
      · exact ⟨call.request.lockType, .inl ⟨rfl, rfl⟩⟩
    · intro holds
      rcases holds with ⟨mode, ⟨sameHost, _⟩ | holds⟩
      · exact .inr sameHost.symm
      · exact .inl ⟨mode, holds⟩
  · rw [step] at replied ⊢
    have refused : (server.step table call).2.replyType ≠ .lockSuccess := by
      simp [replied]
    intro host
    simp only [holds_concat_of_refused locks refused, holdersExact host]

/-- Creating a record by a lock request makes its host the only holder. -/
theorem holdersExact_created {table : PageLockHash}
    (missing : table.lookup call.key = none)
    (fresh : ∀ event ∈ history, event.1.fold ≠ call.fold)
    (locks : call.request.lockType ≠ .unlock) :
    HoldersExact (history ++ [(call, (server.step table call).2)])
      (newPageLockT call.asker call.request) := by
  intro host
  have granted := replyType_of_missing missing
  have relevant : OnRecord call.fold call.request := rfl
  have nobody : ∀ mode, ¬Holds (OnRecord call.fold) history host mode :=
    fun mode => not_holds_of_no_event fresh
  change host ∈ [call.asker] ↔ ∃ mode, Holds (OnRecord call.fold) _ host mode
  simp only [holds_concat_of_granted relevant locks granted, nobody, or_false,
    List.mem_singleton]
  constructor
  · intro same
    exact ⟨call.request.lockType, same.symm, rfl⟩
  · intro holds
    rcases holds with ⟨_, same, _⟩
    exact same.symm

/-- Every unlock request of a run is preceded by a request on its record. -/
def UnlocksKnownRecords (calls : List LockCall) : Prop :=
  ∀ before call, before ++ [call] <+: calls → call.request.lockType = .unlock →
    ∃ earlier ∈ before, earlier.fold = call.fold

theorem UnlocksKnownRecords.respects {calls : List LockCall}
    (known : UnlocksKnownRecords calls) :
    server.Respects ∅ (fun history _ call => call.request.lockType = .unlock →
      ∃ event ∈ history, event.1.fold = call.fold) calls := by
  intro before call after split unlocks
  have isPrefix : before ++ [call] <+: calls := ⟨after, by simp [split]⟩
  rcases known before call isPrefix unlocks with ⟨earlier, member, sameFold⟩
  rw [← server.map_fst_trace ∅ before] at member
  rcases List.mem_map.mp member with ⟨event, eventMember, rfl⟩
  exact ⟨event, eventMember, sameFold⟩

theorem holderListsExact_run {calls : List LockCall}
    (known : UnlocksKnownRecords calls) :
    HolderListsExact (server.trace ∅ calls) (server.exec ∅ calls) := by
  intro key record found
  refine record_invariant ?_ ?_ ?_ known.respects found
  · intro history table call guarded missing fresh
    apply holdersExact_created missing fresh
    intro unlocks
    rcases guarded unlocks with ⟨event, member, sameFold⟩
    exact fresh event member sameFold
  · intro history table call record _ found noWaiters sameFold holdersExact
    exact holdersExact_step found noWaiters sameFold holdersExact
  · intro history call reply record otherFold holdersExact host
    have other : ¬OnRecord record.mFold call.request := otherFold
    simp only [holds_concat_of_not_about other, holdersExact host]

/-- An unlock request that creates its record leaves a false holder behind. -/
theorem not_holderListsExact_of_unlock {calls : List LockCall}
    (missing : (server.exec ∅ calls).lookup call.key = none)
    (unlocks : call.request.lockType = .unlock) :
    ¬HolderListsExact (server.trace ∅ (calls ++ [call]))
      (server.exec ∅ (calls ++ [call])) := by
  intro everyExact
  have found : (server.exec ∅ (calls ++ [call])).lookup call.key =
      some (newPageLockT call.asker call.request) := by
    rw [Machine.exec_concat]
    exact lookup_step_created missing
  have listed : call.asker ∈ (newPageLockT call.asker call.request).lockHolder := by
    simp [newPageLockT]
  rcases (everyExact call.key _ found call.asker).mp listed with ⟨mode, holds⟩
  rw [Machine.trace_concat] at holds
  have relevant : OnRecord (newPageLockT call.asker call.request).mFold
      call.request := rfl
  exact ((holds_concat_of_unlock relevant unlocks).mp holds).2 rfl

/-- The holder lists are exact in every state of a run if and only if no record
of the run is created by an unlock request. -/
theorem holderLists_exact_iff (calls : List LockCall) :
    (∀ before, before <+: calls →
      HolderListsExact (server.trace ∅ before) (server.exec ∅ before)) ↔
    UnlocksKnownRecords calls := by
  constructor
  · intro everyExact before call isPrefix unlocks
    by_contra unknown
    have missing : (server.exec ∅ before).lookup call.key = none := by
      cases found : (server.exec ∅ before).lookup call.key with
      | none => rfl
      | some record =>
          rcases (consistent_run before).ownKey _ _ found with
            ⟨event, member, sameKey, _⟩
          have inCalls := List.mem_map_of_mem (f := Prod.fst) member
          rw [server.map_fst_trace] at inCalls
          exact absurd ⟨event.1, inCalls, LockCall.key_eq_iff.mp sameKey⟩ unknown
    exact not_holderListsExact_of_unlock missing unlocks (everyExact _ isPrefix)
  · intro known before isPrefix
    apply holderListsExact_run
    intro earlier call shorter unlocks
    exact known earlier call (shorter.trans isPrefix) unlocks

/-- An unlock request for a page that nobody has locked lists its host as a
holder. -/
theorem unlock_first_not_exact :
    ¬HolderListsExact (server.trace ∅ [lockCall "host1" 1 1 .unlock])
      (server.exec ∅ [lockCall "host1" 1 1 .unlock]) := by
  intro everyExact
  have found : (server.exec ∅ [lockCall "host1" 1 1 .unlock]).lookup 1048578 =
      some ⟨1048578, 1, 1, 0, .unlock, [CString.ofString "host1"], []⟩ := by
    decide
  have exactHere := everyExact _ _ found (CString.ofString "host1")
  exact absurd (exactHere.mp (by decide)) (by decide)

end MultiMaster.LockTable
