import MultiMaster.LockTable.Holders

/-!
# Waiting hosts

A host that is refused a lock is meant to wait in line until an unlock leaves the record
without holders and hands it over.  `expectedQueue` is that line, computed from the
refusals of a run.  The server fills in the entry of a refused host and drops it, so the
wait lists agree with the expected queues as long as nothing is refused.
-/

namespace MultiMaster.LockTable

open Foundation

variable {table : PageLockHash} {calls : List LockCall} {call : LockCall} {fold : UInt64}
variable {queue : List WaitInfor} {host : HostName} {type : PageLockType}

/-! ## The expected queue -/

/-- What a call means for the queue of its record. -/
inductive QueueEvent where
  | refused (host : HostName) (type : PageLockType)
  | emptied
  | other
  deriving DecidableEq

/-- A refusal, an unlock that leaves no holder, or neither. -/
def queueEvent (record : Option PageLockT) (call : LockCall) : QueueEvent :=
  if (recordStep record call).2 = .lockFail then
    .refused call.asker call.request.lockType
  else
    match record with
    | none => .other
    | some record =>
        if call.request.lockType = .unlock ∧
            record.lockHolder.filter (· ≠ call.asker) = [] then .emptied
        else .other

/-- The stronger of two lock types. -/
def strongest (first second : PageLockType) : PageLockType :=
  if first.value < second.value then second else first

/-- A host joins at the end of the queue.  While it waits, a stronger request raises the
type of its entry. -/
def join (queue : List WaitInfor) (host : HostName) (type : PageLockType) :
    List WaitInfor :=
  if host ∈ queue.map WaitInfor.name then
    queue.map fun waiter =>
      if waiter.name = host then { waiter with type := strongest waiter.type type }
      else waiter
  else
    queue ++ [⟨host, type⟩]

/-- Only a record without holders takes an entry out of its queue, the first. -/
def queueAfter (queue : List WaitInfor) : QueueEvent → List WaitInfor
  | .refused host type => join queue host type
  | .emptied => queue.tail
  | .other => queue

/-- Follow the queue of the record of a fold. -/
def followQueue (fold : UInt64) (queue : List WaitInfor) (table : PageLockHash)
    (call : LockCall) : List WaitInfor :=
  if call.fold = fold then queueAfter queue (queueEvent (table.lookup call.key) call)
  else queue

/-- The hosts that should be waiting for the record of a fold after a run. -/
def expectedQueue (fold : UInt64) (calls : List LockCall) : List WaitInfor :=
  server.watch (followQueue fold) [] ∅ calls

/-- Wait lists are the expected queues in every state of a run, and an unlock that leaves
no holder makes the first waiter the only holder, with the type it waits for. -/
structure WaitersServed (calls : List LockCall) : Prop where
  queued : ∀ before, before <+: calls →
    ∀ key record, (server.exec ∅ before).lookup key = some record →
      record.waitList = expectedQueue record.mFold before
  served : ∀ before call, before ++ [call] <+: calls →
    queueEvent ((server.exec ∅ before).lookup call.key) call = .emptied →
    ∀ first rest, expectedQueue call.fold before = first :: rest →
      ∃ after, (server.exec ∅ (before ++ [call])).lookup call.key = some after ∧
        after.lockHolder = [first.name] ∧ after.lockType = first.type

/-! ## Queues hold a host once -/

theorem names_join :
    (join queue host type).map WaitInfor.name =
      if host ∈ queue.map WaitInfor.name then queue.map WaitInfor.name
      else queue.map WaitInfor.name ++ [host] := by
  rw [join]
  by_cases waits : host ∈ queue.map WaitInfor.name
  · rw [if_pos waits, if_pos waits, List.map_map]
    apply List.map_congr_left
    intro waiter _
    by_cases same : waiter.name = host
    · simp [same]
    · simp [same]
  · rw [if_neg waits, if_neg waits, List.map_append]
    rfl

theorem mem_join (queue : List WaitInfor) (host : HostName) (type : PageLockType) :
    host ∈ (join queue host type).map WaitInfor.name := by
  rw [names_join]
  by_cases waits : host ∈ queue.map WaitInfor.name
  · rwa [if_pos waits]
  · rw [if_neg waits]
    exact List.mem_append_right _ (List.mem_singleton.mpr rfl)

/-- No event puts a host into the queue twice. -/
theorem nodup_queueAfter (event : QueueEvent) (nodup : (queue.map WaitInfor.name).Nodup) :
    ((queueAfter queue event).map WaitInfor.name).Nodup := by
  cases event with
  | refused host type =>
      rw [queueAfter, names_join]
      by_cases waits : host ∈ queue.map WaitInfor.name
      · rwa [if_pos waits]
      · rw [if_neg waits]
        rw [← List.concat_eq_append]
        exact nodup.concat waits
  | emptied =>
      rw [queueAfter, List.map_tail]
      exact nodup.tail
  | other => exact nodup

/-- A host waits at most once for a record. -/
theorem nodup_expectedQueue (fold : UInt64) (calls : List LockCall) :
    ((expectedQueue fold calls).map WaitInfor.name).Nodup := by
  induction calls using List.reverseRecOn with
  | nil => exact List.nodup_nil
  | append_singleton calls call ih =>
      rw [expectedQueue] at ih ⊢
      rw [Machine.watch_concat, followQueue]
      by_cases same : call.fold = fold
      · rw [if_pos same]
        exact nodup_queueAfter _ ih
      · rwa [if_neg same]

/-! ## Refusals -/

/-- A lock request that meets a record locked in an incompatible way. -/
def Conflicts (table : PageLockHash) (call : LockCall) : Prop :=
  ∃ record ∈ table.lookup call.key,
    call.request.lockType ≠ .unlock ∧ record.lockType ≠ .unlock ∧
      lockCompatibilityMatrix call.request.lockType record.lockType = false

instance (table : PageLockHash) (call : LockCall) : Decidable (Conflicts table call) :=
  inferInstanceAs (Decidable (∃ record ∈ table.lookup call.key, _))

/-- No lock request of the run meets a record locked in an incompatible way. -/
def NeverConflicts (calls : List LockCall) : Prop :=
  server.Respects ∅ (fun _ table call => ¬Conflicts table call) calls

instance (calls : List LockCall) : Decidable (NeverConflicts calls) :=
  inferInstanceAs (Decidable (server.Respects ∅ _ calls))

theorem refused_iff_conflicts :
    (recordStep (table.lookup call.key) call).2 = .lockFail ↔ Conflicts table call := by
  rw [Conflicts]
  cases table.lookup call.key with
  | none => simp [recordStep]
  | some record =>
      by_cases unlocks : call.request.lockType = .unlock
      · simp [recordStep, unlocks]
      · by_cases free : record.lockType = .unlock
        · simp [recordStep, unlocks, free]
        · cases compatible : lockCompatibilityMatrix call.request.lockType record.lockType with
          | true => simp [recordStep, unlocks, free, compatible]
          | false => simp [recordStep, unlocks, free, compatible]

theorem queueEvent_of_conflict (conflicts : Conflicts table call) :
    queueEvent (table.lookup call.key) call =
      .refused call.asker call.request.lockType :=
  if_pos (refused_iff_conflicts.mpr conflicts)

/-- A call that is not refused puts nobody into an empty queue. -/
theorem queueAfter_of_not_conflict (compatible : ¬Conflicts table call) :
    queueAfter [] (queueEvent (table.lookup call.key) call) = [] := by
  unfold queueEvent
  rw [if_neg fun refused => compatible (refused_iff_conflicts.mp refused)]
  split
  · rfl
  · split
    · rfl
    · rfl

/-- Without refusals nobody is expected to wait. -/
theorem expectedQueue_eq_nil (never : NeverConflicts calls) (fold : UInt64) :
    expectedQueue fold calls = [] := by
  induction calls using List.reverseRecOn with
  | nil => rfl
  | append_singleton calls call ih =>
      rcases Machine.respects_concat.mp never with ⟨earlier, last⟩
      have empty := ih earlier
      rw [expectedQueue] at empty ⊢
      rw [Machine.watch_concat, followQueue, empty]
      split
      · exact queueAfter_of_not_conflict last
      · rfl

/-- A refused host is expected to wait. -/
theorem mem_expectedQueue (conflicts : Conflicts (server.exec ∅ calls) call) :
    call.asker ∈ (expectedQueue call.fold (calls ++ [call])).map WaitInfor.name := by
  rw [expectedQueue, Machine.watch_concat, followQueue, if_pos rfl,
    queueEvent_of_conflict conflicts]
  exact mem_join _ _ _

/-- A refused host is in the queue of its record, and no host is in a queue twice. -/
structure QueuedOnce (calls : List LockCall) : Prop where
  refused : ∀ before call, before ++ [call] <+: calls →
    Conflicts (server.exec ∅ before) call →
      call.asker ∈ (expectedQueue call.fold (before ++ [call])).map WaitInfor.name
  once : ∀ before, before <+: calls → ∀ fold,
    ((expectedQueue fold before).map WaitInfor.name).Nodup

/-- The expected queues hold every refused host once, and hosts wait in them and are served in
order, in every state of a run, if and only if no request of the run is refused. -/
theorem waiters_served_iff (calls : List LockCall) :
    QueuedOnce calls ∧ (WaitersServed calls ↔ NeverConflicts calls) := by
  refine ⟨⟨fun _ _ _ => mem_expectedQueue, fun before _ fold => nodup_expectedQueue fold before⟩,
    ?_⟩
  constructor
  · intro waitersServed before call after split conflicts
    have among : before ++ [call] <+: calls := ⟨after, by simp [split]⟩
    have consistent := consistent_run (before ++ [call])
    have recorded := consistent.recorded (call, replyAfter before call) (by
      rw [Machine.trace_concat]
      exact List.mem_append_right _ (List.mem_singleton.mpr rfl))
    rcases Option.isSome_iff_exists.mp recorded with ⟨record, found⟩
    have listed := waitersServed.queued _ among call.key record found
    rw [consistent.noWaiters _ _ found, ← consistent.fold_eq found] at listed
    have waits := mem_expectedQueue conflicts
    rw [← listed] at waits
    cases waits
  · intro never
    have empty : ∀ before, before <+: calls → ∀ fold, expectedQueue fold before = [] := by
      intro before among
      rcases among with ⟨after, rfl⟩
      apply expectedQueue_eq_nil
      intro earlier call later split
      exact never earlier call (later ++ after) (by simp [split])
    constructor
    · intro before among key record found
      rw [empty before among, (consistent_run before).noWaiters _ _ found]
    · intro before call among _ first rest waiting
      rw [empty before ((List.prefix_append _ _).trans among)] at waiting
      cases waiting

/-- A refused writer does not wait: after the reader has unlocked, nobody holds the
record. -/
theorem refused_writer_forgotten :
    ¬WaitersServed [lockCall "reader" 1 1 .rLock, lockCall "writer" 1 1 .wLock,
      lockCall "reader" 1 1 .unlock] := by
  intro waitersServed
  have found : (server.exec ∅ [lockCall "reader" 1 1 .rLock,
      lockCall "writer" 1 1 .wLock]).lookup 1048578 =
        some ⟨1048578, 1, 1, 0, .rLock, [CString.ofString "reader"], []⟩ := by decide
  have listed := waitersServed.queued [lockCall "reader" 1 1 .rLock,
    lockCall "writer" 1 1 .wLock] ⟨_, rfl⟩ _ _ found
  exact absurd listed (by decide)

end MultiMaster.LockTable
