import MultiMaster.LockProtocol.Messages

/-!
# Requests with any bytes

`lock_request_callback` takes the payload of a message for a `PageLockRequest` as it is, so
that `lock_type` may hold any 32 bits.  The definitions follow
`remote_page_lock_manager.cc` once more, for records and requests whose lock type is such a
word.  Looking outside of `lock_compatibility_matrix` has no result.

On requests whose lock type is an enumerator the server is the one of the lock table.
-/

namespace MultiMaster.LockProtocol

open Foundation LockTable

/-! ## The server on raw lock types -/

/-- A record whose lock types are words. -/
structure RawPageLock where
  mFold : UInt64
  spaceId : UInt32
  pageNo : UInt32
  versionNo : UInt64
  lockType : UInt32
  lockHolder : List HostName
  waitList : List (HostName × UInt32)
  deriving DecidableEq

/-- A request whose lock type is a word. -/
structure RawRequest where
  spaceId : UInt32
  pageNo : UInt32
  versionNo : UInt64
  lockType : UInt32
  deriving DecidableEq

abbrev RawLockHash := AList fun _ : UInt32 => RawPageLock

/-- `R_LOCK`, `W_LOCK` and `UNLOCK` as words. -/
def rawType (type : PageLockType) : UInt32 := UInt32.ofNat type.value

/-- The entry of `lock_compatibility_matrix`, if there is one. -/
def rawCompatible (requested held : UInt32) : Option Bool := do
  let row ← [[true, false], [false, false]][requested.toNat]?
  row[held.toNat]?

def rawNewPageLock (asker : HostName) (request : RawRequest) : RawPageLock where
  mFold := calFold request.spaceId request.pageNo
  spaceId := request.spaceId
  pageNo := request.pageNo
  versionNo := 0
  lockType := request.lockType
  lockHolder := [asker]
  waitList := []

def rawUpdateUnlock (asker : HostName) (pageLock : RawPageLock) : RawPageLock :=
  let released := { pageLock with
    lockType := rawType .unlock
    lockHolder := pageLock.lockHolder.filter (· ≠ asker) }
  if released.lockHolder.isEmpty then
    match released.waitList with
    | [] => released
    | iter :: rest => { released with
        lockHolder := released.lockHolder ++ [iter.1]
        lockType := iter.2
        waitList := rest }
  else
    released

def rawUpdateSuccess (asker : HostName) (request : RawRequest) (pageLock : RawPageLock) :
    RawPageLock :=
  { pageLock with
    versionNo :=
      if request.lockType = rawType .wLock then pageLock.versionNo + 1
      else pageLock.versionNo
    lockType := request.lockType
    lockHolder := pageLock.lockHolder ++ [asker] }

def rawUpdateFail (asker : HostName) (request : RawRequest) (pageLock : RawPageLock) :
    RawPageLock :=
  { pageLock with
    waitList := pageLock.waitList.map fun iter =>
      if iter.1 = asker ∧ iter.2 < request.lockType then (iter.1, request.lockType) else iter }

/-- One request: the table afterwards, the reply, and the return value. -/
def rawCheckLockRequest (table : RawLockHash) (asker : HostName) (request : RawRequest) :
    Option (RawLockHash × PageLockReply × Int) :=
  let reply (replyType : PageReplyType) : PageLockReply :=
    ⟨request.spaceId, request.pageNo, replyType⟩
  let key := hashKey (calFold request.spaceId request.pageNo)
  match table.lookup key with
  | none =>
      let record := rawNewPageLock asker request
      some (table.insert (hashKey record.mFold) record, reply .lockSuccess, 0)
  | some pageLock =>
      if request.lockType = rawType .unlock then
        some (table.insert key (rawUpdateUnlock asker pageLock), reply .unlockSuccess, 2)
      else if pageLock.lockType = rawType .unlock then
        some (table.insert key (rawUpdateSuccess asker request pageLock),
          reply .lockSuccess, 1)
      else do
        let compatible ← rawCompatible request.lockType pageLock.lockType
        if compatible then
          return (table.insert key (rawUpdateSuccess asker request pageLock),
            reply .lockSuccess, 1)
        else
          return (table.insert key (rawUpdateFail asker request pageLock),
            reply .lockFail, -1)

/-- The request in the memory of a payload. -/
def rawRequestOf (memory : Bytes) : RawRequest :=
  ⟨wordAt memory 0, wordAt memory 4, UInt64.ofNat (leValue (slice memory 8 8)),
    wordAt memory 16⟩

/-- A payload of full size together with the host that sent it. -/
structure RawCall where
  asker : HostName
  payload : Bytes
  full : payload.length = requestSize

/-- The server on payloads.  After a look outside of the matrix nothing happens. -/
def rawServer : Machine (Option RawLockHash) RawCall (Option PageLockReply) where
  step table call :=
    let answer := table.bind fun table =>
      rawCheckLockRequest table call.asker (rawRequestOf call.payload)
    (answer.map fun answer => answer.1, answer.map fun answer => answer.2.1)

/-- All requests were answered without a look outside of the matrix, and every lock type in
the table is an enumerator. -/
def Survives (calls : List RawCall) : Prop :=
  ∃ table, rawServer.exec (some ∅) calls = some table ∧
    ∀ key record, table.lookup key = some record → ∃ type, record.lockType = rawType type

/-- The lock type of a payload is one of the three enumerators. -/
def RawCall.Typed (call : RawCall) : Prop := (wordAt call.payload 16).toNat ≤ 2

instance (call : RawCall) : Decidable call.Typed := inferInstanceAs (Decidable (_ ≤ _))

/-- The call of the lock table that a payload with an enumerator stands for. -/
def RawCall.lockCall (call : RawCall) : LockCall :=
  ⟨call.asker, (requestOf call.payload).getD ⟨0, 0, 0, .unlock⟩⟩

/-! ## Typed records -/

def rawRecord (record : PageLockT) : RawPageLock where
  mFold := record.mFold
  spaceId := record.spaceId
  pageNo := record.pageNo
  versionNo := record.versionNo
  lockType := rawType record.lockType
  lockHolder := record.lockHolder
  waitList := record.waitList.map fun iter => (iter.name, rawType iter.type)

def rawRequest (request : PageLockRequest) : RawRequest :=
  ⟨request.spaceId, request.pageNo, request.versionNo, rawType request.lockType⟩

/-- The tables hold the same records. -/
def SameRecords (raw : RawLockHash) (table : PageLockHash) : Prop :=
  ∀ key, raw.lookup key = (table.lookup key).map rawRecord

theorem rawType_inj {first second : PageLockType} :
    rawType first = rawType second ↔ first = second := by
  revert first second
  decide

theorem rawType_lt {first second : PageLockType} :
    rawType first < rawType second ↔ first.value < second.value := by
  revert first second
  decide

theorem rawCompatible_rawType {requested held : PageLockType} (locks : requested ≠ .unlock)
    (locked : held ≠ .unlock) :
    rawCompatible (rawType requested) (rawType held) =
      some (lockCompatibilityMatrix requested held) := by
  revert requested held
  decide

theorem rawUpdateUnlock_rawRecord (asker : HostName) (record : PageLockT) :
    rawUpdateUnlock asker (rawRecord record) = rawRecord (updateUnlockPageLockT asker record) := by
  rcases record with ⟨mFold, spaceId, pageNo, versionNo, lockType, lockHolder, waitList⟩
  unfold rawUpdateUnlock updateUnlockPageLockT
  dsimp only [rawRecord]
  by_cases left : (lockHolder.filter (· ≠ asker)).isEmpty = true
  · rw [if_pos left, if_pos left]
    cases waitList with
    | nil => rfl
    | cons iter rest => rfl
  · rw [if_neg left, if_neg left]

theorem rawUpdateSuccess_rawRecord (asker : HostName) (request : PageLockRequest)
    (record : PageLockT) :
    rawUpdateSuccess asker (rawRequest request) (rawRecord record) =
      rawRecord (updateSuccessPageLockT asker request record) := by
  simp only [rawUpdateSuccess, updateSuccessPageLockT, rawRecord, rawRequest, rawType_inj]

theorem rawUpdateFail_rawRecord (asker : HostName) (request : PageLockRequest)
    (record : PageLockT) :
    rawUpdateFail asker (rawRequest request) (rawRecord record) =
      rawRecord (updateFailPageLockT asker request record) := by
  simp only [rawUpdateFail, updateFailPageLockT, rawRecord, rawRequest, List.map_map,
    RawPageLock.mk.injEq, true_and]
  refine List.map_congr_left fun iter _ => ?_
  simp only [Function.comp_apply, rawType_lt]
  split
  · rfl
  · rfl

/-! ## One request -/

variable {raw : RawLockHash} {table : PageLockHash} {asker : HostName}

theorem SameRecords.insert (same : SameRecords raw table) (key : UInt32) (record : PageLockT) :
    SameRecords (raw.insert key (rawRecord record)) (table.insert key record) := by
  intro other
  by_cases here : other = key
  · subst here
    rw [AList.lookup_insert, AList.lookup_insert, Option.map_some]
  · rw [AList.lookup_insert_ne here, AList.lookup_insert_ne here]
    exact same other

theorem rawCheckLockRequest_missing {request : RawRequest}
    (missing : raw.lookup (hashKey (calFold request.spaceId request.pageNo)) = none) :
    rawCheckLockRequest raw asker request =
      some (raw.insert (hashKey (calFold request.spaceId request.pageNo))
        (rawNewPageLock asker request), ⟨request.spaceId, request.pageNo, .lockSuccess⟩, 0) := by
  rw [rawCheckLockRequest]
  simp only [missing]
  rfl

theorem rawCheckLockRequest_found {request : RawRequest} {pageLock : RawPageLock}
    (found : raw.lookup (hashKey (calFold request.spaceId request.pageNo)) = some pageLock) :
    rawCheckLockRequest raw asker request =
      let key := hashKey (calFold request.spaceId request.pageNo)
      let granted := (raw.insert key (rawUpdateSuccess asker request pageLock),
        (⟨request.spaceId, request.pageNo, .lockSuccess⟩ : PageLockReply), (1 : Int))
      if request.lockType = rawType .unlock then
        some (raw.insert key (rawUpdateUnlock asker pageLock),
          ⟨request.spaceId, request.pageNo, .unlockSuccess⟩, 2)
      else if pageLock.lockType = rawType .unlock then some granted
      else (rawCompatible request.lockType pageLock.lockType).map fun compatible =>
        if compatible then granted
        else (raw.insert key (rawUpdateFail asker request pageLock),
          ⟨request.spaceId, request.pageNo, .lockFail⟩, -1) := by
  rw [rawCheckLockRequest]
  simp only [found]
  cases rawCompatible request.lockType pageLock.lockType with
  | none => rfl
  | some compatible =>
      cases compatible with
      | false => rfl
      | true => rfl

/-- On a request with an enumerator the server does what the lock table does. -/
theorem rawCheckLockRequest_typed (same : SameRecords raw table) (asker : HostName)
    (request : PageLockRequest) :
    ∃ after, rawCheckLockRequest raw asker (rawRequest request) =
        some (after, (checkLockRequest table asker request).2) ∧
      SameRecords after (checkLockRequest table asker request).1 := by
  have found := same (hashKey (calFold request.spaceId request.pageNo))
  rw [checkLockRequest, hashFindInt]
  cases earlier : table.lookup (hashKey (calFold request.spaceId request.pageNo)) with
  | none =>
      rw [earlier, Option.map_none] at found
      exact ⟨_, rawCheckLockRequest_missing found, same.insert _ (newPageLockT asker request)⟩
  | some record =>
      rw [earlier, Option.map_some] at found
      have type : (rawRequest request).lockType = rawType request.lockType := rfl
      have held : (rawRecord record).lockType = rawType record.lockType := rfl
      have answer : rawCheckLockRequest raw asker (rawRequest request) = _ :=
        rawCheckLockRequest_found found
      rw [answer]
      simp only [type, held, rawType_inj]
      by_cases unlocks : request.lockType = .unlock
      · rw [if_pos unlocks, if_pos unlocks, rawUpdateUnlock_rawRecord]
        exact ⟨_, rfl, same.insert _ _⟩
      · rw [if_neg unlocks, if_neg unlocks]
        by_cases unlocked : record.lockType = .unlock
        · rw [if_pos unlocked, if_pos unlocked, rawUpdateSuccess_rawRecord]
          exact ⟨_, rfl, same.insert _ _⟩
        · rw [if_neg unlocked, if_neg unlocked, rawCompatible_rawType unlocks unlocked,
            Option.map_some, rawUpdateSuccess_rawRecord, rawUpdateFail_rawRecord]
          by_cases compatible : lockCompatibilityMatrix request.lockType record.lockType = true
          · rw [if_pos compatible, if_pos compatible]
            exact ⟨_, rfl, same.insert _ _⟩
          · rw [if_neg compatible, if_neg compatible]
            exact ⟨_, rfl, same.insert _ _⟩

theorem rawType_ne_of_gt {value : UInt32} (large : 2 < value.toNat) (type : PageLockType) :
    value ≠ rawType type := by
  rintro rfl
  cases type with
  | rLock => exact absurd large (by decide)
  | wLock => exact absurd large (by decide)
  | unlock => exact absurd large (by decide)

theorem rawCompatible_of_gt {requested : UInt32} (large : 2 < requested.toNat) (held : UInt32) :
    rawCompatible requested held = none := by
  rw [rawCompatible, List.getElem?_eq_none]
  · rfl
  · simp only [List.length_cons, List.length_nil]
    omega

/-- A lock type that is no enumerator is stored in the table or looked up outside of the
matrix. -/
theorem rawCheckLockRequest_untyped {request : RawRequest} (large : 2 < request.lockType.toNat)
    {after : RawLockHash} {answer : PageLockReply × Int}
    (answered : rawCheckLockRequest raw asker request = some (after, answer)) :
    ∃ key record, after.lookup key = some record ∧ record.lockType = request.lockType := by
  cases found : raw.lookup (hashKey (calFold request.spaceId request.pageNo)) with
  | none =>
      rw [rawCheckLockRequest_missing found] at answered
      cases answered
      exact ⟨_, _, AList.lookup_insert _, rfl⟩
  | some record =>
      rw [rawCheckLockRequest_found found, if_neg (rawType_ne_of_gt large .unlock),
        rawCompatible_of_gt large] at answered
      by_cases unlocked : record.lockType = rawType .unlock
      · rw [if_pos unlocked] at answered
        cases answered
        exact ⟨_, _, AList.lookup_insert _, rfl⟩
      · rw [if_neg unlocked] at answered
        cases answered

/-! ## Runs -/

theorem lockTypeOf_of_le :
    ∀ {value : Nat}, value ≤ 2 → ∃ type, lockTypeOf value = some type ∧ type.value = value
  | 0, _ => ⟨.rLock, rfl, rfl⟩
  | 1, _ => ⟨.wLock, rfl, rfl⟩
  | 2, _ => ⟨.unlock, rfl, rfl⟩

/-- A payload with an enumerator is the memory of a request of the lock table. -/
theorem RawCall.Typed.rawRequestOf_eq {call : RawCall} (typed : call.Typed) :
    rawRequestOf call.payload = rawRequest call.lockCall.request := by
  rcases lockTypeOf_of_le typed with ⟨type, known, value⟩
  have word : rawType type = wordAt call.payload 16 := by
    rw [rawType, value, UInt32.ofNat_toNat]
  have read : requestOf call.payload = some ⟨wordAt call.payload 0, wordAt call.payload 4,
      UInt64.ofNat (leValue (slice call.payload 8 8)), type⟩ := by
    rw [requestOf, known]
    rfl
  rw [lockCall, read, rawRequestOf, ← word]
  rfl

/-- The server holds the records of the lock table and has not looked outside of the
matrix. -/
def HoldsRecords (state : Option RawLockHash) (table : PageLockHash) : Prop :=
  ∃ raw, state = some raw ∧ SameRecords raw table

/-- On payloads with an enumerator the server follows the lock table. -/
theorem rawServer_follows : Machine.Simulation rawServer server HoldsRecords
    (fun _ call => call.Typed) (fun _ _ => True) RawCall.lockCall some where
  follows := by
    rintro state table call ⟨raw, rfl, same⟩ typed
    rcases rawCheckLockRequest_typed same call.asker call.lockCall.request with
      ⟨after, answered, sameAfter⟩
    have step : rawServer.step (some raw) call =
        (some after, some (checkLockRequest table call.asker call.lockCall.request).2.1) := by
      simp only [rawServer, Option.bind_some, typed.rawRequestOf_eq, answered, Option.map_some]
    rw [step]
    exact ⟨trivial, ⟨after, rfl, sameAfter⟩, rfl⟩

variable {calls : List RawCall}

theorem holdsRecords_typed (typed : ∀ call ∈ calls, call.Typed) :
    HoldsRecords (rawServer.exec (some ∅) calls) (server.exec ∅ (calls.map RawCall.lockCall)) := by
  have initial : HoldsRecords (some ∅) ∅ := ⟨∅, rfl, fun _ => rfl⟩
  have respects : rawServer.Respects (some ∅) (fun _ _ call => call.Typed) calls := by
    intro before call after split
    exact typed call (split ▸ List.mem_append_right _ List.mem_cons_self)
  exact (rawServer_follows.run initial respects).2.1

theorem survives_of_typed (typed : ∀ call ∈ calls, call.Typed) : Survives calls := by
  rcases holdsRecords_typed typed with ⟨raw, reached, same⟩
  refine ⟨raw, reached, ?_⟩
  intro key record found
  rw [same] at found
  rcases Option.map_eq_some_iff.mp found with ⟨stored, _, rfl⟩
  exact ⟨stored.lockType, rfl⟩

/-- All requests are answered without a look outside of the matrix and only enumerators are
stored, if and only if every payload holds one of the three enumerators as its lock type. -/
theorem survives_iff_typed (calls : List RawCall) :
    (∀ initial, initial <+: calls → Survives initial) ↔ ∀ call ∈ calls, call.Typed := by
  constructor
  · intro survives
    induction calls using List.reverseRecOn with
    | nil => simp
    | append_singleton calls call ih =>
        have earlier := ih fun initial front => survives initial
          (front.trans (List.prefix_append _ _))
        rcases holdsRecords_typed earlier with ⟨raw, reached, same⟩
        have last : call.Typed := by
          by_contra untyped
          rcases survives _ List.prefix_rfl with ⟨table, answered, types⟩
          rw [Machine.exec_concat, reached] at answered
          rcases Option.map_eq_some_iff.mp answered with ⟨⟨after, answer⟩, checked, rfl⟩
          rw [Option.bind_some] at checked
          have large : 2 < (rawRequestOf call.payload).lockType.toNat := Nat.lt_of_not_le untyped
          rcases rawCheckLockRequest_untyped large checked with ⟨key, record, found, stored⟩
          rcases types key record found with ⟨type, known⟩
          exact rawType_ne_of_gt large type (stored.symm.trans known)
        intro other member
        rcases List.mem_append.mp member with old | new
        · exact earlier other old
        · rw [List.mem_singleton.mp new]
          exact last
  · intro typed initial front
    exact survives_of_typed fun call member => typed call (front.subset member)

/-- A request for page (1, 2) with a lock type below 256. -/
def requestOfType (lockType : UInt8) : RawCall :=
  ⟨.ofString "host1", [1, 0, 0, 0, 2, 0, 0, 0] ++ List.replicate 8 0 ++ [lockType, 0, 0, 0] ++
    List.replicate 4 0, rfl⟩

/-- Lock type 3 on a page that is locked for reading: the matrix has no row 3. -/
theorem untyped_request_leaves_matrix :
    rawServer.exec (some ∅) [requestOfType 0, requestOfType 3] = none ∧
      ¬Survives [requestOfType 0, requestOfType 3] := by
  have stopped : rawServer.exec (some ∅) [requestOfType 0, requestOfType 3] = none := by
    decide +kernel
  refine ⟨stopped, ?_⟩
  rintro ⟨table, reached, _⟩
  rw [stopped] at reached
  cases reached

end MultiMaster.LockProtocol
