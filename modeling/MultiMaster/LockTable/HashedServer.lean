import MultiMaster.LockTable.HashRuns
import MultiMaster.LockTable.RecordKeys

/-!
# The lock server on its hash table

The lock server keeps its records in a hash table of uthash.  The definitions follow
`remote_page_lock_manager.cc` down to the pointers and buckets of that table: `HASH_FIND_INT`
and `HASH_ADD_INT` are given the address of a fold, and a record that is found is changed
where it stands.

For every history this server gives the replies of the server on a finite map.
-/

namespace MultiMaster.LockTable.Hashed

open Foundation UtHash

/-- The bytes at the address of a fold, of which `sizeof(int)` are the key. -/
def foldBytes (fold : UInt64) : Bytes := leBytes 8 fold.toNat

def foldKeying : Keying PageLockT where
  hashFcn := hashJen
  field record := foldBytes record.mFold
  keylen := 4

theorem cut_foldBytes (fold : UInt64) : foldKeying.cut (foldBytes fold) = keyBytes fold := rfl

/-! ## Answering requests -/

def hashFindInt (head : Hash PageLockT) (findint : UInt64) : Option (Option Address) :=
  hashFind foldKeying head (foldBytes findint)

/-- The record that is looked for, when there is a table. -/
def findPageLockT (pageLockHash : Hash PageLockT) (fold : UInt64) : Option (Option Address) :=
  if pageLockHash.root.isSome then hashFindInt pageLockHash fold else some none

/-- The handle of a new record is not initialised. -/
def insertPageLockT (pageLockHash : Hash PageLockT) (raw : UtHashHandle) (asker : HostName)
    (request : PageLockRequest) : Option (Hash PageLockT) :=
  insertElement foldKeying pageLockHash ⟨newPageLockT asker request, raw⟩

/-- One request: the table afterwards, the reply, and the return value. -/
def checkLockRequest (pageLockHash : Hash PageLockT) (raw : UtHashHandle) (asker : HostName)
    (request : PageLockRequest) : Option (Hash PageLockT × PageLockReply × Int) := do
  let reply (replyType : PageReplyType) : PageLockReply :=
    ⟨request.spaceId, request.pageNo, replyType⟩
  let fold := calFold request.spaceId request.pageNo
  let pageLockInfor ← findPageLockT pageLockHash fold
  match pageLockInfor with
  | none =>
      let inserted ← insertPageLockT pageLockHash raw asker request
      return (inserted, reply .lockSuccess, 0)
  | some address =>
      let node ← pageLockHash.memory[address]?
      let pageLock := node.element
      if request.lockType = .unlock then
        return (updateElement pageLockHash address (updateUnlockPageLockT asker pageLock),
          reply .unlockSuccess, 2)
      else if pageLock.lockType = .unlock then
        return (updateElement pageLockHash address
          (updateSuccessPageLockT asker request pageLock), reply .lockSuccess, 1)
      else if lockCompatibilityMatrix request.lockType pageLock.lockType then
        return (updateElement pageLockHash address
          (updateSuccessPageLockT asker request pageLock), reply .lockSuccess, 1)
      else
        return (updateElement pageLockHash address
          (updateFailPageLockT asker request pageLock), reply .lockFail, -1)

/-- A call, with what stands in the memory of the handle that a new record would get. -/
abbrev RawCall := LockCall × UtHashHandle

/-- The lock server as a machine over its hash table.  There is no state once the program
has been ended. -/
def server : Machine (Option (Hash PageLockT)) RawCall (Option PageLockReply) where
  step state input :=
    match state.bind fun pageLockHash =>
        checkLockRequest pageLockHash input.2 input.1.asker input.1.request with
    | none => (none, none)
    | some answer => (some answer.1, some answer.2.1)

variable {pageLockHash : Hash PageLockT} {raw : UtHashHandle} {call : LockCall}

theorem findPageLockT_eq (fold : UInt64) :
    findPageLockT pageLockHash fold = hashFindInt pageLockHash fold := by
  rcases pageLockHash with ⟨memory, root⟩
  cases root with
  | none => rfl
  | some root => rfl

/-- A call for which no record is found. -/
theorem checkLockRequest_missing (missing : hashFindInt pageLockHash call.fold = some none) :
    checkLockRequest pageLockHash raw call.asker call.request =
      (insertElement foldKeying pageLockHash ⟨(recordStep none call).1, raw⟩).map fun inserted =>
        (inserted, ⟨call.request.spaceId, call.request.pageNo, (recordStep none call).2⟩, 0) := by
  rw [checkLockRequest, findPageLockT_eq]
  rw [LockCall.fold] at missing
  simp only [missing, Option.bind_eq_bind, Option.bind_some, insertPageLockT, recordStep]
  cases insertElement foldKeying pageLockHash ⟨newPageLockT call.asker call.request, raw⟩ with
  | none => rfl
  | some inserted => rfl

/-- A call for which a record is found does the step of that record. -/
theorem checkLockRequest_found (raw : UtHashHandle) {address : Address} {node : Node PageLockT}
    (found : hashFindInt pageLockHash call.fold = some (some address))
    (atAddress : pageLockHash.memory[address]? = some node) :
    ∃ code, checkLockRequest pageLockHash raw call.asker call.request =
      some (updateElement pageLockHash address (recordStep (some node.element) call).1,
        ⟨call.request.spaceId, call.request.pageNo, (recordStep (some node.element) call).2⟩,
        code) := by
  rw [checkLockRequest, findPageLockT_eq]
  rw [LockCall.fold] at found
  simp only [found, Option.bind_eq_bind, Option.bind_some, atAddress, recordStep]
  by_cases unlocks : call.request.lockType = .unlock
  · simp only [unlocks, if_true]
    exact ⟨_, rfl⟩
  · by_cases free : node.element.lockType = .unlock
    · simp only [unlocks, free, if_true, if_false, true_or]
      exact ⟨_, rfl⟩
    · by_cases compatible :
        lockCompatibilityMatrix call.request.lockType node.element.lockType
      · simp only [unlocks, free, compatible, if_true, if_false, false_or]
        exact ⟨_, rfl⟩
      · simp only [unlocks, free, compatible, Bool.false_eq_true, if_false, or_self]
        exact ⟨_, rfl⟩

/-! ## The records of the table -/

/-- The table holds the records, which were added in that order and have different keys. -/
structure Shows (pageLockHash : Hash PageLockT) (records : List PageLockT) : Prop where
  holds : Contains foldKeying pageLockHash ⟨records, List.range records.length⟩
  distinct : (records.map fun record => keyBytes record.mFold).Nodup

variable {records : List PageLockT}

/-- The search in the table finds what any search through the records finds. -/
theorem hashFindInt_eq (shows : Shows pageLockHash records) (uthash : LockTable.UtHash)
    (fold : UInt64) :
    hashFindInt pageLockHash fold =
      some ((uthash.find records (keyBytes fold)).map Fin.val) := by
  rcases hashFind_spec shows.holds.valid (foldBytes fold) with ⟨result, searched, finds⟩
  rw [hashFindInt, searched, Option.some.injEq]
  cases result with
  | none =>
      have absent : keyBytes fold ∉ records.map fun record => keyBytes record.mFold := by
        intro member
        rcases List.mem_iff_getElem?.mp member with ⟨address, atAddress⟩
        rw [List.getElem?_map] at atAddress
        have inRange : address < records.length := by
          rcases Option.map_eq_some_iff.mp atAddress with ⟨record, found, _⟩
          exact (List.getElem?_eq_some_iff.mp found).1
        refine finds.missing rfl address (List.mem_range.mpr inRange) ?_
        rw [shows.holds.keyAt_eq, cut_foldBytes]
        exact atAddress
      rw [KeySearch.find_eq_none_iff.mpr absent]
      rfl
  | some address =>
      obtain ⟨member, keyFound⟩ := finds.found address rfl
      have inRange : address < records.length := List.mem_range.mp member
      rw [shows.holds.keyAt_eq, cut_foldBytes, Contents.keyAt,
        List.getElem?_eq_getElem inRange, Option.map_some, Option.some.injEq] at keyFound
      have place : uthash.find records (keyBytes fold) = some ⟨address, inRange⟩ :=
        (KeySearch.find_eq_some_iff shows.distinct).mpr keyFound
      rw [place]
      rfl

/-- The element at the address of a record is that record. -/
theorem getElem?_memory (shows : Shows pageLockHash records) (place : Fin records.length) :
    ∃ node, pageLockHash.memory[place.val]? = some node ∧ node.element = records.get place := by
  have elements := congrArg (fun elements : List PageLockT => elements[place.val]?)
    shows.holds.elements
  simp only [List.getElem?_map, List.getElem?_eq_getElem place.isLt] at elements
  exact Option.map_eq_some_iff.mp elements

/-- The record that is found. -/
theorem lookup_memory (shows : Shows pageLockHash records) (uthash : LockTable.UtHash)
    (fold : UInt64) :
    ∃ result, hashFindInt pageLockHash fold = some result ∧
      (result.bind fun address => pageLockHash.memory[address]?.map Node.element) =
        uthash.lookup records (keyBytes fold) := by
  refine ⟨_, hashFindInt_eq shows uthash fold, ?_⟩
  rw [KeySearch.lookup]
  cases uthash.find records (keyBytes fold) with
  | none => rfl
  | some place =>
      rcases getElem?_memory shows place with ⟨node, atPlace, isRecord⟩
      rw [Option.map_some, Option.bind_some, atPlace, Option.map_some, isRecord]
      rfl

/-- A call is answered as by the server on the list of records, and keeps the table in
order. -/
theorem checkLockRequest_spec (shows : Shows pageLockHash records) (room : CanExpand pageLockHash)
    (uthash : LockTable.UtHash) (raw : UtHashHandle) (call : LockCall) :
    ∃ after code, checkLockRequest pageLockHash raw call.asker call.request =
        some (after, ((Intrusive.server uthash).step records call).2, code) ∧
      Shows after ((Intrusive.server uthash).step records call).1 := by
  have created : keyBytes (recordStep none call).1.mFold = keyBytes call.fold := rfl
  have kept : ∀ record, keyBytes (recordStep (some record) call).1.mFold =
      keyBytes record.mFold := fun record =>
    congrArg (fun identity => keyBytes identity.1) (identity_recordStep record call)
  have distinct : ((uthash.upsert records (keyBytes call.fold) fun record =>
      (recordStep record call).1).map fun record => keyBytes record.mFold).Nodup :=
    KeySearch.distinct_upsert created kept shows.distinct
  have searched := hashFindInt_eq shows uthash call.fold
  rw [Intrusive.server_step]
  cases found : uthash.find records (keyBytes call.fold) with
  | none =>
      rw [found] at searched
      rcases shows.holds.add room ⟨(recordStep none call).1, raw⟩ with ⟨after, ran, holds⟩
      refine ⟨after, 0, ?_, ?_, distinct⟩
      · rw [checkLockRequest_missing searched, ran, KeySearch.lookup, found]
        rfl
      · rw [KeySearch.upsert, found, List.length_append, List.length_singleton, List.range_succ]
        exact holds
  | some place =>
      rw [found] at searched
      rcases getElem?_memory shows place with ⟨node, atPlace, isRecord⟩
      obtain ⟨code, ran⟩ := checkLockRequest_found raw searched atPlace
      rw [isRecord] at ran
      refine ⟨updateElement pageLockHash place (recordStep (some (records.get place)) call).1,
        code, ?_, ?_, distinct⟩
      · rw [ran, KeySearch.lookup, found]
        rfl
      · rw [KeySearch.upsert, found, List.length_set]
        refine shows.holds.update ?_
        rw [Contents.keyAt, List.getElem?_eq_getElem place.isLt, Option.map_some]
        exact congrArg some (kept _).symm

/-! ## Every history -/

/-- The program has not been ended, and its table holds the records. -/
def ShowsState (state : Option (Hash PageLockT)) (records : List PageLockT) : Prop :=
  ∃ pageLockHash, state = some pageLockHash ∧ Shows pageLockHash records

theorem showsState_initial : ShowsState (some ⟨[], none⟩) [] :=
  ⟨_, rfl, Contains.empty foldKeying, List.nodup_nil⟩

/-- The table can expand before every call. -/
def Expandable (_history : List (RawCall × Option PageLockReply))
    (state : Option (Hash PageLockT)) (_input : RawCall) : Prop :=
  ∀ pageLockHash ∈ state, CanExpand pageLockHash

instance (history : List (RawCall × Option PageLockReply)) (state : Option (Hash PageLockT))
    (input : RawCall) : Decidable (Expandable history state input) :=
  inferInstanceAs (Decidable (∀ pageLockHash ∈ state, CanExpand pageLockHash))

/-- The server on its hash table follows the server on the list of records. -/
theorem server_follows (uthash : LockTable.UtHash) : Machine.Simulation server
    (Intrusive.server uthash) ShowsState (Expandable []) (fun _ _ => True) Prod.fst some where
  follows := by
    rintro _ records ⟨call, raw⟩ ⟨pageLockHash, rfl, shows⟩ room
    rcases checkLockRequest_spec shows (room pageLockHash rfl) uthash raw call with
      ⟨after, code, ran, kept⟩
    have answered : server.step (some pageLockHash) (call, raw) =
        (some after, some ((Intrusive.server uthash).step records call).2) := by
      simp only [server, Option.bind_some, ran]
    rw [answered]
    exact ⟨trivial, ⟨after, rfl, kept⟩, rfl⟩

/-- As long as the table can expand, every history of calls gets the replies of the server
on the finite map.  The hash table passes its integrity check, and a search by any fold finds
the record that the map has under its key. -/
theorem replies_of_hashTable {inputs : List RawCall}
    (respects : server.Respects (some ⟨[], none⟩) Expandable inputs) :
    (server.trace (some ⟨[], none⟩) inputs).map Prod.snd =
        ((LockTable.server.trace ∅ (inputs.map Prod.fst)).map Prod.snd).map some ∧
      ∃ pageLockHash, server.exec (some ⟨[], none⟩) inputs = some pageLockHash ∧
        hashFsck pageLockHash = some () ∧
        ∀ fold, ∃ result, hashFindInt pageLockHash fold = some result ∧
          (result.bind fun address => pageLockHash.memory[address]?.map Node.element) =
            LockTable.hashFindInt (LockTable.server.exec ∅ (inputs.map Prod.fst)) fold := by
  let uthash : LockTable.UtHash := KeySearch.first _
  rcases (server_follows uthash).run showsState_initial respects with
    ⟨_, ⟨pageLockHash, reached, shows⟩, replies⟩
  rcases Intrusive.records_of_table uthash (inputs.map Prod.fst) with ⟨map, sameReplies⟩
  refine ⟨?_, pageLockHash, reached, hashFsck_passes shows.holds.valid, ?_⟩
  · rw [replies, sameReplies]
  · intro fold
    rcases lookup_memory shows uthash fold with ⟨result, searched, same⟩
    exact ⟨result, searched, same.trans (map.2 fold).symm⟩

/-- Two pages share a fold, and a host waits for a page of its own. -/
theorem replies_of_hashTable_sharedFold :
    let raw : UtHashHandle := ⟨some 7, none, some 2, none, 1, 8, 5⟩
    (server.trace (some ⟨[], none⟩)
        [(lockCall "host1" 0 1048577 .wLock, raw), (lockCall "host2" 1 0 .wLock, raw),
          (lockCall "host1" 1 1 .rLock, raw)]).map Prod.snd =
      [some ⟨0, 1048577, .lockSuccess⟩, some ⟨1, 0, .lockFail⟩, some ⟨1, 1, .lockSuccess⟩] := by
  intro raw
  exact (replies_of_hashTable (by decide +kernel)).1.trans (by decide +kernel)

end MultiMaster.LockTable.Hashed
