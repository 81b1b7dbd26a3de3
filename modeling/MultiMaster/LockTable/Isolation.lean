import MultiMaster.LockTable.Holders

/-!
# Isolation of pages

The table looks records up by fold and never compares the page numbers stored in
them.  Two pages with one fold therefore share a record.  A page is isolated from
a set of pages exactly when no other page of the set has its fold.
-/

namespace MultiMaster.LockTable

open Foundation

variable {page : UInt32 × UInt32} {calls : List LockCall}

/-- Calls about one page. -/
def LockCall.About (page : UInt32 × UInt32) (call : LockCall) : Prop :=
  call.request.page = page

instance : DecidablePred (LockCall.About page) :=
  fun call => inferInstanceAs (Decidable (call.request.page = page))

/-- Replies given to the calls about one page, oldest first. -/
def pageReplies (page : UInt32 × UInt32) (calls : List LockCall) :
    List PageReplyType :=
  ((server.trace ∅ calls).filter fun event => event.1.About page).map
    fun event => event.2.replyType

/-- The record the table holds for a page. -/
def pageRecord (page : UInt32 × UInt32) (calls : List LockCall) : Option PageLockT :=
  (server.exec ∅ calls).lookup (hashKey (calFold page.1 page.2))

/-- A page does not notice the calls about other pages: neither its replies nor
its record, with holder list and version number, change when they are deleted. -/
def PageIsolated (page : UInt32 × UInt32) (calls : List LockCall) : Prop :=
  pageReplies page calls = pageReplies page (calls.filter fun call => call.About page) ∧
    pageRecord page calls =
      pageRecord page (calls.filter fun call => call.About page)

/-- No page other than `page` among `pages` has its fold. -/
def FoldUnshared (page : UInt32 × UInt32) (pages : Set (UInt32 × UInt32)) : Prop :=
  ∀ other ∈ pages, calFold other.1 other.2 = calFold page.1 page.2 → other = page

/-- Calls about the page reach its record, and with an unshared fold no others do. -/
theorem key_eq_iff_about
    (unshared : FoldUnshared page { other | ∃ call ∈ calls, call.request.page = other})
    {call : LockCall} (member : call ∈ calls) :
    call.key = hashKey (calFold page.1 page.2) ↔ call.About page := by
  rw [LockCall.key, ← LockCall.calFold_page, hashKey_calFold_inj]
  constructor
  · intro sameFold
    exact unshared _ ⟨call, member, rfl⟩ sameFold
  · intro samePage
    rw [show call.request.page = page from samePage]

/-- Calls with an unshared fold are answered by the machine of the page's record
run on the calls about the page. -/
theorem pageReplies_eq_record
    (unshared : FoldUnshared page { other | ∃ call ∈ calls, call.request.page = other}) :
    pageReplies page calls =
        (recordMachine.trace none (calls.filter fun call => call.About page)).map
          (fun event => event.2.replyType) ∧
      pageRecord page calls =
        recordMachine.exec none (calls.filter fun call => call.About page) := by
  let key := hashKey (calFold page.1 page.2)
  have sameCalls : calls.filter (fun call => call.key = key) =
      calls.filter (fun call => call.About page) :=
    List.filter_congr fun call member => by
      simp [key, key_eq_iff_about unshared member]
  have sameEvents : (server.trace ∅ calls).filter (fun event => event.1.key = key) =
      (server.trace ∅ calls).filter (fun event => event.1.About page) :=
    List.filter_congr fun event member => by
      have inCalls : event.1 ∈ calls := by
        rw [← server.map_fst_trace ∅ calls]
        exact List.mem_map_of_mem member
      simp [key, key_eq_iff_about unshared inCalls]
  constructor
  · rw [pageReplies, ← sameEvents, ← sameCalls]
    rw [(record_component key).trace_eq]
    rfl
  · rw [pageRecord, ← sameCalls]
    exact (record_component key).exec_eq ∅ calls

theorem pageIsolated_of_foldUnshared
    (unshared : FoldUnshared page { other | ∃ call ∈ calls, call.request.page = other}) :
    PageIsolated page calls := by
  have filtered : FoldUnshared page
      { other | ∃ call ∈ calls.filter (fun call => call.About page),
        call.request.page = other } := by
    intro other member sameFold
    rcases member with ⟨call, member, rfl⟩
    exact unshared _ ⟨call, (List.mem_filter.mp member).1, rfl⟩ sameFold
  have idempotent : (calls.filter fun call => call.About page).filter
      (fun call => call.About page) = calls.filter fun call => call.About page := by
    simp [List.filter_filter]
  have whole := pageReplies_eq_record unshared
  have part := pageReplies_eq_record filtered
  rw [idempotent] at part
  exact ⟨whole.1.trans part.1.symm, whole.2.trans part.2.symm⟩

/-- A write lock on one page of a shared fold refuses the other. -/
def collidingCalls (page other : UInt32 × UInt32) : List LockCall :=
  [⟨CString.ofString "host1", other.1, other.2, 0, .wLock⟩,
    ⟨CString.ofString "host2", page.1, page.2, 0, .wLock⟩]

theorem not_pageIsolated_of_collision {other : UInt32 × UInt32}
    (different : other ≠ page)
    (sameFold : calFold other.1 other.2 = calFold page.1 page.2) :
    ¬PageIsolated page (collidingCalls page other) := by
  intro isolated
  have replies := isolated.1
  simp [-AList.insert_empty, collidingCalls, pageReplies, LockCall.About,
    PageLockRequest.page, different, server_step, recordStep, LockCall.key,
    LockCall.fold, sameFold, newPageLockT, lockCompatibilityMatrix] at replies

/-- Whatever is requested on the pages of a set, a page is isolated from the
others if and only if none of them has its fold. -/
theorem pageIsolated_iff_foldUnshared (page : UInt32 × UInt32)
    (pages : Set (UInt32 × UInt32)) (inSet : page ∈ pages) :
    (∀ calls : List LockCall, (∀ call ∈ calls, call.request.page ∈ pages) →
      PageIsolated page calls) ↔ FoldUnshared page pages := by
  constructor
  · intro isolated other member sameFold
    by_contra different
    apply not_pageIsolated_of_collision different sameFold
    apply isolated
    intro call inCalls
    simp only [collidingCalls, List.mem_cons, List.not_mem_nil, or_false] at inCalls
    rcases inCalls with rfl | rfl
    · exact member
    · exact inSet
  · intro unshared calls within
    apply pageIsolated_of_foldUnshared
    intro other member sameFold
    rcases member with ⟨call, inCalls, rfl⟩
    exact unshared _ (within call inCalls) sameFold

/-- The pages `(0, 2^20 + 1)` and `(1, 0)` are in one record: a write lock on the
first makes the lock request on the second fail. -/
theorem pages_not_isolated :
    ¬PageIsolated (1, 0)
      [lockCall "host1" 0 1048577 .wLock, lockCall "host2" 1 0 .wLock] := by
  intro isolated
  exact absurd isolated.1 (by decide)

theorem pageIsolated_iff_foldUnshared_small :
    PageIsolated (1, 0)
      [lockCall "host1" 1 1 .wLock, lockCall "host2" 1 0 .wLock] :=
  (pageIsolated_iff_foldUnshared (1, 0) {(1, 0), (1, 1)} (by simp)).mpr
    (by
      intro other member sameFold
      rcases member with rfl | rfl
      · rfl
      · exact absurd sameFold (by decide))
    _ (by simp [lockCall, PageLockRequest.page])

end MultiMaster.LockTable
