import MultiMaster.NetIO.LockBalance

/-!
# The list of listeners

`listen_id_vector` is meant to hold the ids of the accepted connections.  Connections are
added and removed here in any order, with ids that exist or not.  `remove_buffevent` takes
the id for a position in the list, so that the list follows the table exactly as long as
every accepted connection that is removed stands at its own position.

`max_bev_id` is an `atomic<int>`; the runs may be longer than it can count.
-/

namespace MultiMaster.NetIO

open Foundation

/-! ## Adding and removing connections -/

/-- The calls that change the connection table, with the outcome of the connection and the
memory of a new record. -/
inductive TableCall where
  | connect (ip : CString) (port : Int) (connected : Bool) (fresh : Int × Bool)
  | listen (ip : CString) (port : Int) (fresh : Int × Bool)
  | remove (id : Int)

namespace LibeventHandle

/-- The next id wraps. -/
def wrapBevId (handle : LibeventHandle) : LibeventHandle :=
  { handle with maxBevId := Int.bmod handle.maxBevId (2 ^ 32) }

def tableCall (handle : LibeventHandle) : TableCall → Except Stop (LibeventHandle × Int)
  | .connect ip port connected fresh => do
      let added ← orStop .spinning (handle.addBuffereventConnect ip port connected fresh)
      return (added.1.wrapBevId, added.2)
  | .listen ip port fresh => do
      let added ← orStop .spinning (handle.addBuffereventListen ip port fresh)
      return (added.1.wrapBevId, added.2)
  | .remove id => handle.removeBuffevent id

/-- The calls as a machine that answers with the return values.  After a call that does not
return nothing happens. -/
def tableCalls : Machine (Except Stop LibeventHandle) TableCall (Except Stop Int) where
  step state call :=
    let result := state >>= fun handle => handle.tableCall call
    (result.map Prod.fst, result.map Prod.snd)

/-- The history of a run: calls with their return values, oldest first. -/
abbrev TableHistory := List (TableCall × Except Stop Int)

/-- The ids of the connections accepted so far, after one more call. -/
def noteAccepted (accepted : List Int) : TableCall × Except Stop Int → List Int
  | (.listen _ _ _, .ok id) => accepted ++ [id]
  | (.remove id, .ok _) => accepted.filter (· ≠ id)
  | _ => accepted

/-- The ids of the connections that were accepted and not removed since, oldest first. -/
def acceptedIds (history : TableHistory) : List Int := history.foldl noteAccepted []

/-- An accepted connection of the table. -/
def Accepted (handle : LibeventHandle) (id : Int) : Prop :=
  ∃ info, handle.bevMap.lookup id = some info ∧ info.isListen = true

/-- The list of listeners holds the ids of the accepted connections of the table, each
once, in the order in which they were accepted. -/
structure Mirrors (handle : LibeventHandle) (history : TableHistory) : Prop where
  exact : ∀ id, id ∈ handle.listenIdVector ↔ handle.Accepted id
  once : handle.listenIdVector.Nodup
  order : handle.listenIdVector = acceptedIds history

/-- All calls return and leave a list that mirrors the table. -/
def ListMirrors (calls : List TableCall) : Prop :=
  ∃ handle, tableCalls.exec (.ok .initHandle) calls = .ok handle ∧
    handle.Mirrors (tableCalls.trace (.ok .initHandle) calls)

/-- A new connection does not get the id of an accepted one that is in the table, and an
accepted connection that is removed stands in the list at the position of its id. -/
def KeepsList (handle : LibeventHandle) : TableCall → Prop
  | .connect _ _ connected _ => connected = true → ¬handle.Accepted handle.maxBevId
  | .listen _ _ _ => ¬handle.Accepted handle.maxBevId
  | .remove id => handle.Accepted id →
      0 ≤ id ∧ handle.listenIdVector[id.toNat]? = some id

/-! ## Erasing positions and values -/

/-- Erasing a position removes a value, and no other, when the value stands there. -/
theorem eraseIdx_eq_filter_iff {values : List Int} {value : Int} {position : Nat}
    (once : values.Nodup) (member : value ∈ values) :
    values.eraseIdx position = values.filter (· ≠ value) ↔ values[position]? = some value := by
  constructor
  · intro same
    by_contra elsewhere
    have kept : value ∈ values.eraseIdx position := by
      rcases List.mem_iff_getElem?.mp member with ⟨index, found⟩
      refine List.mem_eraseIdx_iff_getElem?.mpr ⟨index, ?_, found⟩
      rintro rfl
      exact elsewhere found
    rw [same, List.mem_filter] at kept
    simp at kept
  · intro found
    rcases List.getElem?_eq_some_iff.mp found with ⟨inside, here⟩
    have position : values.idxOf value = position := by
      rw [← here]
      exact once.idxOf_getElem position inside
    rw [← List.erase_eq_eraseIdx_of_idxOf position, once.erase_eq_filter]
    exact List.filter_congr fun other _ => by rw [bne_eq, decide_not]; rfl

variable {handle : LibeventHandle} {history : TableHistory} {id : Int}

/-! ## What a call does -/

/-- The handle with a connection that was accepted by the listener. -/
def withListener (handle : LibeventHandle) (ip : CString) (port : Int) (fresh : Int × Bool) :
    LibeventHandle :=
  { handle with
    maxBevId := handle.maxBevId + 1
    bevMap := handle.bevMap.insert handle.maxBevId (freshRecord ip port true fresh)
    listenIdVector := handle.listenIdVector ++ [handle.maxBevId] }

/-- The handle without the record of a connection. -/
def withoutRecord (handle : LibeventHandle) (id : Int) : LibeventHandle :=
  { handle with bevMap := handle.bevMap.erase id }

/-- The handle without the list entry at a position. -/
def withoutEntry (handle : LibeventHandle) (position : Nat) : LibeventHandle :=
  { handle with listenIdVector := handle.listenIdVector.eraseIdx position }

theorem tableCall_connect (free : handle.AllFree) (ip : CString) (port : Int)
    (fresh : Int × Bool) :
    handle.tableCall (.connect ip port true fresh) =
      .ok ((handle.withConnection ip port fresh).wrapBevId, handle.maxBevId) := by
  rw [tableCall, addBuffereventConnect_free free.table]
  rfl

theorem tableCall_listen (free : handle.AllFree) (ip : CString) (port : Int)
    (fresh : Int × Bool) :
    handle.tableCall (.listen ip port fresh) =
      .ok ((handle.withListener ip port fresh).wrapBevId, handle.maxBevId) := by
  rcases handle with ⟨maxBevId, singal, bevMap, listenSingal, listenIdVector⟩
  cases free.table
  cases free.listeners
  rfl

theorem tableCall_remove_absent (free : handle.AllFree)
    (absent : handle.bevMap.lookup id = none) :
    handle.tableCall (.remove id) = .ok (handle, -1) := by
  rcases handle with ⟨maxBevId, singal, bevMap, listenSingal, listenIdVector⟩
  cases free.table
  rw [tableCall, removeBuffevent, absent]
  rfl

theorem tableCall_remove_outgoing {info : BevInfor} (free : handle.AllFree)
    (found : handle.bevMap.lookup id = some info) (outgoing : ¬info.isListen = true) :
    handle.tableCall (.remove id) = .ok (handle.withoutRecord id, id) := by
  rw [tableCall, removeBuffevent, rwWLock_free free.table, orStop_some, ok_bind, found]
  dsimp only
  rw [if_neg outgoing]
  rcases handle with ⟨maxBevId, singal, bevMap, listenSingal, listenIdVector⟩
  cases free.table
  rfl

theorem tableCall_remove_accepted (free : handle.AllFree) (accepted : handle.Accepted id) :
    handle.tableCall (.remove id) =
      if 0 ≤ id ∧ id < handle.listenIdVector.length then
        .ok ((handle.withoutRecord id).withoutEntry id.toNat, id)
      else .error .undefined := by
  rcases accepted with ⟨info, found, listens⟩
  rw [tableCall, removeBuffevent, rwWLock_free free.table, orStop_some, ok_bind, found]
  dsimp only
  rw [if_pos listens, rwWLock_free free.listeners, orStop_some, ok_bind]
  by_cases inside : 0 ≤ id ∧ id < handle.listenIdVector.length
  · rw [if_pos inside, if_pos inside]
    rcases handle with ⟨maxBevId, singal, bevMap, listenSingal, listenIdVector⟩
    cases free.table
    cases free.listeners
    rfl
  · rw [if_neg inside, if_neg inside]
    rfl

/-- Every call that returns gives the locks back. -/
theorem tableCall_free (free : handle.AllFree) {call : TableCall} {after : LibeventHandle}
    (returned : handle.tableCall call = .ok (after, id)) : after.AllFree := by
  cases call with
  | connect ip port connected fresh =>
      cases connected with
      | false =>
          cases returned
          exact ⟨free.table, free.listeners, free.connections⟩
      | true =>
          rw [tableCall_connect free] at returned
          cases returned
          exact ⟨free.table, free.listeners, free.insert ⟨rfl, rfl⟩ _⟩
  | listen ip port fresh =>
      rw [tableCall_listen free] at returned
      cases returned
      exact ⟨free.table, free.listeners, free.insert ⟨rfl, rfl⟩ _⟩
  | remove removed =>
      cases found : handle.bevMap.lookup removed with
      | none =>
          rw [tableCall_remove_absent free found] at returned
          cases returned
          exact free
      | some info =>
          by_cases listens : info.isListen = true
          · rw [tableCall_remove_accepted free ⟨info, found, listens⟩] at returned
            split at returned
            · cases returned
              exact ⟨free.table, free.listeners, free.erase _⟩
            · cases returned
          · rw [tableCall_remove_outgoing free found listens] at returned
            cases returned
            exact ⟨free.table, free.listeners, free.erase _⟩

/-! ## One call -/

theorem acceptedIds_concat (history : TableHistory) (event : TableCall × Except Stop Int) :
    acceptedIds (history ++ [event]) = noteAccepted (acceptedIds history) event := by
  rw [acceptedIds, List.foldl_append]
  rfl

theorem accepted_insert (info : BevInfor) (added : Int) :
    (∃ found, (handle.bevMap.insert added info).lookup id = some found ∧ found.isListen = true) ↔
      if id = added then info.isListen = true else handle.Accepted id := by
  by_cases same : id = added
  · rw [if_pos same, same]
    simp only [OrderedMap.lookup_insert, Option.some.injEq, exists_eq_left']
  · rw [if_neg same]
    simp only [OrderedMap.lookup_insert_ne same]
    rfl

theorem accepted_withoutRecord (removed : Int) :
    (handle.withoutRecord removed).Accepted id ↔ id ≠ removed ∧ handle.Accepted id := by
  simp only [Accepted, withoutRecord, OrderedMap.lookup_erase_eq_some_iff, and_assoc,
    exists_and_left]

/-- A new outgoing connection takes no id from the list. -/
theorem mirrors_connect_iff (mirrors : handle.Mirrors history) (ip : CString) (port : Int)
    (connected : Bool) (fresh : Int × Bool) (result : Except Stop Int) :
    (handle.withConnection ip port fresh).wrapBevId.Mirrors
        (history ++ [(.connect ip port connected fresh, result)]) ↔
      ¬handle.Accepted handle.maxBevId := by
  have exact : ∀ id, (handle.withConnection ip port fresh).wrapBevId.Accepted id ↔
      if id = handle.maxBevId then False else handle.Accepted id := by
    intro id
    refine (accepted_insert (freshRecord ip port false fresh) handle.maxBevId).trans ?_
    simp [freshRecord]
  constructor
  · intro after accepted
    have listed := (after.exact handle.maxBevId).mp ((mirrors.exact _).mpr accepted)
    rw [exact, if_pos rfl] at listed
    exact listed
  · intro vacant
    refine ⟨?_, mirrors.once, ?_⟩
    · intro id
      rw [exact]
      by_cases same : id = handle.maxBevId
      · rw [if_pos same, iff_false, same]
        exact fun listed => vacant ((mirrors.exact _).mp listed)
      · rw [if_neg same]
        exact mirrors.exact id
    · rw [acceptedIds_concat]
      exact mirrors.order

/-- A connection that is accepted goes to the end of the list. -/
theorem mirrors_listen_iff (mirrors : handle.Mirrors history) (ip : CString) (port : Int)
    (fresh : Int × Bool) :
    (handle.withListener ip port fresh).wrapBevId.Mirrors
        (history ++ [(.listen ip port fresh, .ok handle.maxBevId)]) ↔
      ¬handle.Accepted handle.maxBevId := by
  have list : (handle.withListener ip port fresh).wrapBevId.listenIdVector =
      handle.listenIdVector ++ [handle.maxBevId] := rfl
  constructor
  · intro after accepted
    have once := after.once
    rw [list, List.nodup_append'] at once
    exact once.2.2 ((mirrors.exact _).mpr accepted) (List.mem_singleton.mpr rfl)
  · intro vacant
    refine ⟨?_, ?_, ?_⟩
    · intro id
      refine Iff.trans ?_ (accepted_insert (freshRecord ip port true fresh) handle.maxBevId).symm
      rw [list, List.mem_append, List.mem_singleton, mirrors.exact]
      by_cases same : id = handle.maxBevId
      · simp [same, freshRecord]
      · simp [same]
    · rw [list, List.nodup_append']
      refine ⟨mirrors.once, List.nodup_singleton _, ?_⟩
      intro id listed last
      rw [List.mem_singleton.mp last] at listed
      exact vacant ((mirrors.exact _).mp listed)
    · rw [acceptedIds_concat, list, mirrors.order]
      rfl

/-- A removal that leaves the list as it is. -/
theorem mirrors_remove_unlisted {after : LibeventHandle} (mirrors : handle.Mirrors history)
    (unlisted : ¬handle.Accepted id) (list : after.listenIdVector = handle.listenIdVector)
    (accepted : ∀ other, after.Accepted other ↔ handle.Accepted other) (returned : Int) :
    after.Mirrors (history ++ [(.remove id, .ok returned)]) := by
  have absent : id ∉ handle.listenIdVector := fun listed => unlisted ((mirrors.exact id).mp listed)
  refine ⟨?_, ?_, ?_⟩
  · intro other
    rw [list, accepted]
    exact mirrors.exact other
  · rw [list]
    exact mirrors.once
  · rw [acceptedIds_concat, list, noteAccepted, ← mirrors.order]
    refine (List.filter_eq_self.mpr ?_).symm
    intro other listed
    rw [decide_eq_true_iff]
    rintro rfl
    exact absent listed

/-- Removing an accepted connection erases its own entry when it stands at its position. -/
theorem mirrors_remove_iff (mirrors : handle.Mirrors history) (accepted : handle.Accepted id)
    (returned : Int) :
    ((handle.withoutRecord id).withoutEntry id.toNat).Mirrors
        (history ++ [(.remove id, .ok returned)]) ↔
      handle.listenIdVector[id.toNat]? = some id := by
  have list : ((handle.withoutRecord id).withoutEntry id.toNat).listenIdVector =
      handle.listenIdVector.eraseIdx id.toNat := rfl
  have listed := (mirrors.exact id).mpr accepted
  have removed : acceptedIds (history ++ [(.remove id, .ok returned)]) =
      handle.listenIdVector.filter (· ≠ id) := by
    rw [acceptedIds_concat, mirrors.order]
    rfl
  rw [← eraseIdx_eq_filter_iff mirrors.once listed, ← removed, ← list]
  constructor
  · exact Mirrors.order
  · intro order
    refine ⟨?_, ?_, order⟩
    · intro other
      refine Iff.trans ?_ (accepted_withoutRecord id).symm
      rw [order, removed, List.mem_filter, decide_eq_true_iff, mirrors.exact, and_comm]
    · rw [list]
      exact mirrors.once.eraseIdx _

/-- A call that is known to return has one result. -/
theorem mirrors_of_returned_iff {call : TableCall} {result : Except Stop (LibeventHandle × Int)}
    {after : LibeventHandle} {returned : Int} (same : result = .ok (after, returned)) :
    (∃ other value, result = .ok (other, value) ∧
        other.Mirrors (history ++ [(call, .ok value)])) ↔
      after.Mirrors (history ++ [(call, .ok returned)]) := by
  subst same
  constructor
  · rintro ⟨other, value, same, kept⟩
    cases same
    exact kept
  · exact fun kept => ⟨after, returned, rfl, kept⟩

/-- A removal of anything but an accepted connection returns and leaves the list alone. -/
theorem mirrors_remove_unaccepted (free : handle.AllFree) (mirrors : handle.Mirrors history)
    (unlisted : ¬handle.Accepted id) :
    ∃ after returned, handle.tableCall (.remove id) = .ok (after, returned) ∧
      after.Mirrors (history ++ [(.remove id, .ok returned)]) := by
  cases found : handle.bevMap.lookup id with
  | none =>
      exact ⟨_, _, tableCall_remove_absent free found,
        mirrors_remove_unlisted mirrors unlisted rfl (fun _ => Iff.rfl) _⟩
  | some info =>
      have outgoing : ¬info.isListen = true := fun listens => unlisted ⟨info, found, listens⟩
      have list : (handle.withoutRecord id).listenIdVector = handle.listenIdVector := rfl
      refine ⟨_, _, tableCall_remove_outgoing free found outgoing,
        mirrors_remove_unlisted mirrors unlisted list (fun other => ?_) _⟩
      rw [accepted_withoutRecord, and_iff_right_iff_imp]
      rintro listed rfl
      exact unlisted listed

/-- A call returns and the list still mirrors the table exactly when the call keeps it. -/
theorem tableCall_mirrors_iff (free : handle.AllFree) (mirrors : handle.Mirrors history)
    (call : TableCall) :
    (∃ after returned, handle.tableCall call = .ok (after, returned) ∧
        after.Mirrors (history ++ [(call, .ok returned)])) ↔
      handle.KeepsList call := by
  cases call with
  | connect ip port connected fresh =>
      cases connected with
      | false =>
          rw [mirrors_of_returned_iff
            (show handle.tableCall (.connect ip port false fresh) = .ok _ from rfl)]
          refine iff_of_true ⟨mirrors.exact, mirrors.once, ?_⟩ fun opened => Bool.noConfusion opened
          rw [acceptedIds_concat]
          exact mirrors.order
      | true =>
          rw [mirrors_of_returned_iff (tableCall_connect free ip port fresh),
            mirrors_connect_iff mirrors, KeepsList, forall_prop_of_true rfl]
  | listen ip port fresh =>
      rw [mirrors_of_returned_iff (tableCall_listen free ip port fresh),
        mirrors_listen_iff mirrors]
      rfl
  | remove id =>
      by_cases accepted : handle.Accepted id
      · rw [KeepsList, forall_prop_of_true accepted]
        by_cases inside : 0 ≤ id ∧ id < handle.listenIdVector.length
        · have result := tableCall_remove_accepted free accepted
          rw [if_pos inside] at result
          rw [mirrors_of_returned_iff result, mirrors_remove_iff mirrors accepted,
            and_iff_right inside.1]
        · rw [tableCall_remove_accepted free accepted, if_neg inside]
          constructor
          · rintro ⟨after, returned, failed, _⟩
            cases failed
          · rintro ⟨positive, found⟩
            have bound := (List.getElem?_eq_some_iff.mp found).1
            omega
      · exact iff_of_true (mirrors_remove_unaccepted free mirrors accepted)
          fun listed => absurd listed accepted

/-! ## Runs -/

variable {calls : List TableCall}

theorem exec_tableCalls_concat (calls : List TableCall) (call : TableCall)
    (reached : tableCalls.exec (.ok .initHandle) calls = .ok handle) :
    tableCalls.exec (.ok .initHandle) (calls ++ [call]) = (handle.tableCall call).map Prod.fst := by
  rw [Machine.exec_concat, reached]
  rfl

theorem trace_tableCalls_concat (calls : List TableCall) (call : TableCall)
    (reached : tableCalls.exec (.ok .initHandle) calls = .ok handle) :
    tableCalls.trace (.ok .initHandle) (calls ++ [call]) =
      tableCalls.trace (.ok .initHandle) calls ++
        [(call, (handle.tableCall call).map Prod.snd)] := by
  rw [Machine.trace_concat, reached]
  rfl

/-- A run that returns has returned before its last call. -/
theorem exists_before_concat {call : TableCall}
    (reached : tableCalls.exec (.ok .initHandle) (calls ++ [call]) = .ok handle) :
    ∃ earlier id, tableCalls.exec (.ok .initHandle) calls = .ok earlier ∧
      earlier.tableCall call = .ok (handle, id) := by
  cases before : tableCalls.exec (.ok .initHandle) calls with
  | error stop =>
      rw [Machine.exec_concat, before] at reached
      cases reached
  | ok earlier =>
      rw [exec_tableCalls_concat calls call before] at reached
      cases result : earlier.tableCall call with
      | error stop =>
          rw [result] at reached
          cases reached
      | ok returned =>
          rw [result] at reached
          cases reached
          exact ⟨earlier, returned.2, rfl, result⟩

/-- The locks are free in every handle that is reached. -/
theorem reached_free (reached : tableCalls.exec (.ok .initHandle) calls = .ok handle) :
    handle.AllFree := by
  induction calls using List.reverseRecOn generalizing handle with
  | nil =>
      cases reached
      exact HandleState.initHandle_free
  | append_singleton calls call ih =>
      rcases exists_before_concat reached with ⟨earlier, id, before, result⟩
      exact tableCall_free (ih before) result

theorem listMirrors_concat (calls : List TableCall) (call : TableCall)
    (reached : tableCalls.exec (.ok .initHandle) calls = .ok handle)
    (mirrors : handle.Mirrors (tableCalls.trace (.ok .initHandle) calls)) :
    ListMirrors (calls ++ [call]) ↔ handle.KeepsList call := by
  rw [← tableCall_mirrors_iff (reached_free reached) mirrors call, ListMirrors,
    exec_tableCalls_concat calls call reached, trace_tableCalls_concat calls call reached]
  cases handle.tableCall call with
  | error stop => simp [Except.map]
  | ok returned =>
      rcases returned with ⟨after, id⟩
      simp [Except.map]

theorem listMirrors_nil : ListMirrors [] := by
  refine ⟨.initHandle, rfl, ?_, List.nodup_nil, rfl⟩
  intro id
  refine iff_of_false List.not_mem_nil ?_
  rintro ⟨info, found, _⟩
  cases found

/-- After every call of a run the list mirrors the table if and only if every call keeps
it: no new connection gets the id of an accepted one, and every accepted connection that is
removed stands at its own position. -/
theorem listMirrors_iff (calls : List TableCall) :
    (∀ initial, initial <+: calls → ListMirrors initial) ↔
      tableCalls.Respects (.ok .initHandle)
        (fun _ before call => ∀ handle, before = .ok handle → handle.KeepsList call) calls := by
  refine Machine.prefixes_iff_respects listMirrors_nil ?_ calls
  rintro calls call ⟨handle, reached, mirrors⟩
  rw [listMirrors_concat calls call reached mirrors, reached]
  simp only [Except.ok.injEq, forall_eq']

/-! ## Before ids wrap -/

/-- Ascending values rise by at least one at each position. -/
theorem rise_of_ascending {values : List Int} (ascending : values.Pairwise (· < ·))
    {first last : Nat} (le : first ≤ last) (here : first < values.length)
    (there : last < values.length) : values[first] + (last - first : Nat) ≤ values[last] := by
  induction last, le using Nat.le_induction with
  | base => omega
  | succ last le ih =>
      have before := ih (by omega)
      have less := List.pairwise_iff_getElem.mp ascending last (last + 1) (by omega) there
        (by omega)
      omega

/-- Ascending ids are at least their positions. -/
theorem le_getElem_of_ascending {values : List Int} (ascending : values.Pairwise (· < ·))
    (positive : ∀ value ∈ values, 0 ≤ value) {position : Nat} (inside : position < values.length) :
    (position : Int) ≤ values[position] := by
  have rise := rise_of_ascending ascending (Nat.zero_le position) (by omega) inside
  have least := positive _ (List.getElem_mem (by omega : 0 < values.length))
  omega

/-- In an ascending list of ids an id stands at its own position exactly when all smaller
ids are there. -/
theorem getElem?_self_iff {values : List Int} (ascending : values.Pairwise (· < ·))
    (positive : ∀ value ∈ values, 0 ≤ value) (member : id ∈ values) :
    values[id.toNat]? = some id ↔ ∀ smaller, 0 ≤ smaller → smaller < id → smaller ∈ values := by
  constructor
  · intro found smaller least below
    rcases List.getElem?_eq_some_iff.mp found with ⟨inside, here⟩
    have earlier : smaller.toNat < values.length := by omega
    -- Between the two positions the values rise by at least the difference of the ids.
    have rise := rise_of_ascending ascending (by omega : smaller.toNat ≤ id.toNat) earlier inside
    have lower := le_getElem_of_ascending ascending positive earlier
    have same : values[smaller.toNat] = smaller := by omega
    rw [← same]
    exact List.getElem_mem earlier
  · intro all
    have own : ∀ index : Nat, (index : Int) ≤ id → values[index]? = some (index : Int) := by
      intro index
      induction index using Nat.strong_induction_on with
      | _ index ih =>
          intro bound
          have there : (index : Int) ∈ values := by
            by_cases last : (index : Int) = id
            · rw [last]
              exact member
            · exact all index (by omega) (by omega)
          rcases List.mem_iff_getElem.mp there with ⟨position, inside, found⟩
          have least := le_getElem_of_ascending ascending positive inside
          by_cases same : position = index
          · rw [← same, List.getElem?_eq_getElem inside, found, same]
          · have earlier := ih position (by omega) (by omega)
            rw [List.getElem?_eq_getElem inside, found, Option.some.injEq] at earlier
            omega
    have last := own id.toNat (by have := positive id member; omega)
    rw [last, Int.toNat_of_nonneg (positive id member)]

/-- The list ascends, and `max_bev_id` has counted the calls without wrapping. -/
structure Ascending (handle : LibeventHandle) (count : Nat) : Prop where
  ascends : handle.listenIdVector.Pairwise (· < ·)
  given : ∀ id ∈ handle.listenIdVector, 0 ≤ id ∧ id < handle.maxBevId
  counted : 0 ≤ handle.maxBevId ∧ handle.maxBevId ≤ count

theorem wrapBevId_eq (least : 0 ≤ handle.maxBevId) (small : handle.maxBevId < 2 ^ 31) :
    handle.wrapBevId = handle := by
  rw [wrapBevId, Int.bmod_eq_of_le]
  · omega
  · omega

/-- A removal takes ids out of the list and gives none. -/
theorem tableCall_remove_sublist (free : handle.AllFree) {removed returned : Int}
    {after : LibeventHandle} (result : handle.tableCall (.remove removed) = .ok (after, returned)) :
    after.maxBevId = handle.maxBevId ∧
      List.Sublist after.listenIdVector handle.listenIdVector := by
  cases found : handle.bevMap.lookup removed with
  | none =>
      rw [tableCall_remove_absent free found] at result
      cases result
      exact ⟨rfl, List.Sublist.refl _⟩
  | some info =>
      by_cases listens : info.isListen = true
      · rw [tableCall_remove_accepted free ⟨info, found, listens⟩] at result
        split at result
        · cases result
          exact ⟨rfl, List.eraseIdx_sublist _ _⟩
        · cases result
      · rw [tableCall_remove_outgoing free found listens] at result
        cases result
        exact ⟨rfl, List.Sublist.refl _⟩

theorem Ascending.tableCall {count : Nat} (ascending : handle.Ascending count)
    (free : handle.AllFree) (short : count + 1 < 2 ^ 31) {call : TableCall}
    {after : LibeventHandle} (returned : handle.tableCall call = .ok (after, id)) :
    after.Ascending (count + 1) := by
  have counted := ascending.counted
  have grown : ∀ id ∈ handle.listenIdVector, 0 ≤ id ∧ id < handle.maxBevId + 1 := by
    intro id listed
    have bounds := ascending.given id listed
    omega
  cases call with
  | connect ip port connected fresh =>
      cases connected with
      | false =>
          cases returned
          rw [wrapBevId_eq counted.1 (by omega)]
          exact ⟨ascending.ascends, ascending.given, by omega⟩
      | true =>
          rw [tableCall_connect free] at returned
          cases returned
          have next : (handle.withConnection ip port fresh).maxBevId = handle.maxBevId + 1 := rfl
          rw [wrapBevId_eq (by rw [next]; omega) (by rw [next]; omega)]
          exact ⟨ascending.ascends, grown, by rw [next]; omega⟩
  | listen ip port fresh =>
      rw [tableCall_listen free] at returned
      cases returned
      have next : (handle.withListener ip port fresh).maxBevId = handle.maxBevId + 1 := rfl
      rw [wrapBevId_eq (by rw [next]; omega) (by rw [next]; omega)]
      refine ⟨?_, ?_, by rw [next]; omega⟩
      · refine List.pairwise_append.mpr ⟨ascending.ascends, List.pairwise_singleton _ _, ?_⟩
        intro id listed last member
        rw [List.mem_singleton.mp member]
        exact (ascending.given id listed).2
      · intro id listed
        rcases List.mem_append.mp listed with old | new
        · exact grown id old
        · rw [List.mem_singleton.mp new, next]
          omega
  | remove removed =>
      have same := tableCall_remove_sublist free returned
      refine ⟨ascending.ascends.sublist same.2, ?_, by rw [same.1]; omega⟩
      intro id listed
      rw [same.1]
      exact ascending.given id (same.2.subset listed)

theorem reached_ascending (short : calls.length < 2 ^ 31)
    (reached : tableCalls.exec (.ok .initHandle) calls = .ok handle) :
    handle.Ascending calls.length := by
  induction calls using List.reverseRecOn generalizing handle with
  | nil =>
      cases reached
      exact ⟨List.Pairwise.nil, fun _ listed => absurd listed List.not_mem_nil, by decide⟩
  | append_singleton calls call ih =>
      rw [List.length_append, List.length_singleton] at short ⊢
      rcases exists_before_concat reached with ⟨earlier, id, before, result⟩
      exact (ih (by omega) before).tableCall (reached_free before) short result

/-- While ids do not wrap, a call keeps the list unless it removes an accepted connection
and some smaller id is not that of an accepted connection in the table. -/
theorem keepsList_iff (short : calls.length < 2 ^ 31)
    (reached : tableCalls.exec (.ok .initHandle) calls = .ok handle)
    (mirrors : handle.Mirrors history) (call : TableCall) :
    handle.KeepsList call ↔ ∀ id, call = .remove id → handle.Accepted id →
      ∀ smaller, 0 ≤ smaller → smaller < id → handle.Accepted smaller := by
  have ascending := reached_ascending short reached
  have vacant : ¬handle.Accepted handle.maxBevId := by
    intro accepted
    have bounds := ascending.given _ ((mirrors.exact _).mpr accepted)
    omega
  cases call with
  | connect ip port connected fresh => exact iff_of_true (fun _ => vacant) (by simp)
  | listen ip port fresh => exact iff_of_true vacant (by simp)
  | remove id =>
      simp only [KeepsList, TableCall.remove.injEq, forall_eq']
      refine forall_congr' fun accepted => ?_
      have listed := (mirrors.exact id).mpr accepted
      have positive := fun value member => (ascending.given value member).1
      rw [and_iff_right (positive id listed),
        getElem?_self_iff ascending.ascends positive listed]
      simp only [mirrors.exact]

/-- The only accepted connection has id 1 and stands at position 0: removing it erases past
the end. -/
theorem remove_listener_past_end :
    tableCalls.exec (.ok .initHandle) [.connect (.ofString "127.0.0.1") 9000 true (0, false),
        .listen (.ofString "127.0.0.1") 50000 (0, false), .remove 1] = .error .undefined ∧
      ¬ListMirrors [.connect (.ofString "127.0.0.1") 9000 true (0, false),
        .listen (.ofString "127.0.0.1") 50000 (0, false), .remove 1] := by
  refine ⟨rfl, ?_⟩
  rintro ⟨handle, reached, _⟩
  cases reached

end LibeventHandle

end MultiMaster.NetIO
