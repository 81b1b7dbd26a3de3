import MultiMaster.NetIO.ListenList

/-!
# Freeing a handle

`free_handle` is meant to remove the connections one after another until the table is
empty.  Its loop runs while the table is empty instead: without connections it takes the
first element of an empty map, and with connections it does not run at all.
-/

namespace MultiMaster.NetIO

open Foundation

namespace LibeventHandle

variable {handle : LibeventHandle}

/-- The loop of `free_handle` with the number of rounds it may take.  The list holds what
`remove_buffevent` has returned. -/
def freeLoop : Nat → LibeventHandle → List Int → Except Stop (LibeventHandle × List Int)
  | 0, _, _ => .error .spinning
  | rounds + 1, handle, released =>
      if handle.bevMap.entries.isEmpty then
        match handle.bevMap.entries.head? with
        | none => .error .undefined
        | some it => do
            let removed ← handle.removeBuffevent it.1
            freeLoop rounds removed.1 (released ++ [removed.2])
      else
        .ok (handle, released)

/-- The handle, what `remove_buffevent` has returned, and the return value. -/
def freeHandle (handle : LibeventHandle) (isFree : Bool) (rounds : Nat) :
    Except Stop (LibeventHandle × List Int × Bool) :=
  if isFree then
    .ok (handle, [], false)
  else do
    let locked ← orStop .spinning (rwWLock handle.bevMapRwLockSingal)
    let looped ← freeLoop rounds { handle with bevMapRwLockSingal := locked } []
    return ({ looped.1 with
      bevMapRwLockSingal := rwWUnlock looped.1.bevMapRwLockSingal
      bevMap := OrderedMap.empty
      listenIdVector := [] }, looped.2, true)

/-- The loop ends, every connection is successfully removed once, and nothing is left in the
table and the list. -/
def FreesEverything (handle : LibeventHandle) : Prop :=
  ∃ rounds after released, handle.freeHandle false rounds = .ok (after, released, true) ∧
    released.Perm (handle.bevMap.entries.map Prod.fst) ∧
    after.bevMap.entries = [] ∧ after.listenIdVector = []

/-- Without connections the loop follows an iterator to no element. -/
theorem freeHandle_empty (free : handle.AllFree) (empty : handle.bevMap.entries = [])
    (rounds : Nat) : handle.freeHandle false (rounds + 1) = .error .undefined := by
  rw [freeHandle, if_neg Bool.false_ne_true, rwWLock_free free.table, orStop_some, ok_bind,
    freeLoop, empty]
  rfl

/-- With connections none is removed; the table and the list are only cleared. -/
theorem freeHandle_connections (free : handle.AllFree) (some : handle.bevMap.entries ≠ [])
    (rounds : Nat) :
    handle.freeHandle false (rounds + 1) =
      .ok ({ handle with bevMap := OrderedMap.empty, listenIdVector := [] }, [], true) := by
  have filled : ¬handle.bevMap.entries.isEmpty = true := by
    rw [List.isEmpty_iff]
    exact some
  rw [freeHandle, if_neg Bool.false_ne_true, rwWLock_free free.table, orStop_some, ok_bind,
    freeLoop, if_neg filled, free.table]
  rfl

theorem not_freesEverything (free : handle.AllFree) : ¬handle.FreesEverything := by
  rintro ⟨rounds, after, released, freed, all, _⟩
  cases rounds with
  | zero =>
      rw [freeHandle, if_neg Bool.false_ne_true, rwWLock_free free.table] at freed
      cases freed
  | succ rounds =>
      by_cases empty : handle.bevMap.entries = []
      · rw [freeHandle_empty free empty] at freed
        cases freed
      · rw [freeHandle_connections free empty] at freed
        cases freed
        rw [List.nil_perm, List.map_eq_nil_iff] at all
        exact empty all

/-- A call that adds a connection. -/
def Adds : TableCall → Prop
  | .connect _ _ _ _ | .listen _ _ _ => True
  | .remove _ => False

/-- Connections can always be added. -/
theorem exists_reached_adds {calls : List TableCall} (adds : ∀ call ∈ calls, Adds call) :
    ∃ handle, tableCalls.exec (.ok .initHandle) calls = .ok handle := by
  induction calls using List.reverseRecOn with
  | nil => exact ⟨.initHandle, rfl⟩
  | append_singleton calls call ih =>
      rcases ih fun earlier member => adds earlier (List.mem_append_left _ member) with
        ⟨handle, reached⟩
      have last := adds call (List.mem_append_right _ (List.mem_singleton.mpr rfl))
      rw [exec_tableCalls_concat calls call reached]
      cases call with
      | connect ip port connected fresh =>
          cases connected with
          | false => exact ⟨_, rfl⟩
          | true =>
              rw [tableCall_connect (reached_free reached)]
              exact ⟨_, rfl⟩
      | listen ip port fresh =>
          rw [tableCall_listen (reached_free reached)]
          exact ⟨_, rfl⟩
      | remove id => exact last.elim

/-- Whatever connections were added, freeing the handle does not free them. -/
theorem freeHandle_never_frees (calls : List TableCall) (adds : ∀ call ∈ calls, Adds call) :
    ∃ handle, tableCalls.exec (.ok .initHandle) calls = .ok handle ∧ ¬handle.FreesEverything := by
  rcases exists_reached_adds adds with ⟨handle, reached⟩
  exact ⟨handle, reached, not_freesEverything (reached_free reached)⟩

/-- An outgoing and an accepted connection. -/
theorem freeHandle_never_frees_two :
    ∃ handle, tableCalls.exec (.ok .initHandle)
        [.connect (.ofString "127.0.0.1") 9000 true (0, false),
          .listen (.ofString "127.0.0.1") 50000 (0, false)] = .ok handle ∧
      ¬handle.FreesEverything := by
  refine freeHandle_never_frees [.connect (.ofString "127.0.0.1") 9000 true (0, false),
    .listen (.ofString "127.0.0.1") 50000 (0, false)] ?_
  intro call member
  rcases List.mem_cons.mp member with rfl | member
  · trivial
  · rw [List.mem_singleton.mp member]
    trivial

/-- A handle without connections: the loop takes the first element of an empty map. -/
theorem freeHandle_takes_missing_element :
    LibeventHandle.initHandle.freeHandle false 1 = .error .undefined ∧
      ¬LibeventHandle.initHandle.FreesEverything :=
  ⟨rfl, not_freesEverything HandleState.initHandle_free⟩

end LibeventHandle

end MultiMaster.NetIO
