import Mathlib.Data.List.Infix

/-!
# Turns that end early

A server takes items in the order in which they arrive.  A turn takes what is there, but
ends with the first item that stops it; what has arrived behind that item waits for
another turn.  The module determines the turn in which an item is taken: each stopping
item in front of it must have arrived one turn earlier for every stopping item from there
on.
-/

namespace MultiMaster.Foundation

universe u

variable {α : Type u} {stops : α → Bool}

/-- A prefix that ends with an item ends inside the first of two lists or inside the
second. -/
theorem concat_prefix_append {done rest front : List α} {item : α}
    (among : front ++ [item] <+: done ++ rest) :
    front ++ [item] <+: done ∨ ∃ mine, front = done ++ mine ∧ mine ++ [item] <+: rest := by
  rcases List.prefix_or_prefix_of_prefix among (List.prefix_append done rest) with
    inside | ⟨mine, same⟩
  · exact .inl inside
  · cases mine using List.reverseRecOn with
    | nil => exact .inl ((List.append_nil done ▸ same) ▸ List.prefix_rfl)
    | append_singleton mine last =>
        rw [← List.append_assoc] at same
        rcases List.append_inj' same rfl with ⟨rfl, lastSame⟩
        cases lastSame
        rw [List.append_assoc, List.prefix_append_right_inj] at among
        exact .inr ⟨mine, rfl, among⟩

/-! ## One turn -/

/-- The items that a turn takes.  `idle` says that it has left none behind. -/
inductive Turn (stops : α → Bool) (idle : Prop) : List α → Prop where
  | idle (empty : idle) : Turn stops idle []
  | stop {item : α} (stopping : stops item = true) : Turn stops idle [item]
  | pass {item : α} {rest : List α} (passing : stops item = false)
      (next : Turn stops idle rest) : Turn stops idle (item :: rest)

namespace Turn

variable {idle arrived : Prop} {taken done later front before after : List α} {item other : α}

/-- Nothing is taken behind a stopping item. -/
theorem stopping_last (turn : Turn stops idle taken) (split : taken = before ++ other :: after)
    (stopping : stops other = true) : after = [] := by
  induction turn generalizing before with
  | idle empty => simp at split
  | stop _ =>
      rcases List.append_eq_singleton_iff.mp split.symm with ⟨_, same⟩ | ⟨_, same⟩
      · exact (List.cons.inj same).2
      · cases same
  | pass passing next ih =>
      cases before with
      | nil =>
          cases split
          rw [passing] at stopping
          cases stopping
      | cons first before => exact ih (List.cons.inj split).2

/-- A turn that leaves items behind has taken a stopping one. -/
theorem idle_or_stopped (turn : Turn stops idle taken) :
    idle ∨ ∃ front last, taken = front ++ [last] ∧ stops last = true := by
  induction turn with
  | idle empty => exact .inl empty
  | stop stopping => exact .inr ⟨[], _, rfl, stopping⟩
  | @pass item _ _ _ ih =>
      rcases ih with empty | ⟨front, last, rfl, stopping⟩
      · exact .inl empty
      · exact .inr ⟨item :: front, last, rfl, stopping⟩

/-- After a turn an item has been taken when it has arrived and the stopping items in front
of it were taken in earlier turns. -/
theorem prefix_iff (turn : Turn stops idle taken)
    (among : front ++ [item] <+: done ++ taken ++ later)
    (came : front ++ [item] <+: done ++ taken → arrived)
    (all : idle → arrived → front ++ [item] <+: done ++ taken) :
    front ++ [item] <+: done ++ taken ↔ arrived ∧
      ∀ before other between, front = before ++ other :: between → stops other = true →
        before ++ [other] <+: done := by
  constructor
  · intro reached
    refine ⟨came reached, ?_⟩
    rintro before other between rfl stopping
    have shorter : before ++ [other] <+: done ++ taken := by
      refine .trans ?_ reached
      simp
    rcases concat_prefix_append shorter with early | ⟨mine, rfl, _⟩
    · exact early
    · rcases reached with ⟨rest, whole⟩
      have split : taken = mine ++ other :: (between ++ item :: rest) := by
        rw [← List.append_cancel_left_eq done, ← whole]
        simp
      have none := turn.stopping_last split stopping
      simp at none
  · rintro ⟨here, earlier⟩
    rcases turn.idle_or_stopped with empty | ⟨mine, last, rfl, stopping⟩
    · exact all empty here
    · rcases concat_prefix_append among with reached | ⟨rest, whole, _⟩
      · exact reached
      · have split : front = (done ++ mine) ++ last :: rest := by
          rw [whole]
          simp
        have early := (earlier _ _ _ split stopping).length_le
        simp only [List.length_append, List.length_cons, List.length_nil] at early
        omega

end Turn

/-! ## Many turns -/

/-- An item has arrived, and each stopping item in front of it as many turns earlier as
there are stopping items from that one on. -/
def InTime (stops : α → Bool) (arrived : Nat → List α → Prop) (turn : Nat) (front : List α)
    (item : α) : Prop :=
  arrived turn (front ++ [item]) ∧
    ∀ before other between, front = before ++ other :: between → stops other = true →
      arrived (turn - (other :: between).countP stops) (before ++ [other])

/-- The last stopping item of a list, if there is one. -/
theorem exists_last_stopping (stops : α → Bool) (items : List α) :
    items.countP stops = 0 ∨ ∃ front last back,
      items = front ++ last :: back ∧ stops last = true ∧ back.countP stops = 0 := by
  induction items with
  | nil => exact .inl rfl
  | cons item items ih =>
      rcases ih with none | ⟨front, last, back, rfl, stopping, none⟩
      · by_cases stopping : stops item = true
        · exact .inr ⟨[], item, items, rfl, stopping, none⟩
        · rw [List.countP_cons_of_neg stopping]
          exact .inl none
      · exact .inr ⟨item :: front, last, back, rfl, stopping, none⟩

/-- An item is in time for the next turn when it arrives by then and the stopping items in
front of it are in time for this one. -/
theorem inTime_succ_iff {arrived : Nat → List α → Prop}
    (keeps : ∀ turn later items, turn ≤ later → arrived turn items → arrived later items)
    (turn : Nat) (front : List α) (item : α) : InTime stops arrived (turn + 1) front item ↔
      arrived (turn + 1) (front ++ [item]) ∧
        ∀ before other between, front = before ++ other :: between → stops other = true →
          InTime stops arrived turn before other := by
  rw [InTime, and_congr_right_iff]
  intro _
  constructor
  · intro early before other between split stopping
    refine ⟨?_, ?_⟩
    · apply keeps _ _ _ _ (early before other between split stopping)
      rw [List.countP_cons_of_pos stopping]
      omega
    · intro first earlier middle splitBefore stoppingEarlier
      have whole : front = first ++ earlier :: (middle ++ other :: between) := by
        rw [split, splitBefore, List.append_assoc, List.cons_append]
      apply keeps _ _ _ _ (early first earlier _ whole stoppingEarlier)
      simp only [List.countP_cons, List.countP_append, stopping, if_true]
      omega
  · intro early before other between split stopping
    rcases exists_last_stopping stops between with none | ⟨middle, last, back, rfl, final, none⟩
    · rw [List.countP_cons_of_pos stopping, none]
      exact (early before other between split stopping).1
    · have count : (other :: (middle ++ last :: back)).countP stops =
          (other :: middle).countP stops + 1 := by
        simp only [List.countP_cons, List.countP_append, final, none, if_true]
        omega
      have whole : front = (before ++ other :: middle) ++ last :: back := by
        rw [split, List.append_assoc, List.cons_append]
      rw [count, Nat.add_sub_add_right]
      exact (early _ last back whole final).2 before other middle rfl stopping

/-- The taken items contain all of a kind exactly when each of that kind was taken. -/
theorem filter_complete_iff (kind : α → Bool) (done rest : List α) :
    rest.filter kind = [] ↔ ∀ front item, front ++ [item] <+: done ++ rest →
      kind item = true → front ++ [item] <+: done := by
  rw [List.filter_eq_nil_iff]
  constructor
  · intro none front item among wanted
    rcases concat_prefix_append among with taken | ⟨mine, _, later⟩
    · exact taken
    · exact absurd wanted (none item (later.subset (by simp)))
  · intro every item member wanted
    rcases List.append_of_mem member with ⟨front, back, rfl⟩
    have taken := (every (done ++ front) item ⟨back, by simp⟩ wanted).length_le
    simp only [List.length_append, List.length_cons, List.length_nil] at taken
    omega

end MultiMaster.Foundation
