import Mathlib.Algebra.BigOperators.Group.Finset.Piecewise
import Mathlib.Logic.Function.Basic
import MultiMaster.Foundation.Machine

/-!
# Interleaved threads

Threads run one program over a shared state.  One atomic step of one thread is taken at a
time, in any order.  The module supplies the machine whose inputs are the threads that move,
properties a thread keeps by itself, sections of the program that at most one thread is
in as long as no thread enters while another is inside, and the number of threads in a
section.
-/

namespace MultiMaster.Foundation

universe u v w

/-- An atomic step from the shared state and a thread's own, with what it did. -/
structure Program (Shared Local : Type u) (Action : Type w) where
  step : Shared → Local → Shared × Local × Action

/-- A shared state and the states of all threads. -/
structure Threads (Thread : Type v) (Shared Local : Type u) where
  shared : Shared
  locals : Thread → Local

namespace Program

variable {Thread : Type u} {Shared Local : Type u} {Action : Type w} [DecidableEq Thread]
variable (program : Program Shared Local Action)

/-- All threads together.  An input names the thread that takes the next step. -/
def interleaved : Machine (Threads Thread Shared Local) Thread Action where
  step state thread :=
    let next := program.step state.shared (state.locals thread)
    (⟨next.1, Function.update state.locals thread next.2.1⟩, next.2.2)

@[simp] theorem locals_step_self (state : Threads Thread Shared Local) (thread : Thread) :
    (program.interleaved.step state thread).1.locals thread =
      (program.step state.shared (state.locals thread)).2.1 :=
  Function.update_self _ _ _

theorem locals_step_of_ne (state : Threads Thread Shared Local) {thread other : Thread}
    (different : other ≠ thread) :
    (program.interleaved.step state thread).1.locals other = state.locals other :=
  Function.update_of_ne different _ _

/-- What a step of one thread leaves alone in that thread is as before in all of them. -/
theorem update_view {Value : Sort*} (view : Local → Value)
    {locals : Thread → Local} {thread : Thread} {later : Local}
    (same : view later = view (locals thread)) (other : Thread) :
    view (Function.update locals thread later other) = view (locals other) := by
  by_cases moved : other = thread
  · subst moved
    rw [Function.update_self, same]
  · rw [Function.update_of_ne moved]

variable {program}

/-- Whatever a thread keeps by its own steps, it keeps in every interleaving. -/
theorem locals_invariant {property : Local → Prop}
    (keeps : ∀ shared here, property here → property (program.step shared here).2.1)
    {start : Threads Thread Shared Local} {thread : Thread}
    (holds : property (start.locals thread)) (schedule : List Thread) :
    property ((program.interleaved.exec start schedule).locals thread) := by
  induction schedule generalizing start with
  | nil => exact holds
  | cons moving rest ih =>
      apply ih
      by_cases same : thread = moving
      · subst same
        rw [locals_step_self]
        exact keeps _ _ holds
      · rw [program.locals_step_of_ne start same]
        exact holds

/-! ## Critical sections -/

variable {enters inside : Local → Prop}

/-- At most one thread is in a section. -/
def Alone (inside : Local → Prop) (state : Threads Thread Shared Local) : Prop :=
  ∀ first second, inside (state.locals first) → inside (state.locals second) → first = second

/-- A thread that is about to enter a section finds no other thread in it. -/
def Exclusive (enters inside : Local → Prop) (state : Threads Thread Shared Local)
    (thread : Thread) : Prop :=
  enters (state.locals thread) → ∀ other, other ≠ thread → ¬inside (state.locals other)

/-- Sections that are only entered when empty hold at most one thread. -/
theorem alone_run
    (entering : ∀ shared here, inside (program.step shared here).2.1 → inside here ∨ enters here)
    {start : Threads Thread Shared Local} (alone : Alone inside start)
    {schedule : List Thread}
    (respects : program.interleaved.Respects start
      (fun _ state thread => Exclusive enters inside state thread) schedule) :
    Alone inside (program.interleaved.exec start schedule) := by
  refine Machine.exec_invariant alone ?_ respects
  intro _ state thread alone exclusive
  have only : ∀ other, other ≠ thread → inside (state.locals other) →
      ¬inside (program.step state.shared (state.locals thread)).2.1 := by
    intro other different occupied entered
    rcases entering _ _ entered with stayed | entry
    · exact different (alone other thread occupied stayed)
    · exact exclusive entry other different occupied
  intro first second firstInside secondInside
  by_cases firstMoves : first = thread
  · by_cases secondMoves : second = thread
    · rw [firstMoves, secondMoves]
    · rw [firstMoves, locals_step_self] at firstInside
      rw [program.locals_step_of_ne state secondMoves] at secondInside
      exact absurd firstInside (only second secondMoves secondInside)
  · rw [program.locals_step_of_ne state firstMoves] at firstInside
    by_cases secondMoves : second = thread
    · rw [secondMoves, locals_step_self] at secondInside
      exact absurd secondInside (only first firstMoves firstInside)
    · rw [program.locals_step_of_ne state secondMoves] at secondInside
      exact alone first second firstInside secondInside

/-! ## Populations -/

section Populations

variable [Fintype Thread] {property : Local → Prop} [DecidablePred property]
variable {locals : Thread → Local}

/-- The number of threads with a property. -/
def population (property : Local → Prop) [DecidablePred property] (locals : Thread → Local) :
    Nat :=
  (Finset.univ.filter fun thread => property (locals thread)).card

/-- One thread changes the number by itself alone. -/
theorem population_update (locals : Thread → Local) (thread : Thread) (later : Local) :
    population property (Function.update locals thread later) +
        (if property (locals thread) then 1 else 0) =
      population property locals + (if property later then 1 else 0) := by
  let weight (here : Local) : Nat := if property here then 1 else 0
  have moved : population property (Function.update locals thread later) =
      weight later + ∑ other ∈ Finset.univ \ {thread}, weight (locals other) := by
    rw [population, Finset.card_filter, ← Finset.sum_update_of_mem (Finset.mem_univ thread)]
    exact Finset.sum_congr rfl fun other _ =>
      Function.apply_update (fun _ => weight) locals thread later other
  have split : weight (locals thread) +
      ∑ other ∈ Finset.univ \ {thread}, weight (locals other) = population property locals := by
    rw [population, Finset.card_filter]
    exact (Finset.sum_eq_add_sum_sdiff_singleton_of_mem (Finset.mem_univ thread)
      fun other => weight (locals other)).symm
  rw [moved, ← split]
  dsimp only [weight]
  omega

omit [DecidableEq Thread] in
theorem population_eq_zero_iff :
    population property locals = 0 ↔ ∀ thread, ¬property (locals thread) := by
  rw [population, Finset.card_eq_zero, Finset.filter_eq_empty_iff]
  simp

omit [DecidableEq Thread] in
theorem population_le_one_iff :
    population property locals ≤ 1 ↔
      ∀ first second, property (locals first) → property (locals second) → first = second := by
  rw [population, Finset.card_le_one_iff]
  simp only [Finset.mem_filter, Finset.mem_univ, true_and]

end Populations

end Program

end MultiMaster.Foundation
