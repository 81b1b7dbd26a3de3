import Mathlib.Data.List.Basic
import Mathlib.Data.List.Induction
import Mathlib.Logic.Basic

/-!
# Deterministic machines and their histories

A machine answers one input at a time.  The module supplies runs, the history a
run leaves behind, invariants that relate a history to the state reached, and
the projection of a machine onto one of its components.

Properties of the form "granted and not released since" are stated with
`Since`, the past-time operator over finite histories.
-/

namespace MultiMaster.Foundation

universe u v w

/-- A deterministic machine: every input moves the state and is answered. -/
structure Machine (State : Type u) (Input : Type v) (Output : Type w) where
  step : State → Input → State × Output

/-- Where a distinguished element of a list sits once one more element is put
at the end. -/
theorem concat_eq_append_cons {α : Type u} {values before after : List α}
    {last value : α} (split : values ++ [last] = before ++ value :: after) :
    (before = values ∧ value = last ∧ after = []) ∨
      ∃ init, values = before ++ value :: init ∧ after = init ++ [last] := by
  rcases List.eq_nil_or_concat' after with rfl | ⟨init, final, rfl⟩
  · obtain ⟨rfl, same⟩ := List.append_inj' split rfl
    cases same
    exact .inl ⟨rfl, rfl, rfl⟩
  · rw [← List.cons_append, ← List.append_assoc] at split
    obtain ⟨rfl, same⟩ := List.append_inj' split rfl
    cases same
    exact .inr ⟨init, rfl, rfl⟩

namespace Machine

variable {State View : Type u} {Input : Type v} {Output : Type w}
variable (machine : Machine State Input Output) (start : State)

/-- State reached by a list of inputs. -/
def exec (start : State) : List Input → State
  | [] => start
  | input :: rest => exec (machine.step start input).1 rest

/-- Inputs of a run together with their answers, oldest first. -/
def trace (start : State) : List Input → List (Input × Output)
  | [] => []
  | input :: rest =>
      (input, (machine.step start input).2) ::
        trace (machine.step start input).1 rest

@[simp] theorem exec_nil : machine.exec start [] = start := rfl

@[simp] theorem exec_cons (input : Input) (rest : List Input) :
    machine.exec start (input :: rest) =
      machine.exec (machine.step start input).1 rest := rfl

@[simp] theorem trace_cons (input : Input) (rest : List Input) :
    machine.trace start (input :: rest) =
      (input, (machine.step start input).2) ::
        machine.trace (machine.step start input).1 rest := rfl

theorem exec_append (first second : List Input) :
    machine.exec start (first ++ second) =
      machine.exec (machine.exec start first) second := by
  induction first generalizing start with
  | nil => rfl
  | cons input rest ih => exact ih (machine.step start input).1

theorem trace_append (first second : List Input) :
    machine.trace start (first ++ second) =
      machine.trace start first ++
        machine.trace (machine.exec start first) second := by
  induction first generalizing start with
  | nil => rfl
  | cons input rest ih =>
      simp only [List.cons_append, trace_cons, exec_cons, ih]

theorem exec_concat (inputs : List Input) (input : Input) :
    machine.exec start (inputs ++ [input]) =
      (machine.step (machine.exec start inputs) input).1 := by
  rw [exec_append]
  rfl

theorem trace_concat (inputs : List Input) (input : Input) :
    machine.trace start (inputs ++ [input]) =
      machine.trace start inputs ++
        [(input, (machine.step (machine.exec start inputs) input).2)] := by
  rw [trace_append]
  rfl

/-- The history records exactly the inputs of the run. -/
@[simp] theorem map_fst_trace (inputs : List Input) :
    (machine.trace start inputs).map Prod.fst = inputs := by
  induction inputs generalizing start with
  | nil => rfl
  | cons input rest ih => simp [ih]

/-- Every step of a run meets a guard on the history and state before it. -/
def Respects (guard : List (Input × Output) → State → Input → Prop)
    (inputs : List Input) : Prop :=
  ∀ before input after, inputs = before ++ input :: after →
    guard (machine.trace start before) (machine.exec start before) input

variable {machine start}
variable {guard : List (Input × Output) → State → Input → Prop}

@[simp] theorem respects_nil : machine.Respects start guard [] := by
  intro before input after split
  simp at split

@[simp] theorem respects_concat {inputs : List Input} {input : Input} :
    machine.Respects start guard (inputs ++ [input]) ↔
      machine.Respects start guard inputs ∧
        guard (machine.trace start inputs) (machine.exec start inputs) input := by
  constructor
  · intro respects
    refine ⟨?_, respects inputs input [] rfl⟩
    intro before earlier after split
    apply respects before earlier (after ++ [input])
    rw [split, List.append_assoc, List.cons_append]
  · intro ⟨respects, last⟩ before earlier after split
    rcases concat_eq_append_cons split with ⟨rfl, rfl, rfl⟩ | ⟨init, rest, rfl⟩
    · exact last
    · exact respects before earlier init rest

/-- What a run respects, its beginnings respect. -/
theorem Respects.initial {inputs initial : List Input}
    (respects : machine.Respects start guard inputs) (front : initial <+: inputs) :
    machine.Respects start guard initial := by
  rcases front with ⟨rest, rfl⟩
  intro before input after split
  exact respects before input (after ++ rest) (by rw [split, List.append_assoc, List.cons_append])

/-- A run respects a guard when each of its positions does. -/
theorem respects_iff_get {inputs : List Input} :
    machine.Respects start guard inputs ↔
      ∀ position : Fin inputs.length,
        guard (machine.trace start (inputs.take position))
          (machine.exec start (inputs.take position)) (inputs.get position) := by
  constructor
  · intro respects position
    apply respects _ _ (inputs.drop (position + 1))
    rw [List.get_eq_getElem, List.getElem_cons_drop, List.take_append_drop]
  · intro every before input after split
    subst split
    simpa using every ⟨before.length, by simp⟩

instance [∀ history state input, Decidable (guard history state input)]
    (inputs : List Input) : Decidable (machine.Respects start guard inputs) :=
  decidable_of_iff _ respects_iff_get.symm

/-- A property that every run has at its beginning, and keeps over an input exactly when the
guard permits the input, holds all the way exactly in the runs that respect the guard. -/
theorem prefixes_iff_respects {good : List Input → Prop} (initial : good [])
    (step : ∀ inputs input, good inputs → (good (inputs ++ [input]) ↔
      guard (machine.trace start inputs) (machine.exec start inputs) input))
    (inputs : List Input) :
    (∀ front, front <+: inputs → good front) ↔ machine.Respects start guard inputs := by
  induction inputs using List.reverseRecOn with
  | nil =>
      refine iff_of_true ?_ respects_nil
      intro front before
      rw [List.prefix_nil.mp before]
      exact initial
  | append_singleton inputs input ih =>
      rw [respects_concat, ← ih]
      simp only [List.prefix_concat_iff, forall_eq_or_imp]
      rw [and_comm]
      exact and_congr_right fun earlier => step inputs input (earlier inputs List.prefix_rfl)

/-- A relation between history and state that holds initially and that every
guarded step preserves holds after every guarded run. -/
theorem guarded_invariant {relation : List (Input × Output) → State → Prop}
    (initial : relation [] start)
    (step : ∀ history state input, relation history state →
      guard history state input →
      relation (history ++ [(input, (machine.step state input).2)])
        (machine.step state input).1)
    {inputs : List Input} (respects : machine.Respects start guard inputs) :
    relation (machine.trace start inputs) (machine.exec start inputs) := by
  induction inputs using List.reverseRecOn with
  | nil => exact initial
  | append_singleton inputs input ih =>
      obtain ⟨earlier, last⟩ := respects_concat.mp respects
      rw [trace_concat, exec_concat]
      exact step _ _ input (ih earlier) last

/-- The unguarded form of `guarded_invariant`. -/
theorem trace_invariant {relation : List (Input × Output) → State → Prop}
    (initial : relation [] start)
    (step : ∀ history state input, relation history state →
      relation (history ++ [(input, (machine.step state input).2)])
        (machine.step state input).1)
    (inputs : List Input) :
    relation (machine.trace start inputs) (machine.exec start inputs) := by
  have respects : machine.Respects start (fun _ _ _ => True) inputs :=
    fun _ _ _ _ => trivial
  exact guarded_invariant initial
    (fun history state input holds _ => step history state input holds) respects

/-- A property of states that every guarded step preserves. -/
theorem exec_invariant {property : State → Prop} (initial : property start)
    (step : ∀ history state input, property state → guard history state input →
      property (machine.step state input).1)
    {inputs : List Input} (respects : machine.Respects start guard inputs) :
    property (machine.exec start inputs) := by
  induction inputs using List.reverseRecOn with
  | nil => exact initial
  | append_singleton inputs input ih =>
      obtain ⟨earlier, last⟩ := respects_concat.mp respects
      rw [exec_concat]
      exact step _ _ input (ih earlier) last

/-- A run that breaks a guard breaks it a first time. -/
theorem exists_first_break {inputs : List Input}
    (broken : ¬machine.Respects start guard inputs) :
    ∃ before input after, inputs = before ++ input :: after ∧
      machine.Respects start guard before ∧
      ¬guard (machine.trace start before) (machine.exec start before) input := by
  induction inputs using List.reverseRecOn with
  | nil => exact absurd respects_nil broken
  | append_singleton inputs input ih =>
      by_cases earlier : machine.Respects start guard inputs
      · have last : ¬guard (machine.trace start inputs) (machine.exec start inputs) input :=
          fun met => broken (respects_concat.mpr ⟨earlier, met⟩)
        exact ⟨inputs, input, [], rfl, earlier, last⟩
      · rcases ih earlier with ⟨before, first, after, split, respects, breaks⟩
        refine ⟨before, first, after ++ [input], ?_, respects, breaks⟩
        rw [split, List.append_assoc, List.cons_append]

/-! ## Observers -/

variable {Ghost : Type u}

/-- What an observer has noted at the end of a run, when it sees the state before every
input. -/
def watch (machine : Machine State Input Output) (observe : Ghost → State → Input → Ghost)
    (ghost : Ghost) (start : State) : List Input → Ghost
  | [] => ghost
  | input :: rest =>
      watch machine observe (observe ghost start input) (machine.step start input).1 rest

theorem watch_append (observe : Ghost → State → Input → Ghost) (ghost : Ghost)
    (start : State) (first second : List Input) :
    machine.watch observe ghost start (first ++ second) =
      machine.watch observe (machine.watch observe ghost start first)
        (machine.exec start first) second := by
  induction first generalizing ghost start with
  | nil => rfl
  | cons input rest ih => exact ih (observe ghost start input) (machine.step start input).1

theorem watch_concat (observe : Ghost → State → Input → Ghost) (ghost : Ghost)
    (start : State) (inputs : List Input) (input : Input) :
    machine.watch observe ghost start (inputs ++ [input]) =
      observe (machine.watch observe ghost start inputs) (machine.exec start inputs) input := by
  rw [watch_append]
  rfl

/-! ## Components -/

/-- `part` is the component of `machine` seen through `view`: visible inputs are
answered by the component alone and hidden inputs do not move it. -/
structure Component (machine : Machine State Input Output)
    (part : Machine View Input Output) (view : State → View)
    (visible : Input → Prop) : Prop where
  visible_step : ∀ state input, visible input →
    part.step (view state) input =
      (view (machine.step state input).1, (machine.step state input).2)
  hidden_step : ∀ state input, ¬visible input →
    view (machine.step state input).1 = view state

namespace Component

variable {part : Machine View Input Output} {view : State → View}
variable {visible : Input → Prop} [DecidablePred visible]

/-- Running the whole machine and looking at the component is running the
component on the visible inputs. -/
theorem exec_eq (component : Component machine part view visible)
    (start : State) (inputs : List Input) :
    view (machine.exec start inputs) =
      part.exec (view start) (inputs.filter visible) := by
  induction inputs generalizing start with
  | nil => rfl
  | cons input rest ih =>
      by_cases seen : visible input
      · simp [seen, ih, component.visible_step start input seen]
      · simp [seen, ih, component.hidden_step start input seen]

/-- The visible part of a history is the component's own history. -/
theorem trace_eq (component : Component machine part view visible)
    (start : State) (inputs : List Input) :
    (machine.trace start inputs).filter (fun event => visible event.1) =
      part.trace (view start) (inputs.filter visible) := by
  induction inputs generalizing start with
  | nil => rfl
  | cons input rest ih =>
      by_cases seen : visible input
      · simp [seen, ih, component.visible_step start input seen]
      · simp [seen, ih, component.hidden_step start input seen]

end Component

/-! ## Simulations -/

variable {Abstract : Type u} {AbstractInput : Type v} {AbstractOutput : Type w}

/-- `abstract` follows `machine` step by step: permitted steps from related states are
allowed, lead to related states and are answered alike. -/
structure Simulation (machine : Machine State Input Output)
    (abstract : Machine Abstract AbstractInput AbstractOutput)
    (related : State → Abstract → Prop) (permitted : State → Input → Prop)
    (allowed : Abstract → AbstractInput → Prop) (translate : Input → AbstractInput)
    (answer : AbstractOutput → Output) : Prop where
  follows : ∀ state view input, related state view → permitted state input →
    allowed view (translate input) ∧
    related (machine.step state input).1 (abstract.step view (translate input)).1 ∧
    (machine.step state input).2 = answer (abstract.step view (translate input)).2

namespace Simulation

variable {abstract : Machine Abstract AbstractInput AbstractOutput}
variable {related : State → Abstract → Prop} {permitted : State → Input → Prop}
variable {allowed : Abstract → AbstractInput → Prop} {translate : Input → AbstractInput}
variable {answer : AbstractOutput → Output} {view : Abstract}

/-- A permitted run is followed to its end. -/
theorem run (simulation : Simulation machine abstract related permitted allowed translate answer)
    (initial : related start view) {inputs : List Input}
    (respects : machine.Respects start (fun _ state input => permitted state input) inputs) :
    abstract.Respects view (fun _ state input => allowed state input) (inputs.map translate) ∧
      related (machine.exec start inputs) (abstract.exec view (inputs.map translate)) ∧
      (machine.trace start inputs).map Prod.snd =
        ((abstract.trace view (inputs.map translate)).map Prod.snd).map answer := by
  induction inputs using List.reverseRecOn with
  | nil => exact ⟨respects_nil, initial, rfl⟩
  | append_singleton inputs input ih =>
      obtain ⟨earlier, last⟩ := respects_concat.mp respects
      rcases ih earlier with ⟨allowedBefore, relatedBefore, outputs⟩
      rcases simulation.follows _ _ input relatedBefore last with
        ⟨allowedLast, relatedAfter, output⟩
      rw [List.map_append, List.map_singleton, respects_concat, exec_concat, exec_concat,
        trace_concat, trace_concat]
      refine ⟨⟨allowedBefore, allowedLast⟩, relatedAfter, ?_⟩
      simp only [List.map_append, List.map_singleton, outputs, output]

end Simulation

end Machine

/-! ## Past-time properties of histories -/

section Since

variable {Event : Type u} {starts stops : Event → Prop}

/-- Some event of the history started the condition and no later event stopped
it. -/
def Since (starts stops : Event → Prop) (history : List Event) : Prop :=
  ∃ before event after, history = before ++ event :: after ∧
    starts event ∧ ∀ later ∈ after, ¬stops later

@[simp] theorem not_since_nil : ¬Since starts stops [] := by
  intro since
  rcases since with ⟨before, event, after, split, _, _⟩
  simp at split

@[simp] theorem since_concat {history : List Event} {event : Event} :
    Since starts stops (history ++ [event]) ↔
      starts event ∨ (Since starts stops history ∧ ¬stops event) := by
  constructor
  · intro since
    rcases since with ⟨before, first, after, split, started, lasting⟩
    rcases concat_eq_append_cons split with ⟨rfl, rfl, rfl⟩ | ⟨init, rfl, rfl⟩
    · exact .inl started
    · refine .inr ⟨⟨before, first, init, rfl, started, ?_⟩, ?_⟩
      · intro later member
        exact lasting later (List.mem_append_left _ member)
      · exact lasting event (by simp)
  · intro cases
    rcases cases with started | ⟨⟨before, first, after, rfl, started, lasting⟩, running⟩
    · exact ⟨history, event, [], rfl, started, by simp⟩
    · refine ⟨before, first, after ++ [event], by simp, started, ?_⟩
      intro later member
      rcases List.mem_append.mp member with earlier | last
      · exact lasting later earlier
      · rw [List.mem_singleton.mp last]
        exact running

instance Since.decidable [DecidablePred starts] [DecidablePred stops] :
    (history : List Event) → Decidable (Since starts stops history)
  | [] => isFalse not_since_nil
  | event :: rest =>
      have : Decidable (Since starts stops rest) := Since.decidable rest
      decidable_of_iff
        (Since starts stops rest ∨ (starts event ∧ ∀ later ∈ rest, ¬stops later)) (by
          constructor
          · intro cases
            rcases cases with
              ⟨before, first, after, rfl, started, lasting⟩ | ⟨started, lasting⟩
            · exact ⟨event :: before, first, after, rfl, started, lasting⟩
            · exact ⟨[], event, rest, rfl, started, lasting⟩
          · intro since
            rcases since with ⟨before, first, after, split, started, lasting⟩
            cases before with
            | nil =>
                cases split
                exact .inr ⟨started, lasting⟩
            | cons head tail =>
                cases split
                exact .inl ⟨tail, first, after, rfl, started, lasting⟩)

end Since

end MultiMaster.Foundation
