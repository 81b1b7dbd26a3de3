import MultiMaster.Foundation.Machine

/-!
# Steps that stand for several steps

A machine refines another when each of its steps can be matched by any number of steps of
the other, one after another, that show the same to an observer.  So every run of the one
machine shows what some run of the other shows.
-/

namespace MultiMaster.Foundation

universe u v w x

namespace Machine

variable {State Abstract : Type u} {Input AbstractInput : Type v}
variable {Output AbstractOutput : Type w} {Seen : Type x}

/-- What an observer sees of a history. -/
def shown (see : Output → List Seen) (history : List (Input × Output)) : List Seen :=
  history.flatMap fun event => see event.2

/-- The inputs are allowed one after another, lead to a state, and show the observer what is
seen. -/
structure Leads (machine : Machine State Input Output) (allowed : State → Input → Prop)
    (see : Output → List Seen) (start : State) (inputs : List Input) (seen : List Seen)
    (final : State) : Prop where
  allowed : machine.Respects start (fun _ state input => allowed state input) inputs
  final : machine.exec start inputs = final
  seen : shown see (machine.trace start inputs) = seen

variable {machine : Machine State Input Output} {allowed : State → Input → Prop}
variable {see : Output → List Seen} {start final : State} {inputs : List Input}
variable {seen : List Seen}

theorem leads_nil (start : State) : machine.Leads allowed see start [] [] start :=
  ⟨respects_nil, rfl, rfl⟩

/-- One more input. -/
theorem Leads.step (leads : machine.Leads allowed see start inputs seen final) {input : Input}
    (next : allowed final input) :
    machine.Leads allowed see start (inputs ++ [input])
      (seen ++ see (machine.step final input).2) (machine.step final input).1 := by
  rcases leads with ⟨before, rfl, rfl⟩
  refine ⟨respects_concat.mpr ⟨before, next⟩, exec_concat machine start inputs input, ?_⟩
  rw [trace_concat, shown, List.flatMap_append, List.flatMap_singleton]
  rfl

/-- A single step. -/
theorem leads_singleton {input : Input} (next : allowed start input) :
    machine.Leads allowed see start [input] (see (machine.step start input).2)
      (machine.step start input).1 :=
  (leads_nil start).step next

/-- The last input of a run. -/
theorem leads_concat_iff {input : Input} :
    machine.Leads allowed see start (inputs ++ [input]) seen final ↔
      ∃ earlier middle, machine.Leads allowed see start inputs earlier middle ∧
        allowed middle input ∧ seen = earlier ++ see (machine.step middle input).2 ∧
        final = (machine.step middle input).1 := by
  constructor
  · rintro ⟨before, rfl, rfl⟩
    rcases respects_concat.mp before with ⟨earlier, last⟩
    refine ⟨_, _, ⟨earlier, rfl, rfl⟩, last, ?_, exec_concat machine start inputs input⟩
    rw [trace_concat, shown, List.flatMap_append, List.flatMap_singleton]
    rfl
  · rintro ⟨earlier, middle, leads, next, rfl, rfl⟩
    exact leads.step next

theorem Leads.trans {last : State} {more : List Input} {later : List Seen}
    (first : machine.Leads allowed see start inputs seen final)
    (second : machine.Leads allowed see final more later last) :
    machine.Leads allowed see start (inputs ++ more) (seen ++ later) last := by
  induction more using List.reverseRecOn generalizing later last with
  | nil =>
      rcases second with ⟨_, rfl, rfl⟩
      rw [List.append_nil, trace, shown, List.flatMap_nil, List.append_nil]
      exact first
  | append_singleton more input ih =>
      rcases leads_concat_iff.mp second with ⟨earlier, middle, leads, next, rfl, rfl⟩
      rw [← List.append_assoc, ← List.append_assoc]
      exact (ih leads).step next

/-- Every permitted step of `machine` from related states is matched by a run of `abstract`
to related states, which shows the same and whose inputs stand for the input of the step. -/
structure Refinement (machine : Machine State Input Output)
    (abstract : Machine Abstract AbstractInput AbstractOutput)
    (related : State → Abstract → Prop) (permitted : State → Input → Prop)
    (allowed : Abstract → AbstractInput → Prop) (see : Output → List Seen)
    (seeAbstract : AbstractOutput → List Seen) (answered : Output → Prop)
    (standFor : Input → List AbstractInput → Prop) : Prop where
  follows : ∀ state view input, related state view → permitted state input →
    answered (machine.step state input).2 ∧ ∃ inputs next, standFor input inputs ∧
      abstract.Leads allowed seeAbstract view inputs (see (machine.step state input).2) next ∧
      related (machine.step state input).1 next

namespace Refinement

variable {abstract : Machine Abstract AbstractInput AbstractOutput}
variable {related : State → Abstract → Prop} {permitted : State → Input → Prop}
variable {allowedAbstract : Abstract → AbstractInput → Prop}
variable {seeAbstract : AbstractOutput → List Seen} {answered : Output → Prop}
variable {standFor : Input → List AbstractInput → Prop} {view : Abstract}

/-- A run of `abstract` that a run of `machine` is matched by. -/
structure Image (machine : Machine State Input Output)
    (abstract : Machine Abstract AbstractInput AbstractOutput)
    (related : State → Abstract → Prop) (allowedAbstract : Abstract → AbstractInput → Prop)
    (see : Output → List Seen) (seeAbstract : AbstractOutput → List Seen)
    (answered : Output → Prop) (start : State) (view : Abstract) (inputs : List Input)
    (images : List AbstractInput) : Prop where
  answers : ∀ event ∈ machine.trace start inputs, answered event.2
  allowed : abstract.Respects view (fun _ state input => allowedAbstract state input) images
  seen : shown seeAbstract (abstract.trace view images) = shown see (machine.trace start inputs)
  related : related (machine.exec start inputs) (abstract.exec view images)

/-- Every permitted run of `machine` has an image.  What else a run and its image have in
common is proved along the run. -/
theorem run_common (refinement : Refinement machine abstract related permitted allowedAbstract
      see seeAbstract answered standFor)
    (initial : related start view) (common : List Input → List AbstractInput → Prop)
    (first : common [] [])
    (next : ∀ inputs input images more,
      machine.Respects start (fun _ state input => permitted state input) (inputs ++ [input]) →
      Image machine abstract related allowedAbstract see seeAbstract answered start view inputs
        images → standFor input more →
      abstract.Respects view (fun _ state input => allowedAbstract state input)
        (images ++ more) →
      common inputs images → common (inputs ++ [input]) (images ++ more))
    (respects : machine.Respects start (fun _ state input => permitted state input) inputs) :
    ∃ images, common inputs images ∧ Image machine abstract related allowedAbstract see
      seeAbstract answered start view inputs images := by
  induction inputs using List.reverseRecOn with
  | nil =>
      refine ⟨[], first, ?_, respects_nil, rfl, initial⟩
      intro event member
      cases member
  | append_singleton inputs input ih =>
      rcases respects_concat.mp respects with ⟨earlier, last⟩
      rcases ih earlier with ⟨images, holds, image⟩
      rcases refinement.follows _ _ input image.related last with
        ⟨answer, more, final, stands, continues, relatedFinal⟩
      have leads := Leads.trans ⟨image.allowed, rfl, image.seen⟩ continues
      refine ⟨images ++ more, next inputs input images more respects image stands leads.allowed
        holds, ?_, leads.allowed, ?_, ?_⟩
      · intro event member
        rw [trace_concat] at member
        rcases List.mem_append.mp member with old | new
        · exact image.answers event old
        · rw [List.mem_singleton.mp new]
          exact answer
      · rw [leads.seen, trace_concat, shown, shown, List.flatMap_append, List.flatMap_singleton]
      · rw [leads.final, exec_concat]
        exact relatedFinal

/-- Every permitted run of `machine` shows what a run of `abstract` shows. -/
theorem run (refinement : Refinement machine abstract related permitted allowedAbstract see
      seeAbstract answered standFor)
    (initial : related start view)
    (respects : machine.Respects start (fun _ state input => permitted state input) inputs) :
    ∃ images, Image machine abstract related allowedAbstract see seeAbstract answered start view
      inputs images := by
  rcases refinement.run_common initial (fun _ _ => True) trivial
    (fun _ _ _ _ _ _ _ _ _ => trivial) respects with ⟨images, _, image⟩
  exact ⟨images, image⟩

end Refinement

end Machine

end MultiMaster.Foundation
