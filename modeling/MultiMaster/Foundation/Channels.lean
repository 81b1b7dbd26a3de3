import Mathlib.Data.List.Basic

/-!
# Messages on channels

Messages in flight stand in one list in the order in which they were sent, each with the
channel it was put on.  A message may be on no channel, and then it never arrives.  Sending
appends to the list; a channel hands out its messages first in, first out, so that what is
taken out is the first entry of that channel, wherever it stands in the list.
-/

namespace MultiMaster.Foundation

universe u v

variable {Channel : Type u} {Message : Type v} [DecidableEq Channel]

/-- The messages of a channel, oldest first. -/
def onChannel (channel : Channel) (flying : List (Option Channel × Message)) : List Message :=
  (flying.filter fun entry => entry.1 = some channel).map Prod.snd

variable {channel other : Channel} {flying : List (Option Channel × Message)}
variable {message : Message}

@[simp] theorem onChannel_nil : onChannel channel ([] : List (Option Channel × Message)) = [] :=
  rfl

theorem onChannel_append (first second : List (Option Channel × Message)) :
    onChannel channel (first ++ second) = onChannel channel first ++ onChannel channel second := by
  rw [onChannel, List.filter_append, List.map_append]
  rfl

theorem onChannel_concat (channel : Channel) (flying : List (Option Channel × Message))
    (tag : Option Channel) (message : Message) :
    onChannel channel (flying ++ [(tag, message)]) =
      onChannel channel flying ++ if tag = some channel then [message] else [] := by
  rw [onChannel_append]
  by_cases same : tag = some channel
  · simp [onChannel, same]
  · simp [onChannel, same]

theorem mem_onChannel : message ∈ onChannel channel flying ↔ (some channel, message) ∈ flying := by
  simp [onChannel]

/-- Taking the oldest message of a channel out of the list. -/
theorem onChannel_take {later : List Message}
    (first : onChannel channel flying = message :: later) :
    ∃ front back, flying = front ++ (some channel, message) :: back ∧
      onChannel channel front = [] ∧ onChannel channel (front ++ back) = later ∧
      ∀ other, other ≠ channel → onChannel other (front ++ back) = onChannel other flying := by
  induction flying with
  | nil => cases first
  | cons entry rest ih =>
      rcases entry with ⟨tag, content⟩
      by_cases here : tag = some channel
      · subst here
        have split : content = message ∧ onChannel channel rest = later := by
          simpa [onChannel] using first
        rcases split with ⟨rfl, remaining⟩
        refine ⟨[], rest, rfl, rfl, remaining, ?_⟩
        intro other different
        simp [onChannel, Ne.symm different]
      · have skipped : onChannel channel rest = message :: later := by
          simpa [onChannel, here] using first
        rcases ih skipped with ⟨front, back, split, before, remaining, others⟩
        refine ⟨(tag, content) :: front, back, by rw [split]; rfl, ?_, ?_, ?_⟩
        · rw [← before]
          simp [onChannel, here]
        · rw [← remaining]
          simp [onChannel, here]
        · intro other different
          have same := others other different
          simp only [onChannel, List.cons_append, List.filter_cons] at same ⊢
          split
          · rw [List.map_cons, List.map_cons, same]
          · exact same

end MultiMaster.Foundation
