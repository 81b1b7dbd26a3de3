import MultiMaster.Foundation.Turns
import MultiMaster.NetIO.Delivery

/-!
# Delivery to a handler that rejects payloads

The loop of a read callback ends with a payload that its handler rejects, although more
payloads may be in the input.  Nothing wakes the callback for them: they are taken when
another chunk arrives.  The runs of the callback are turns that rejected payloads stop.
-/

namespace MultiMaster.NetIO

open Foundation

namespace LibeventHandle

variable {State : Type} {handler : State → Bytes → Int → Option (State × Bool)}
variable {stops : Bytes → Bool} {related : State → List Bytes → Prop}

/-- On its way through the payloads the handler rejects exactly those that stop it. -/
def Judges (handler : State → Bytes → Int → Option (State × Bool)) (stops : Bytes → Bool)
    (related : State → List Bytes → Prop) (payloads : List Bytes) : Prop :=
  ∀ state done payload, related state done → done ++ [payload] <+: payloads →
    ∃ next, handler state payload payload.length = some (next, !stops payload) ∧
      related next (done ++ [payload])

/-- A connection that has handed out `done`; `pending` are the bytes of the frames of `rest`
that have arrived.  Complete frames may be among them. -/
structure Underway (connectId : Int) (related : State → List Bytes → Prop)
    (done rest : List Bytes) (pending : Bytes) (handle : LibeventHandle) (info : BevInfor)
    (state : State) : Prop where
  ready : handle.Ready connectId info
  countable : info.Countable
  aligned : Receiver.Aligned controlFormat info.view rest pending
  low : info.view.LowMatches
  within : pending <+: controlFormat.frames rest
  sized : Receiver.Sized controlFormat rest
  related : related state done

namespace Underway

variable {connectId : Int} {payloads done rest : List Bytes} {pending : Bytes}
variable {handle : LibeventHandle} {info : BevInfor} {state : State}

/-- In front of a header there is nothing but the bytes of the frames that are due. -/
theorem of_header (ready : handle.Ready connectId info) (countable : info.Countable)
    (seen : info.view = ⟨pending, 0, none⟩) (within : pending <+: controlFormat.frames rest)
    (sized : Receiver.Sized controlFormat rest) (stated : related state done) :
    Underway connectId related done rest pending handle info state := by
  refine ⟨ready, countable, ?_, ?_, within, sized, stated⟩
  · rw [seen]
    exact .header rfl
  · rw [seen]
    rfl

/-- A payload is handed out. -/
theorem handOut {data remaining : Bytes} {after : LibeventHandle} {reached : BevInfor}
    {next : State}
    (underway : Underway connectId related done (data :: rest)
      (controlFormat.frame data ++ remaining) handle info state)
    (ready : after.Ready connectId reached) (countable : reached.Countable)
    (seen : reached.view = ⟨remaining, 0, none⟩) (nextRelated : related next (done ++ [data])) :
    Underway connectId related (done ++ [data]) rest remaining after reached next := by
  have within := underway.within
  rw [HeaderFormat.frames_cons, List.prefix_append_right_inj] at within
  exact of_header ready countable seen within
    (fun other member => underway.sized other (List.mem_cons_of_mem _ member)) nextRelated

/-- Without input a connection can only wait for a header. -/
theorem starved_of_empty (available : info.view.expected ≠ none → info.bev.input ≠ [])
    (empty : info.bev.input = []) : info.view.Starved controlFormat := by
  have unread : info.view.expected = none := by
    by_contra reading
    exact available reading empty
  rw [Receiver.Starved, unread]
  simp [BevInfor.view, empty]

/-- A run of the loop is a turn. -/
theorem loop (judges : Judges handler stops related payloads)
    (underway : Underway connectId related done rest pending handle info state)
    (split : payloads = done ++ rest)
    (available : info.view.expected ≠ none → info.bev.input ≠ []) {fuel : Nat}
    (enough : info.bev.input.length < fuel) :
    ∃ after reached final complete handed later remaining,
      receiveLoop connectId handler fuel handle state = some (after, final, complete) ∧
      rest = handed ++ later ∧ pending = controlFormat.frames handed ++ remaining ∧
      Underway connectId related (done ++ handed) later remaining after reached final ∧
      Turn stops (reached.view.Starved controlFormat) handed := by
  induction fuel generalizing done rest pending handle info state with
  | zero => omega
  | succ fuel ih =>
      rcases getReciveBufferLength_of_ready underway.ready underway.countable with
        ⟨counted, counting, still⟩
      by_cases empty : info.bev.input = []
      · have idle : ¬0 < (info.bev.input.length : Int) := by simp [empty]
        refine ⟨counted, info, state, true, [], rest, pending,
          receiveLoop_idle handler counting idle, rfl, rfl, ?_,
          .idle (starved_of_empty available empty)⟩
        rw [List.append_nil]
        exact { underway with ready := still }
      · rcases Receiver.poll_outcome underway.aligned underway.low underway.within
          underway.sized empty with ⟨outcome, polled, effect⟩
        have positive : (0 : Int) < info.bev.input.length := by
          have := List.length_pos_of_ne_nil empty
          omega
        cases effect with
        | starved aligned low starved _ =>
            rcases reciveStrNoWait_of_ready still underway.countable polled with
              ⟨after, reached, data, returned, received, ready, seen, countable, result⟩
            cases result
            cases seen
            refine ⟨after, reached, state, false, [], rest, pending,
              receiveLoop_waiting handler counting positive received, rfl, rfl, ?_,
              .idle starved⟩
            rw [List.append_nil]
            exact ⟨ready, countable, aligned, low, underway.within, underway.sized,
              underway.related⟩
        | @handed payload remaining later first consumed shorter =>
            rcases reciveStrNoWait_of_ready still underway.countable polled with
              ⟨after, reached, data, returned, received, ready, seen, countable, result⟩
            rcases result with ⟨rfl, rfl⟩
            subst first consumed
            have nonempty := (underway.sized data List.mem_cons_self).1
            have prefixed : done ++ [data] <+: payloads := by
              rw [split]
              exact ⟨later, by simp⟩
            rcases judges state done data underway.related prefixed with
              ⟨next, judged, nextRelated⟩
            have moved := underway.handOut ready countable seen nextRelated
            rw [receiveLoop_payload counting positive received (by omega), judged,
              Option.bind_some]
            cases stopping : stops data with
            | true =>
                exact ⟨after, reached, next, false, [data], later, remaining, rfl, rfl,
                  by simp, moved, .stop stopping⟩
            | false =>
                have input : reached.bev.input = remaining := congrArg Receiver.input seen
                have unread : reached.view.expected = none := by rw [seen]
                rcases ih moved (by rw [split]; simp) (fun reading => absurd unread reading)
                  (by rw [input]; exact Nat.lt_of_lt_of_le shorter (Nat.lt_succ_iff.mp enough))
                  with ⟨last, final, lastState, complete, handed, rest, left, looped, cutRest,
                    bytes, arrived, turn⟩
                refine ⟨last, final, lastState, complete, data :: handed, rest, left, looped,
                  by rw [cutRest, List.cons_append], ?_, ?_, .pass stopping turn⟩
                · rw [bytes, HeaderFormat.frames_cons, List.append_assoc]
                · rw [List.append_cons]
                  exact arrived

/-- So is the arrival of a chunk. -/
theorem arrive (judges : Judges handler stops related payloads)
    (underway : Underway connectId related done rest pending handle info state)
    (split : payloads = done ++ rest) {chunk : Bytes} (arriving : chunk ≠ [])
    (within : pending ++ chunk <+: controlFormat.frames rest)
    (fits : handle.inputLength connectId + chunk.length < 2 ^ 31) :
    ∃ after reached final handed later remaining,
      handle.arrive connectId (receiveLoop connectId handler) state chunk =
        some (after, final) ∧
      rest = handed ++ later ∧ pending ++ chunk = controlFormat.frames handed ++ remaining ∧
      Underway connectId related (done ++ handed) later remaining after reached final ∧
      Turn stops (reached.view.Starved controlFormat) handed := by
  rw [inputLength, underway.ready.found] at fits
  have next : Underway connectId related done rest (pending ++ chunk)
      (handle.setBevInfor connectId (grown info chunk)) (grown info chunk) state :=
    ⟨ready_grown underway.ready chunk, countable_grown underway.countable fits,
      underway.aligned.arrive chunk, underway.low, within, underway.sized, underway.related⟩
  by_cases woken : info.bev.readLow ≤ (info.bev.input ++ chunk).length
  · have available : (grown info chunk).bev.input ≠ [] := by simp [grown, arriving]
    rcases next.loop judges split (fun _ => available) (Nat.lt_succ_self _) with
      ⟨after, reached, final, complete, handed, later, remaining, looped, moved⟩
    refine ⟨after, reached, final, handed, later, remaining, ?_, moved⟩
    rw [arrive_woken underway.ready _ state woken]
    exact Option.map_eq_some_iff.mpr ⟨_, looped, rfl⟩
  · refine ⟨_, grown info chunk, state, [], rest, pending ++ chunk,
      arrive_asleep underway.ready _ state woken, rfl, rfl, ?_,
      .idle (Receiver.asleep_starved underway.low arriving woken)⟩
    rw [List.append_nil]
    exact next

/-- After a turn a payload has been handed out when its frame has arrived and the stopping
payloads in front of it were handed out in earlier turns. -/
theorem prefix_iff {handed later front : List Bytes} {remaining arrived payload : Bytes}
    (underway : Underway connectId related (done ++ handed) later remaining handle info state)
    (turn : Turn stops (info.view.Starved controlFormat) handed)
    (large : ∀ payload ∈ later, controlFormat.width < payload.length)
    (bytes : arrived = controlFormat.frames (done ++ handed) ++ remaining)
    (among : front ++ [payload] <+: done ++ handed ++ later) :
    front ++ [payload] <+: done ++ handed ↔
      controlFormat.frames (front ++ [payload]) <+: arrived ∧
        ∀ before other between, front = before ++ other :: between → stops other = true →
          before ++ [other] <+: done := by
  apply turn.prefix_iff among
  · rintro ⟨more, same⟩
    rw [bytes, ← same, controlFormat.frames_append (front ++ [payload]), List.append_assoc]
    exact List.prefix_append _ _
  · intro starved here
    have standing : Receiver.Standing controlFormat info.view later remaining :=
      ⟨underway.aligned, underway.low, starved, underway.within, underway.sized⟩
    rw [bytes] at here
    exact ((standing.longestArrived large).2 _ among).mpr here

end Underway

/-! ## Runs -/

/-- The frames of some payloads have arrived with the first chunks. -/
def ArrivedWith (chunks : List Bytes) (turn : Nat) (payloads : List Bytes) : Prop :=
  controlFormat.frames payloads <+: (chunks.take turn).flatten

theorem arrivedWith_later (chunks : List Bytes) (turn later : Nat) (payloads : List Bytes)
    (order : turn ≤ later) (arrived : ArrivedWith chunks turn payloads) :
    ArrivedWith chunks later payloads := by
  refine List.IsPrefix.trans arrived ?_
  rw [← Nat.add_sub_cancel' order, List.take_add, List.flatten_append]
  exact List.prefix_append _ _

theorem not_arrivedWith_zero (chunks front : List Bytes) (payload : Bytes) :
    ¬ArrivedWith chunks 0 (front ++ [payload]) := by
  intro arrived
  have length := List.IsPrefix.length_le arrived
  simp [controlFormat, controlBlockSize] at length

/-- What has arrived with the chunks up to some chunk. -/
theorem arrivedWith_length {chunks initial payloads : List Bytes} (start : initial <+: chunks) :
    ArrivedWith chunks initial.length payloads ↔
      controlFormat.frames payloads <+: initial.flatten := by
  rw [ArrivedWith, ← List.prefix_iff_eq_take.mp start]

variable {connectId : Int} {handle : LibeventHandle} {info : BevInfor} {state : State}

/-- A new connection, from which nothing has been handed out. -/
theorem underway_initial (ready : handle.Ready connectId info) (fresh : info.Fresh)
    {payloads : List Bytes} (sized : Receiver.Sized controlFormat payloads)
    (initially : related state []) :
    Underway connectId related [] payloads [] handle info state :=
  Underway.of_header ready fresh.countable fresh.view_eq List.nil_prefix sized initially

/-- When the payloads handed out before a chunk were those in time, so are the ones handed
out after it. -/
theorem Underway.inTime_concat {done handed later chunks initial : List Bytes}
    {remaining chunk : Bytes} (start : initial ++ [chunk] <+: chunks)
    (underway : Underway connectId related (done ++ handed) later remaining handle info state)
    (turn : Turn stops (info.view.Starved controlFormat) handed)
    (large : ∀ payload ∈ later, controlFormat.width < payload.length)
    (bytes : (initial ++ [chunk]).flatten = controlFormat.frames (done ++ handed) ++ remaining)
    (taken : ∀ front payload, front ++ [payload] <+: done ++ handed ++ later →
      (front ++ [payload] <+: done ↔
        InTime stops (ArrivedWith chunks) initial.length front payload))
    {front : List Bytes} {payload : Bytes}
    (among : front ++ [payload] <+: done ++ handed ++ later) :
    front ++ [payload] <+: done ++ handed ↔
      InTime stops (ArrivedWith chunks) (initial ++ [chunk]).length front payload := by
  have here : ArrivedWith chunks (initial.length + 1) (front ++ [payload]) ↔
      controlFormat.frames (front ++ [payload]) <+: (initial ++ [chunk]).flatten := by
    rw [← arrivedWith_length start, List.length_append, List.length_singleton]
  rw [List.length_append, List.length_singleton, inTime_succ_iff (arrivedWith_later chunks),
    here, underway.prefix_iff turn large bytes among]
  apply and_congr_right
  intro _
  apply forall₄_congr
  intro before other between same
  apply imp_congr_right
  intro _
  apply taken before other
  refine List.IsPrefix.trans ?_ among
  simp [same]

/-- After some chunks a payload has been handed out exactly when it was in time. -/
theorem receiveChunks_inTime (ready : handle.Ready connectId info) (fresh : info.Fresh)
    {payloads chunks : List Bytes}
    (sized : ∀ payload ∈ payloads,
      controlFormat.width < payload.length ∧ payload.length < controlFormat.limit)
    (judges : Judges handler stops related payloads) (initially : related state [])
    (cut : CutPrefix chunks (controlFormat.frames payloads))
    (below : InputBelow connectId (receiveLoop connectId handler) handle state chunks)
    {initial : List Bytes} (start : initial <+: chunks) :
    ∃ done rest pending after reached final,
      handle.receiveChunks connectId (receiveLoop connectId handler) state initial =
        some (after, final) ∧
      payloads = done ++ rest ∧ initial.flatten = controlFormat.frames done ++ pending ∧
      Underway connectId related done rest pending after reached final ∧
      ∀ front payload, front ++ [payload] <+: payloads →
        (front ++ [payload] <+: done ↔
          InTime stops (ArrivedWith chunks) initial.length front payload) := by
  induction initial using List.reverseRecOn with
  | nil =>
      have positive : Receiver.Sized controlFormat payloads := fun payload member =>
        ⟨Nat.zero_lt_of_lt (sized payload member).1, (sized payload member).2⟩
      refine ⟨[], payloads, [], handle, info, state, rfl, rfl, rfl,
        underway_initial ready fresh positive initially, ?_⟩
      intro front payload _
      exact iff_of_false (by simp) fun early => not_arrivedWith_zero _ _ _ early.1
  | append_singleton initial chunk ih =>
      rcases ih ((List.prefix_append initial [chunk]).trans start) with
        ⟨done, rest, pending, after, reached, final, received, split, bytes, underway, taken⟩
      have arriving : chunk ≠ [] := cut.nonempty chunk (start.subset (by simp))
      have within := (start.flatten).trans cut.within
      rw [List.flatten_append, List.flatten_singleton, bytes, split, HeaderFormat.frames_append,
        List.append_assoc, List.prefix_append_right_inj] at within
      have fits : after.inputLength connectId + chunk.length < 2 ^ 31 := by
        rcases start with ⟨later, rfl⟩
        exact below initial chunk later (by simp) (after, final) received
      rcases underway.arrive judges split arriving within fits with
        ⟨next, moved, last, handed, later, remaining, arrived, splitRest, nextBytes,
          nextUnderway, turn⟩
      have whole : payloads = (done ++ handed) ++ later := by
        rw [split, splitRest, List.append_assoc]
      have nowBytes : (initial ++ [chunk]).flatten =
          controlFormat.frames (done ++ handed) ++ remaining := by
        rw [List.flatten_append, List.flatten_singleton, bytes, List.append_assoc, nextBytes,
          HeaderFormat.frames_append, List.append_assoc]
      refine ⟨done ++ handed, later, remaining, next, moved, last, ?_, whole, nowBytes,
        nextUnderway, ?_⟩
      · rw [receiveChunks_append, received, Option.bind_some, receiveChunks_cons, arrived]
        rfl
      · have large : ∀ payload ∈ later, controlFormat.width < payload.length := by
          intro other member
          apply (sized other _).1
          rw [whole]
          exact List.mem_append_right _ member
        intro front payload among
        rw [whole] at among taken
        exact nextUnderway.inTime_concat start turn large nowBytes taken among

end LibeventHandle

end MultiMaster.NetIO
