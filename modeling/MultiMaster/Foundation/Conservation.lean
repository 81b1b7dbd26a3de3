import MultiMaster.Foundation.Exchange

/-!
# Calls are conserved

Whatever the order in which messages are delivered, every call that was started is answered
or has its request in flight, and every answer was returned, is queued, or is in flight.
Nothing is lost on the way and nothing is there twice, so that the lists agree as
multisets.
-/

namespace MultiMaster.Foundation

universe u

namespace Flight

variable {Host Request Reply : Type u}

def request? : Flight Host Request Reply → Option (Call Host Request)
  | .request call => some call
  | .reply _ _ => none

def reply? : Flight Host Request Reply → Option (Call Host Request × Reply)
  | .request _ => none
  | .reply call answer => some (call, answer)

end Flight

namespace Exchange

variable {Table Host Subject Request Reply : Type u}

def sentCall? : Event Host Request Reply → Option (Call Host Request)
  | .sent call => some call
  | .served _ _ | .queued _ | .returned _ _ _ | .waiting _ | .ignored => none

def answeredCall? : Event Host Request Reply → Option (Call Host Request × Reply)
  | .served call reply => some (call, reply)
  | .sent _ | .queued _ | .returned _ _ _ | .waiting _ | .ignored => none

def returnedCall? : Event Host Request Reply → Option (Call Host Request × Reply)
  | .returned call _ reply => some (call, reply)
  | .sent _ | .served _ _ | .queued _ | .waiting _ | .ignored => none

/-- The requests that are in flight. -/
def requests (state : Exchange Table Host Request Reply) : List (Call Host Request) :=
  state.network.filterMap Flight.request?

/-- The replies that are in flight. -/
def replies (state : Exchange Table Host Request Reply) : List (Call Host Request × Reply) :=
  state.network.filterMap Flight.reply?

/-- Every call and every answer is somewhere, once. -/
structure Conserved (events : List (Event Host Request Reply))
    (state : Exchange Table Host Request Reply) : Prop where
  asked : (events.filterMap sentCall?).Perm
    ((events.filterMap answeredCall?).map Prod.fst ++ state.requests)
  answered : (events.filterMap answeredCall?).Perm
    (events.filterMap returnedCall? ++ state.queue ++ state.replies)

/-- A message in flight is a request or a reply. -/
theorem network_perm (state : Exchange Table Host Request Reply) :
    (state.network.map Flight.call).Perm (state.requests ++ state.replies.map Prod.fst) := by
  rw [requests, replies]
  induction state.network with
  | nil => exact .nil
  | cons flight rest ih =>
      cases flight with
      | request call => exact ih.cons call
      | reply call answer => exact (ih.cons call).trans List.perm_middle.symm

variable {service : Service Table Host Subject Request Reply}
variable {state after : Exchange Table Host Request Reply}
variable {events : List (Event Host Request Reply)} {event : Event Host Request Reply}
variable {history : History Host Subject Request Reply} {call : Call Host Request}
variable {reply : Reply}

namespace Conserved

/-- A message is not counted twice when it moves. -/
theorem answer (conserved : Conserved events state)
    {front back : List (Flight Host Request Reply)}
    (split : state.network = front ++ .request call :: back) (table : Table) :
    Conserved (events ++ [.served call reply]) { state with
      table := table
      network := front ++ back ++ [.reply call reply] } := by
  constructor
  · have moved : state.requests.Perm (call :: (front ++ back).filterMap Flight.request?) := by
      rw [requests, split]
      exact (List.perm_middle.filterMap Flight.request? :)
    have asked := conserved.asked.trans (moved.append_left _)
    simpa [List.filterMap_cons, requests, sentCall?, answeredCall?, Flight.request?] using asked
  · have same : state.replies = (front ++ back).filterMap Flight.reply? := by
      rw [replies, split]
      simp [List.filterMap_cons, Flight.reply?]
    have answered := conserved.answered.append_right [(call, reply)]
    rw [same] at answered
    simpa [List.filterMap_cons, replies, answeredCall?, returnedCall?, Flight.reply?] using answered

theorem enqueue (conserved : Conserved events state)
    {front back : List (Flight Host Request Reply)}
    (split : state.network = front ++ .reply call reply :: back) (ticket : Nat) :
    Conserved (events ++ [.queued ticket]) { state with
      network := front ++ back
      queue := state.queue ++ [(call, reply)] } := by
  constructor
  · have same : state.requests = (front ++ back).filterMap Flight.request? := by
      rw [requests, split]
      simp [List.filterMap_cons, Flight.request?]
    have asked := conserved.asked
    rw [same] at asked
    simpa [List.filterMap_cons, requests, sentCall?, answeredCall?] using asked
  · have moved : state.replies.Perm ((call, reply) :: (front ++ back).filterMap Flight.reply?) := by
      rw [replies, split]
      exact (List.perm_middle.filterMap Flight.reply? :)
    have answered := conserved.answered.trans (moved.append_left _)
    simpa [List.filterMap_cons, replies, answeredCall?, returnedCall?] using answered

theorem finish (conserved : Conserved events state)
    {front back : List (Call Host Request × Reply)}
    (queue : state.queue = front ++ (call, reply) :: back) (calls : List (Call Host Request)) :
    Conserved (events ++ [.returned call call.ticket reply]) { state with
      calls := calls
      queue := front ++ back } := by
  constructor
  · simpa [List.filterMap_cons, requests, sentCall?, answeredCall?] using conserved.asked
  · have moved : state.queue.Perm ((call, reply) :: (front ++ back)) := by
      rw [queue]
      exact List.perm_middle
    have answered := conserved.answered.trans ((moved.append_left _).append_right _)
    simpa [List.filterMap_cons, replies, answeredCall?, returnedCall?] using answered

end Conserved

/-- An unfinished call is unanswered or its answer is on the way. -/
theorem Carried.calls_perm (carried : Carried service state) :
    state.calls.Perm (state.requests ++ (state.queue ++ state.replies).map Prod.fst) := by
  refine (carried.messages.trans (state.network_perm.append_right _)).trans ?_
  rw [List.map_append, List.append_assoc]
  exact List.perm_append_comm.append_left _

/-- Each allowed step conserves calls and answers. -/
theorem Effect.conserved (effect : Effect service state after event)
    (matched : Matched service history state) (conserved : Conserved events state) :
    Conserved (events ++ [event]) after := by
  cases effect with
  | sent call ticket alone moved =>
      subst moved
      constructor
      · have asked := conserved.asked.append_right [call]
        simpa [List.filterMap_cons, requests, sentCall?, answeredCall?, Flight.request?] using asked
      · simpa [List.filterMap_cons, replies, answeredCall?, returnedCall?, Flight.reply?] using conserved.answered
  | served front call back split moved =>
      subst moved
      exact conserved.answer split _
  | queued front call reply back split moved =>
      subst moved
      exact conserved.enqueue split _
  | returned before call behind front owner reply back calls queue host subject moved =>
      subst moved
      have same : owner = call :=
        matched.owner_eq (by simp [calls]) (by simp [queue]) host subject
      subst same
      exact conserved.finish queue _
  | waiting ticket same =>
      subst same
      constructor
      · simpa [List.filterMap_cons, sentCall?, answeredCall?] using conserved.asked
      · simpa [List.filterMap_cons, answeredCall?, returnedCall?] using conserved.answered

variable [DecidableEq Host] [DecidableEq Subject]
variable {start : Exchange Table Host Request Reply}
variable {inputs : List (Input Host Subject Request)}

/-- No allowed run loses or duplicates a call or an answer. -/
theorem conserved_run (empty : start.Empty) (allowed : AllowedRun service start inputs) :
    Conserved (((machine service).trace start inputs).map Prod.snd)
      ((machine service).exec start inputs) := by
  induction inputs using List.reverseRecOn with
  | nil =>
      rcases empty with ⟨_, network, queue⟩
      constructor <;> simp [Machine.trace, requests, replies, network, queue]
  | append_singleton inputs input ih =>
      rcases Machine.respects_concat.mp allowed with ⟨earlier, last⟩
      have before : AllowedRun service start inputs := earlier
      rw [Machine.trace_concat, Machine.exec_concat, List.map_append]
      exact (step_effect last).conserved (matched_run empty before) (ih before)

omit [DecidableEq Host] [DecidableEq Subject] in
/-- When nothing is in flight, the reply to an unfinished call is queued. -/
theorem Matched.mem_queue (matched : Matched service history state)
    (delivered : state.network = []) (waiting : call ∈ state.calls) :
    ∃ reply, (call, reply) ∈ state.queue := by
  have queued := matched.carried.messages.mem_iff.mp waiting
  rw [delivered, List.map_nil, List.nil_append] at queued
  rcases List.mem_map.mp queued with ⟨⟨owner, reply⟩, among, rfl⟩
  exact ⟨reply, among⟩

/-- When nothing is in flight, an unfinished call that waits gets its reply. -/
theorem Matched.poll_returns (matched : Matched service history state)
    (delivered : state.network = []) (waiting : call ∈ state.calls) :
    ∃ reply, (state.step service (.poll call.host (service.asked call.request))).2 =
        .returned call call.ticket reply ∧ Served history call reply := by
  have about : isAbout service call.host (service.asked call.request) call = true :=
    isAbout_iff.mpr ⟨rfl, rfl⟩
  have unique : ∀ other ∈ state.calls,
      isAbout service call.host (service.asked call.request) other = true → other = call := by
    intro other among same
    rcases isAbout_iff.mp same with ⟨host, subject⟩
    exact matched.carried.alone other among call waiting host subject
  rcases matched.mem_queue delivered waiting with ⟨stored, queued⟩
  have subject := matched.subject call stored (matched.queued call stored queued)
  simp only [step, poll]
  cases found : state.calls.find? (isAbout service call.host (service.asked call.request)) with
  | none => exact absurd about (List.find?_eq_none.mp found call waiting)
  | some first =>
      cases unique first (List.mem_of_find?_eq_some found) (List.find?_some found)
      cases taken : state.queue.find? (accepts service call.host
          (service.asked call.request)) with
      | none =>
          have missed := List.find?_eq_none.mp taken (call, stored) queued
          simp [accepts, subject] at missed
      | some entry =>
          rcases entry with ⟨owner, reply⟩
          have accepted := List.find?_some taken
          simp only [accepts, decide_eq_true_eq] at accepted
          have among := List.mem_of_find?_eq_some taken
          cases matched.owner_eq waiting among accepted.1 accepted.2
          exact ⟨reply, rfl, matched.queued call reply among⟩

/-! ## Requests that come in order -/

omit [DecidableEq Host] [DecidableEq Subject] in
/-- A request is delivered only when no earlier request of its host is in flight. -/
def InOrder (state : Exchange Table Host Request Reply) : Input Host Subject Request → Prop
  | .deliver position => ∀ call, state.network[position]? = some (.request call) →
      ∀ other, .request other ∈ state.network.take position → other.host ≠ call.host
  | .send _ _ | .poll _ _ => True

/-- The calls of a host. -/
def callsOf (host : Host) (calls : List (Call Host Request)) : List (Call Host Request) :=
  calls.filter fun call => call.host = host

/-- The calls that a host has started are those that are answered, in this order, followed by
those whose request is in flight. -/
def Ordered (events : List (Event Host Request Reply))
    (state : Exchange Table Host Request Reply) : Prop :=
  ∀ host, callsOf host (events.filterMap sentCall?) =
    callsOf host ((events.filterMap answeredCall?).map Prod.fst) ++ callsOf host state.requests

omit [DecidableEq Subject] in
theorem callsOf_append (host : Host) (first second : List (Call Host Request)) :
    callsOf host (first ++ second) = callsOf host first ++ callsOf host second :=
  List.filter_append ..

omit [DecidableEq Subject] in
/-- What moves no request keeps the order. -/
theorem Ordered.keep (ordered : Ordered events state) (requests : after.requests = state.requests)
    (notSent : sentCall? event = none) (notAnswered : answeredCall? event = none) :
    Ordered (events ++ [event]) after := by
  intro host
  have same := ordered host
  rw [requests, List.filterMap_append, List.filterMap_append]
  simpa [List.filterMap_cons, notSent, notAnswered] using same

omit [DecidableEq Subject] in
/-- The oldest request of a host is answered. -/
theorem Ordered.answer (ordered : Ordered events state)
    {front back : List (Flight Host Request Reply)}
    (split : state.network = front ++ .request call :: back)
    (first : ∀ other, .request other ∈ front → other.host ≠ call.host) (table : Table) :
    Ordered (events ++ [.served call reply]) { state with
      table := table
      network := front ++ back ++ [.reply call reply] } := by
  intro host
  have before := ordered host
  have taken : callsOf host state.requests =
      callsOf host [call] ++ callsOf host ((front ++ back).filterMap Flight.request?) := by
    have splitRequests : state.requests =
        front.filterMap Flight.request? ++ ([call] ++ back.filterMap Flight.request?) := by
      rw [requests, split, List.filterMap_append, List.filterMap_cons]
      rfl
    rw [splitRequests, callsOf_append, callsOf_append, List.filterMap_append, callsOf_append]
    by_cases own : call.host = host
    · have none : callsOf host (front.filterMap Flight.request?) = [] := by
        rw [callsOf, List.filter_eq_nil_iff]
        intro other member
        rcases List.mem_filterMap.mp member with ⟨flight, flying, asked⟩
        cases flight with
        | request asking =>
            cases asked
            simpa [← own] using first other flying
        | reply asking answer => cases asked
      rw [none, List.nil_append, List.nil_append]
    · have none : callsOf host [call] = [] := by simp [callsOf, own]
      rw [none, List.nil_append, List.nil_append]
  rw [taken] at before
  simpa [requests, List.filterMap_cons, sentCall?, answeredCall?, Flight.request?, callsOf_append]
    using before

theorem Ordered.step (ordered : Ordered events state) {input : Input Host Subject Request}
    (inOrder : state.InOrder input) :
    Ordered (events ++ [(state.step service input).2]) (state.step service input).1 := by
  cases input with
  | send host request =>
      intro other
      have before := ordered other
      simp only [Exchange.step, requests, List.filterMap_append, List.filterMap_cons,
        List.filterMap_nil, sentCall?, answeredCall?, Flight.request?, List.append_nil,
        callsOf_append, before, List.append_assoc]
  | deliver position =>
      simp only [Exchange.step, deliver]
      cases found : state.network[position]? with
      | none => exact ordered.keep rfl rfl rfl
      | some flight =>
          have inside := (List.getElem?_eq_some_iff.mp found).1
          have here := (List.getElem?_eq_some_iff.mp found).2
          have split : state.network =
              state.network.take position ++ flight :: state.network.drop (position + 1) := by
            rw [← here, List.getElem_cons_drop, List.take_append_drop]
          have erased : state.network.eraseIdx position =
              state.network.take position ++ state.network.drop (position + 1) :=
            List.eraseIdx_eq_take_drop_succ _ _
          cases flight with
          | request call =>
              dsimp only
              rw [erased]
              exact ordered.answer split (inOrder call found) _
          | reply call reply =>
              refine ordered.keep ?_ rfl rfl
              rw [requests, requests, erased]
              conv_rhs => rw [split]
              simp [List.filterMap_cons, Flight.request?]
  | poll host subject =>
      simp only [Exchange.step, poll]
      cases state.calls.find? (isAbout service host subject) with
      | none => exact ordered.keep rfl rfl rfl
      | some call =>
          cases state.queue.find? (accepts service host subject) with
          | none => exact ordered.keep rfl rfl rfl
          | some entry => exact ordered.keep rfl rfl rfl

/-- When requests come in order, every host is answered in the order of its calls. -/
theorem ordered_run (empty : start.Empty)
    (inOrder : (machine service).Respects start (fun _ state input => state.InOrder input)
      inputs) :
    Ordered (((machine service).trace start inputs).map Prod.snd)
      ((machine service).exec start inputs) := by
  induction inputs using List.reverseRecOn with
  | nil =>
      intro host
      simp [Machine.trace, requests, empty.2.1, callsOf]
  | append_singleton inputs input ih =>
      rcases Machine.respects_concat.mp inOrder with ⟨earlier, last⟩
      rw [Machine.trace_concat, Machine.exec_concat, List.map_append]
      exact (ih earlier).step last

end Exchange

end MultiMaster.Foundation
