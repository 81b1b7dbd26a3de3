import Mathlib.Data.Fintype.Defs
import Mathlib.Data.List.Nodup
import MultiMaster.Foundation.Exchange

/-!
# Leases in an exchange

Some replies of a service lease a subject to the host that asked, and some requests give a
lease back.  The service counts a lease from its answer until the answer to a request that
gives it back.  The host counts it from the return of its call until it starts the call that
gives it back.

Messages overtake each other between the two, so the views differ for a while.  When every
host goes by its own view, a host only counts leases that the service counts as well, and
the service is only asked what agrees with its own view.
-/

namespace MultiMaster.Foundation

universe u

/-- Which replies lease a subject, in which mode, and which requests give it back. -/
structure LeaseTerms (Request Reply Mode : Type u) where
  leases : Request → Reply → Mode → Prop
  releases : Request → Prop
  apart : ∀ request reply mode, leases request reply mode → ¬releases request

namespace Exchange

variable {Table Host Subject Request Reply Mode : Type u}

section Views

variable (service : Service Table Host Subject Request Reply)
variable (terms : LeaseTerms Request Reply Mode) (host : Host) (subject : Subject) (mode : Mode)

/-- A request of a host about a subject. -/
def Concerns (asker : Host) (request : Request) : Prop :=
  asker = host ∧ service.asked request = subject

/-- The view of the service: it has leased the subject to the host and has not been given
it back since. -/
def Held (answers : List ((Host × Request) × Reply)) : Prop :=
  Since
    (fun answer => Concerns service host subject answer.1.1 answer.1.2 ∧
      terms.leases answer.1.2 answer.2 mode)
    (fun answer => Concerns service host subject answer.1.1 answer.1.2 ∧
      terms.releases answer.1.2) answers

def Acquires : Event Host Request Reply → Prop
  | .returned call _ reply =>
      Concerns service host subject call.host call.request ∧
        terms.leases call.request reply mode
  | .sent _ | .served _ _ | .queued _ | .waiting _ | .ignored => False

def GivesBack : Event Host Request Reply → Prop
  | .sent call =>
      Concerns service host subject call.host call.request ∧ terms.releases call.request
  | .returned _ _ _ | .served _ _ | .queued _ | .waiting _ | .ignored => False

/-- The view of the host: a call has returned the lease, and the host has not started to give
it back since. -/
def Believed (events : List (Event Host Request Reply)) : Prop :=
  Since (Acquires service terms host subject mode) (GivesBack service terms host subject) events

end Views

/-- A lease is given back by who has it, and asked for by who does not. -/
def Orderly (releases : Prop) (leased : Mode → Prop) : Prop :=
  (releases → ∃ mode, leased mode) ∧ (¬releases → ∀ mode, ¬leased mode)

/-- The host goes by its own view when it starts a call. -/
def Disciplined (service : Service Table Host Subject Request Reply)
    (terms : LeaseTerms Request Reply Mode) (events : List (Event Host Request Reply)) :
    Input Host Subject Request → Prop
  | .send host request => Orderly (terms.releases request) fun mode =>
      Believed service terms host (service.asked request) mode events
  | .deliver _ | .poll _ _ => True

section Decidability

variable [DecidableEq Host] [DecidableEq Subject] [Fintype Mode]
variable (service : Service Table Host Subject Request Reply)
variable (terms : LeaseTerms Request Reply Mode) [DecidablePred terms.releases]
variable [∀ request reply mode, Decidable (terms.leases request reply mode)]

instance (host : Host) (subject : Subject) (asker : Host) (request : Request) :
    Decidable (Concerns service host subject asker request) :=
  inferInstanceAs (Decidable (_ ∧ _))

instance (host : Host) (subject : Subject) (mode : Mode) :
    DecidablePred (Acquires service terms host subject mode)
  | .returned _ _ _ => inferInstanceAs (Decidable (_ ∧ _))
  | .sent _ | .served _ _ | .queued _ | .waiting _ | .ignored => isFalse id

instance (host : Host) (subject : Subject) :
    DecidablePred (GivesBack service terms host subject)
  | .sent _ => inferInstanceAs (Decidable (_ ∧ _))
  | .returned _ _ _ | .served _ _ | .queued _ | .waiting _ | .ignored => isFalse id

instance (host : Host) (subject : Subject) (mode : Mode)
    (events : List (Event Host Request Reply)) :
    Decidable (Believed service terms host subject mode events) :=
  Since.decidable events

instance (releases : Prop) [Decidable releases] (leased : Mode → Prop) [DecidablePred leased] :
    Decidable (Orderly releases leased) :=
  inferInstanceAs (Decidable (_ ∧ _))

instance (events : List (Event Host Request Reply)) :
    DecidablePred (Disciplined service terms events)
  | .send host request => inferInstanceAs (Decidable (Orderly (terms.releases request) fun mode =>
      Believed service terms host (service.asked request) mode events))
  | .deliver _ | .poll _ _ => isTrue trivial

end Decidability

variable {service : Service Table Host Subject Request Reply}
variable {terms : LeaseTerms Request Reply Mode}
variable {host : Host} {subject : Subject} {mode : Mode}
variable {history : History Host Subject Request Reply}
variable {state after : Exchange Table Host Request Reply}
variable {input : Input Host Subject Request} {event : Event Host Request Reply}
variable {call : Call Host Request} {reply : Reply}

/-! ## The views along a history -/

theorem held_concat {answers : List ((Host × Request) × Reply)}
    {answer : (Host × Request) × Reply} :
    Held service terms host subject mode (answers ++ [answer]) ↔
      (Concerns service host subject answer.1.1 answer.1.2 ∧
          terms.leases answer.1.2 answer.2 mode) ∨
        (Held service terms host subject mode answers ∧
          ¬(Concerns service host subject answer.1.1 answer.1.2 ∧
            terms.releases answer.1.2)) :=
  since_concat

/-- An answer about something else changes no lease. -/
theorem held_concat_of_not_concerns {answers : List ((Host × Request) × Reply)}
    {answer : (Host × Request) × Reply}
    (other : ¬Concerns service host subject answer.1.1 answer.1.2) :
    Held service terms host subject mode (answers ++ [answer]) ↔
      Held service terms host subject mode answers := by
  rw [held_concat]
  simp [other]

/-- After an orderly answer the host has what the answer leases. -/
theorem held_concat_of_orderly {answers : List ((Host × Request) × Reply)} {request : Request}
    (orderly : Orderly (terms.releases request) fun mode =>
      Held service terms host (service.asked request) mode answers) (reply : Reply) :
    Held service terms host (service.asked request) mode (answers ++ [((host, request), reply)]) ↔
      terms.leases request reply mode := by
  have own : Concerns service host (service.asked request) host request := ⟨rfl, rfl⟩
  rw [held_concat]
  simp only [own, true_and]
  by_cases releasing : terms.releases request
  · simp [releasing]
  · simp [releasing, orderly.2 releasing mode]

theorem believed_concat {events : List (Event Host Request Reply)} :
    Believed service terms host subject mode (events ++ [event]) ↔
      Acquires service terms host subject mode event ∨
        (Believed service terms host subject mode events ∧
          ¬GivesBack service terms host subject event) :=
  since_concat

/-- Events that neither start nor end a call change no belief. -/
theorem believed_concat_of_silent {events : List (Event Host Request Reply)}
    (notReturned : consumedTicket? event = none) (notSent : sentTicket? event = none) :
    Believed service terms host subject mode (events ++ [event]) ↔
      Believed service terms host subject mode events := by
  rw [believed_concat]
  cases event with
  | sent call => cases notSent
  | returned call consumed reply => cases notReturned
  | served call reply => simp [Acquires, GivesBack]
  | queued ticket => simp [Acquires, GivesBack]
  | waiting ticket => simp [Acquires, GivesBack]
  | ignored => simp [Acquires, GivesBack]

theorem believed_sent {events : List (Event Host Request Reply)} :
    Believed service terms host subject mode (events ++ [.sent call]) ↔
      Believed service terms host subject mode events ∧
        ¬(Concerns service host subject call.host call.request ∧
          terms.releases call.request) := by
  rw [believed_concat]
  simp [Acquires, GivesBack]

theorem believed_returned {events : List (Event Host Request Reply)} {consumed : Nat} :
    Believed service terms host subject mode (events ++ [.returned call consumed reply]) ↔
      (Concerns service host subject call.host call.request ∧
          terms.leases call.request reply mode) ∨
        Believed service terms host subject mode events := by
  rw [believed_concat]
  simp [Acquires, GivesBack]

/-! ## The invariant -/

/-- A host has an unfinished call about a subject. -/
def Busy (service : Service Table Host Subject Request Reply)
    (state : Exchange Table Host Request Reply) (host : Host) (subject : Subject) : Prop :=
  ∃ call ∈ state.calls, Concerns service host subject call.host call.request

/-- How the two views go together.  They agree about a host and a subject as long as no call
is unfinished.  During a call the host counts no lease, and the service counts what it did
before the answer, or what the answer leases. -/
structure Leased (service : Service Table Host Subject Request Reply)
    (terms : LeaseTerms Request Reply Mode) (start : Table)
    (history : History Host Subject Request Reply)
    (state : Exchange Table Host Request Reply) : Prop where
  agree : ∀ host subject, ¬Busy service state host subject → ∀ mode,
    Held service terms host subject mode (servings history) ↔
      Believed service terms host subject mode (history.map Prod.snd)
  busy : ∀ host subject, Busy service state host subject → ∀ mode,
    ¬Believed service terms host subject mode (history.map Prod.snd)
  asking : ∀ call, .request call ∈ state.network →
    Orderly (terms.releases call.request) fun mode =>
      Held service terms call.host (service.asked call.request) mode (servings history)
  answered : ∀ call reply, .reply call reply ∈ state.network ∨ (call, reply) ∈ state.queue →
    ∀ mode, Held service terms call.host (service.asked call.request) mode (servings history) ↔
      terms.leases call.request reply mode
  orderly : service.answer.Respects start (fun answers _ question =>
    Orderly (terms.releases question.2) fun mode =>
      Held service terms question.1 (service.asked question.2) mode answers)
    ((servings history).map Prod.fst)

theorem leased_empty (empty : state.Empty) :
    Leased service terms state.table ([] : History Host Subject Request Reply) state := by
  rcases empty with ⟨calls, network, queue⟩
  constructor
  · intro host subject _ mode
    exact ⟨fun held => absurd held not_since_nil, fun believed => absurd believed not_since_nil⟩
  · intro host subject _ mode
    exact not_since_nil
  · simp [network]
  · simp [network, queue]
  · exact Machine.respects_nil

/-! ## What a step does to the views -/

theorem Concerns.eq_of_carried (carried : Carried service state) {other : Call Host Request}
    (member : call ∈ state.calls) (among : other ∈ state.calls)
    (concerns : Concerns service other.host (service.asked other.request) call.host
      call.request) : call = other :=
  carried.alone call member other among concerns.1 concerns.2

/-- The calls of messages that are left after one was taken out of the network are not the
call of that message. -/
theorem Carried.call_ne_of_split (carried : Carried service state)
    {front back : List (Flight Host Request Reply)} {flight : Flight Host Request Reply}
    (split : state.network = front ++ flight :: back) {other : Call Host Request}
    (member : (∃ left ∈ front ++ back, left.call = other) ∨
      ∃ reply, (other, reply) ∈ state.queue) : flight.call ≠ other := by
  have distinct := carried.messages.nodup (List.Nodup.of_map _ carried.tickets)
  have moved : (state.network.map Flight.call ++ state.queue.map Prod.fst).Perm
      (flight.call :: ((front ++ back).map Flight.call ++ state.queue.map Prod.fst)) := by
    rw [split]
    exact (List.perm_middle.map _).append_right _
  rintro rfl
  refine (List.nodup_cons.mp (moved.nodup distinct)).1 ?_
  rcases member with ⟨left, inRest, same⟩ | ⟨reply, queued⟩
  · exact List.mem_append_left _ (List.mem_map.mpr ⟨left, inRest, same⟩)
  · exact List.mem_append_right _ (List.mem_map.mpr ⟨_, queued, rfl⟩)

theorem Leased.send {start : Table} (leased : Leased service terms start history state)
    (alone : ∀ other ∈ state.calls, other.host = call.host →
      service.asked other.request ≠ service.asked call.request)
    (disciplined : Orderly (terms.releases call.request) fun mode =>
      Believed service terms call.host (service.asked call.request) mode
        (history.map Prod.snd)) :
    Leased service terms start (history ++ [(input, .sent call)]) { state with
      calls := state.calls ++ [call]
      network := state.network ++ [.request call]
      next := state.next + 1 } := by
  have same : servings (history ++ [(input, .sent call)]) = servings history := by
    rw [servings_concat, serving?, Option.toList_none, List.append_nil]
  have free : ¬Busy service state call.host (service.asked call.request) := by
    rintro ⟨other, member, sameHost, sameSubject⟩
    exact alone other member sameHost sameSubject
  constructor
  · intro host subject idle mode
    have idleBefore : ¬Busy service state host subject := by
      rintro ⟨other, member, concerns⟩
      exact idle ⟨other, List.mem_append_left _ member, concerns⟩
    rw [same, List.map_append, List.map_singleton, believed_sent,
      leased.agree host subject idleBefore]
    have other : ¬Concerns service host subject call.host call.request := fun concerns =>
      idle ⟨call, List.mem_append_right _ (List.mem_singleton_self _), concerns⟩
    simp [other]
  · rintro host subject ⟨other, member, concerns⟩ mode
    rw [List.map_append, List.map_singleton, believed_sent]
    rcases List.mem_append.mp member with old | new
    · exact fun believed => leased.busy host subject ⟨other, old, concerns⟩ mode believed.1
    · rw [List.mem_singleton.mp new] at concerns
      rintro ⟨believed, kept⟩
      rcases concerns with ⟨rfl, rfl⟩
      exact disciplined.2 (fun releasing => kept ⟨⟨rfl, rfl⟩, releasing⟩) mode believed
  · intro other member
    rw [same]
    rcases List.mem_append.mp member with old | new
    · exact leased.asking other old
    · cases List.mem_singleton.mp new
      simp only [leased.agree _ _ free]
      exact disciplined
  · intro other reply member
    rw [same]
    refine leased.answered other reply (member.imp_left fun flying => ?_)
    rcases List.mem_append.mp flying with old | new
    · exact old
    · cases List.mem_singleton.mp new
  · rw [same]
    exact leased.orderly

theorem Leased.serve {start : Table} (leased : Leased service terms start history state)
    (carried : Carried service state) (answered : Answered service start history state)
    {front back : List (Flight Host Request Reply)}
    (split : state.network = front ++ .request call :: back) :
    let answer := service.answer.step state.table (call.host, call.request)
    Leased service terms start (history ++ [(input, .served call answer.2)]) { state with
      table := answer.1
      network := front ++ back ++ [.reply call answer.2] } := by
  intro answer
  have here : .request call ∈ state.network := by simp [split]
  have inCalls : call ∈ state.calls := carried.call_mem_of_network here
  have asking := leased.asking call here
  have added : servings (history ++ [(input, Event.served call answer.2)]) =
      servings history ++ [((call.host, call.request), answer.2)] := by
    rw [servings_concat, serving?, Option.toList_some]
  have sameBelief : ∀ host subject mode,
      Believed service terms host subject mode
          ((history ++ [(input, Event.served call answer.2)]).map Prod.snd) ↔
        Believed service terms host subject mode (history.map Prod.snd) := by
    intro host subject mode
    rw [List.map_append, List.map_singleton]
    exact believed_concat_of_silent rfl rfl
  -- Other messages are about something else.
  have others : ∀ other, other ∈ state.calls → call ≠ other → ∀ mode,
      Held service terms other.host (service.asked other.request) mode
          (servings (history ++ [(input, Event.served call answer.2)])) ↔
        Held service terms other.host (service.asked other.request) mode
          (servings history) := by
    intro other member different mode
    rw [added]
    exact held_concat_of_not_concerns fun concerns =>
      different (Concerns.eq_of_carried carried inCalls member concerns)
  have rest : ∀ flight ∈ front ++ back, flight ∈ state.network := by
    intro flight member
    rw [split]
    exact mem_of_mem_removed member
  constructor
  · intro host subject idle mode
    rw [sameBelief, ← leased.agree host subject idle mode, added]
    exact held_concat_of_not_concerns fun concerns => idle ⟨call, inCalls, concerns⟩
  · intro host subject busy mode
    rw [sameBelief]
    exact leased.busy host subject busy mode
  · intro other flying
    rcases List.mem_append.mp flying with old | new
    · have different : call ≠ other := carried.call_ne_of_split split (.inl ⟨_, old, rfl⟩)
      simp only [others other (carried.call_mem_of_network (rest _ old)) different]
      exact leased.asking other (rest _ old)
    · cases List.mem_singleton.mp new
  · intro other reply member mode
    rcases member with flying | queued
    · rcases List.mem_append.mp flying with old | new
      · have different : call ≠ other := carried.call_ne_of_split split (.inl ⟨_, old, rfl⟩)
        rw [others other (carried.call_mem_of_network (rest _ old)) different]
        exact leased.answered other reply (.inl (rest _ old)) mode
      · cases List.mem_singleton.mp new
        rw [added]
        exact held_concat_of_orderly asking answer.2
    · have different : call ≠ other := carried.call_ne_of_split split (.inr ⟨_, queued⟩)
      rw [others other (carried.call_mem_of_queue queued) different]
      exact leased.answered other reply (.inr queued) mode
  · rw [added, List.map_append, List.map_singleton, Machine.respects_concat]
    refine ⟨leased.orderly, ?_⟩
    rw [← answered.answers]
    exact asking

/-- A reply that is queued, or a call that waits, changes no view. -/
theorem Leased.silent {start : Table} (leased : Leased service terms start history state)
    (calls : after.calls = state.calls)
    (asking : ∀ call, .request call ∈ after.network → .request call ∈ state.network)
    (replies : ∀ call reply, .reply call reply ∈ after.network ∨ (call, reply) ∈ after.queue →
      .reply call reply ∈ state.network ∨ (call, reply) ∈ state.queue)
    (notServed : serving? event = none) (notSent : sentTicket? event = none)
    (notReturned : consumedTicket? event = none) :
    Leased service terms start (history ++ [(input, event)]) after := by
  have same : servings (history ++ [(input, event)]) = servings history := by
    rw [servings_concat, notServed, Option.toList_none, List.append_nil]
  have sameBelief : ∀ host subject mode,
      Believed service terms host subject mode ((history ++ [(input, event)]).map Prod.snd) ↔
        Believed service terms host subject mode (history.map Prod.snd) := by
    intro host subject mode
    rw [List.map_append, List.map_singleton]
    exact believed_concat_of_silent notReturned notSent
  have sameBusy : ∀ host subject, Busy service after host subject ↔
      Busy service state host subject := by
    intro host subject
    rw [Busy, Busy, calls]
  constructor
  · intro host subject idle mode
    rw [same, sameBelief]
    exact leased.agree host subject (fun busy => idle ((sameBusy _ _).mpr busy)) mode
  · intro host subject busy mode
    rw [sameBelief]
    exact leased.busy host subject ((sameBusy _ _).mp busy) mode
  · intro call flying
    rw [same]
    exact leased.asking call (asking call flying)
  · intro call reply member
    rw [same]
    exact leased.answered call reply (replies call reply member)
  · rw [same]
    exact leased.orderly

theorem Leased.finish {start : Table} (leased : Leased service terms start history state)
    (carried : Carried service state) {before behind : List (Call Host Request)}
    {front back : List (Call Host Request × Reply)} {consumed : Nat}
    (calls : state.calls = before ++ call :: behind)
    (queue : state.queue = front ++ (call, reply) :: back) :
    Leased service terms start (history ++ [(input, .returned call consumed reply)])
      { state with
        calls := before ++ behind
        queue := front ++ back } := by
  have same : servings (history ++ [(input, .returned call consumed reply)]) =
      servings history := by
    rw [servings_concat, serving?, Option.toList_none, List.append_nil]
  have inCalls : call ∈ state.calls := by simp [calls]
  have left : ∀ other ∈ before ++ behind, other ∈ state.calls := by
    intro other member
    rw [calls]
    exact mem_of_mem_removed member
  constructor
  · intro host subject idle mode
    rw [same, List.map_append, List.map_singleton, believed_returned]
    by_cases concerns : Concerns service host subject call.host call.request
    · have notBelieved := leased.busy host subject ⟨call, inCalls, concerns⟩ mode
      have held := leased.answered call reply (.inr (by simp [queue])) mode
      rcases concerns with ⟨rfl, rfl⟩
      rw [held]
      simp [Concerns, notBelieved]
    · rw [leased.agree host subject ?_ mode]
      · simp [concerns]
      · rintro ⟨other, member, about⟩
        rw [calls, List.mem_append, List.mem_cons] at member
        rcases member with early | rfl | late
        · exact idle ⟨other, List.mem_append_left _ early, about⟩
        · exact concerns about
        · exact idle ⟨other, List.mem_append_right _ late, about⟩
  · rintro host subject ⟨other, member, about⟩ mode
    rw [List.map_append, List.map_singleton, believed_returned]
    rintro (⟨concerns, _⟩ | believed)
    · have equal : call = other := by
        rcases about with ⟨rfl, rfl⟩
        exact Concerns.eq_of_carried carried inCalls (left other member) concerns
      subst other
      exact carried.ticket_notMem_of_finish calls (List.mem_map_of_mem member)
    · exact leased.busy host subject ⟨other, left other member, about⟩ mode believed
  · intro other flying
    rw [same]
    exact leased.asking other flying
  · intro other answer member
    rw [same]
    refine leased.answered other answer (member.imp_right fun queued => ?_)
    rw [queue]
    exact mem_of_mem_removed queued
  · rw [same]
    exact leased.orderly

/-- Each allowed step of a disciplined host keeps the views together. -/
theorem Effect.leased {start : Table} (effect : Effect service state after event)
    (matched : Matched service history state) (answered : Answered service start history state)
    (leased : Leased service terms start history state)
    (disciplined : ∀ call, event = .sent call → Orderly (terms.releases call.request) fun mode =>
      Believed service terms call.host (service.asked call.request) mode
        (history.map Prod.snd)) :
    Leased service terms start (history ++ [(input, event)]) after := by
  cases effect with
  | sent call ticket alone moved =>
      subst moved
      exact leased.send alone (disciplined call rfl)
  | served front call back split moved =>
      subst moved
      exact leased.serve matched.carried answered split
  | queued front call reply back split moved =>
      subst moved
      have kept : ∀ flight ∈ front ++ back, flight ∈ state.network := by
        intro flight member
        rw [split]
        exact mem_of_mem_removed member
      refine leased.silent rfl (fun other flying => kept _ flying) ?_ rfl rfl rfl
      rintro other answer (flying | queued)
      · exact .inl (kept _ flying)
      · rcases List.mem_append.mp queued with old | new
        · exact .inr old
        · cases List.mem_singleton.mp new
          exact .inl (by simp [split])
  | returned before call behind front owner reply back calls queue host subject moved =>
      subst moved
      have same : owner = call :=
        matched.owner_eq (by simp [calls]) (by simp [queue]) host subject
      subst same
      exact leased.finish matched.carried calls queue
  | waiting ticket same =>
      subst same
      exact leased.silent rfl (fun _ flying => flying) (fun _ _ member => member) rfl rfl rfl

/-- Whatever a host counts as leased, the service counts as leased to it. -/
theorem Leased.held_of_believed {table : Table} (leased : Leased service terms table history state)
    (believed : Believed service terms host subject mode (history.map Prod.snd)) :
    Held service terms host subject mode (servings history) := by
  by_cases busy : Busy service state host subject
  · exact absurd believed (leased.busy host subject busy mode)
  · exact (leased.agree host subject busy mode).mpr believed

/-! ## Every run -/

section Runs

variable [DecidableEq Host] [DecidableEq Subject]
variable {start : Exchange Table Host Request Reply}
variable {inputs : List (Input Host Subject Request)}

/-- A call is only sent when its host starts it. -/
theorem input_of_sent {call : Call Host Request}
    (sent : (state.step service input).2 = .sent call) :
    input = .send call.host call.request := by
  cases input with
  | send host request =>
      cases sent
      rfl
  | deliver position =>
      simp only [step, deliver] at sent
      split at sent <;> cases sent
  | poll host subject =>
      simp only [step, poll] at sent
      split at sent
      · cases sent
      · split at sent <;> cases sent

/-- The calls that were sent are those that were started. -/
theorem send_mem_of_sent {call : Call Host Request}
    (sent : Sent ((machine service).trace start inputs) call) :
    .send call.host call.request ∈ inputs := by
  induction inputs generalizing start with
  | nil => simp [Sent, Machine.trace] at sent
  | cons input rest ih =>
      rw [Sent, Machine.trace_cons, List.map_cons, List.mem_cons] at sent
      rcases sent with now | later
      · rw [input_of_sent now.symm]
        exact List.mem_cons_self
      · exact List.mem_cons_of_mem _ (ih later)

/-- Runs in which every step is allowed and every host goes by its own view. -/
def DisciplinedRun (service : Service Table Host Subject Request Reply)
    (terms : LeaseTerms Request Reply Mode) (start : Exchange Table Host Request Reply)
    (inputs : List (Input Host Subject Request)) : Prop :=
  (machine service).Respects start (fun history state input =>
    state.Allowed service input ∧ Disciplined service terms (history.map Prod.snd) input) inputs

theorem DisciplinedRun.allowed (run : DisciplinedRun service terms start inputs) :
    AllowedRun service start inputs :=
  fun before input behind split => (run before input behind split).1

theorem leased_run (empty : start.Empty) (run : DisciplinedRun service terms start inputs) :
    Leased service terms start.table ((machine service).trace start inputs)
      ((machine service).exec start inputs) := by
  induction inputs using List.reverseRecOn with
  | nil => exact leased_empty empty
  | append_singleton inputs input ih =>
      rcases Machine.respects_concat.mp run with ⟨earlier, allowed, disciplined⟩
      have before : DisciplinedRun service terms start inputs := earlier
      rw [Machine.trace_concat, Machine.exec_concat]
      refine (step_effect allowed).leased (matched_run empty before.allowed)
        (answered_run before.allowed) (ih before) ?_
      intro call sent
      rw [input_of_sent sent] at disciplined
      exact disciplined

end Runs

end Exchange

end MultiMaster.Foundation
