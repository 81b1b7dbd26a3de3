import Mathlib.Data.List.Perm.Basic
import MultiMaster.Foundation.Machine

/-!
# Calls answered over an unordered network

Hosts call a service over a network that delivers every message once, in any order.
Neither requests nor replies say which call they belong to: a reply is queued at the
host it is sent to, and a waiting call takes the first queued reply about its own
subject.  Each call still gets the answer to its own request, provided that a host has
at most one unfinished call about a subject and that the service answers about the
subject it was asked about.

Calls are numbered by tickets and messages are kept with their calls in order to say
this.  Every unfinished call has exactly one message: its request or its reply in
flight, or its reply in the queue.
-/

namespace MultiMaster.Foundation

universe u

/-- One call of a host, with the number that tells it from all others. -/
structure Call (Host Request : Type u) where
  ticket : Nat
  host : Host
  request : Request
  deriving DecidableEq

/-- A message in flight and the call it belongs to. -/
inductive Flight (Host Request Reply : Type u) where
  | request (call : Call Host Request)
  | reply (call : Call Host Request) (reply : Reply)

def Flight.call {Host Request Reply : Type u} :
    Flight Host Request Reply → Call Host Request
  | .request call | .reply call _ => call

/-- A service whose answers are about what it was asked about. -/
structure Service (Table Host Subject Request Reply : Type u) where
  answer : Machine Table (Host × Request) Reply
  asked : Request → Subject
  answered : Reply → Subject
  faithful : ∀ table host request,
    answered (answer.step table (host, request)).2 = asked request

/-- The table of the service, the unfinished calls, the messages in flight and the
queued replies of all hosts. -/
structure Exchange (Table Host Request Reply : Type u) where
  table : Table
  calls : List (Call Host Request)
  network : List (Flight Host Request Reply)
  queue : List (Call Host Request × Reply)
  next : Nat

namespace Exchange

inductive Input (Host Subject Request : Type u) where
  | send (host : Host) (request : Request)
  | deliver (position : Nat)
  | poll (host : Host) (subject : Subject)

/-- What a step did.  `consumed` is the ticket of the call that the returned reply was
computed for. -/
inductive Event (Host Request Reply : Type u) where
  | sent (call : Call Host Request)
  | served (call : Call Host Request) (reply : Reply)
  | queued (ticket : Nat)
  | returned (call : Call Host Request) (consumed : Nat) (reply : Reply)
  | waiting (ticket : Nat)
  | ignored
  deriving DecidableEq

variable {Table Host Subject Request Reply : Type u}

section Steps

variable [DecidableEq Host] [DecidableEq Subject]

/-- The calls of a host about a subject. -/
def isAbout (service : Service Table Host Subject Request Reply) (host : Host)
    (subject : Subject) (call : Call Host Request) : Bool :=
  call.host = host ∧ service.asked call.request = subject

/-- The queued replies to a host about a subject. -/
def accepts (service : Service Table Host Subject Request Reply) (host : Host)
    (subject : Subject) (entry : Call Host Request × Reply) : Bool :=
  entry.1.host = host ∧ service.answered entry.2 = subject

def deliver (service : Service Table Host Subject Request Reply)
    (state : Exchange Table Host Request Reply) (position : Nat) :
    Exchange Table Host Request Reply × Event Host Request Reply :=
  match state.network[position]? with
  | none => (state, .ignored)
  | some (.request call) =>
      let answer := service.answer.step state.table (call.host, call.request)
      ({ state with
        table := answer.1
        network := state.network.eraseIdx position ++ [.reply call answer.2] },
        .served call answer.2)
  | some (.reply call reply) =>
      ({ state with
        network := state.network.eraseIdx position
        queue := state.queue ++ [(call, reply)] },
        .queued call.ticket)

def poll (service : Service Table Host Subject Request Reply)
    (state : Exchange Table Host Request Reply) (host : Host) (subject : Subject) :
    Exchange Table Host Request Reply × Event Host Request Reply :=
  match state.calls.find? (isAbout service host subject) with
  | none => (state, .ignored)
  | some call =>
      match state.queue.find? (accepts service host subject) with
      | none => (state, .waiting call.ticket)
      | some entry =>
          ({ state with
            calls := state.calls.eraseP (isAbout service host subject)
            queue := state.queue.eraseP (accepts service host subject) },
            .returned call entry.1.ticket entry.2)

def step (service : Service Table Host Subject Request Reply)
    (state : Exchange Table Host Request Reply) :
    Input Host Subject Request →
      Exchange Table Host Request Reply × Event Host Request Reply
  | .send host request =>
      let call : Call Host Request := ⟨state.next, host, request⟩
      ({ state with
        calls := state.calls ++ [call]
        network := state.network ++ [.request call]
        next := state.next + 1 }, .sent call)
  | .deliver position => state.deliver service position
  | .poll host subject => state.poll service host subject

/-- The exchange as a machine. -/
def machine (service : Service Table Host Subject Request Reply) :
    Machine (Exchange Table Host Request Reply) (Input Host Subject Request)
      (Event Host Request Reply) where
  step := step service

/-- A host starts no second call about a subject while the first is unfinished, and
only messages in flight are delivered and only unfinished calls wait. -/
def Allowed (service : Service Table Host Subject Request Reply)
    (state : Exchange Table Host Request Reply) : Input Host Subject Request → Prop
  | .send host request =>
      ∀ call ∈ state.calls, isAbout service host (service.asked request) call = false
  | .deliver position => position < state.network.length
  | .poll host subject => ∃ call ∈ state.calls, isAbout service host subject call = true

end Steps

/-- Nothing has been called yet. -/
def Empty (state : Exchange Table Host Request Reply) : Prop :=
  state.calls = [] ∧ state.network = [] ∧ state.queue = []

/-! ## What a step does -/

/-- The ways in which an allowed step moves messages. -/
inductive Effect (service : Service Table Host Subject Request Reply)
    (state after : Exchange Table Host Request Reply) : Event Host Request Reply → Prop where
  | sent (call : Call Host Request) (ticket : call.ticket = state.next)
      (alone : ∀ other ∈ state.calls, other.host = call.host →
        service.asked other.request ≠ service.asked call.request)
      (moved : after = { state with
        calls := state.calls ++ [call]
        network := state.network ++ [.request call]
        next := state.next + 1 }) : Effect service state after (.sent call)
  | served (front : List (Flight Host Request Reply)) (call : Call Host Request)
      (back : List (Flight Host Request Reply))
      (split : state.network = front ++ .request call :: back)
      (moved : after = { state with
        table := (service.answer.step state.table (call.host, call.request)).1
        network := front ++ back ++
          [.reply call (service.answer.step state.table (call.host, call.request)).2] }) :
      Effect service state after
        (.served call (service.answer.step state.table (call.host, call.request)).2)
  | queued (front : List (Flight Host Request Reply)) (call : Call Host Request)
      (reply : Reply) (back : List (Flight Host Request Reply))
      (split : state.network = front ++ .reply call reply :: back)
      (moved : after = { state with
        network := front ++ back
        queue := state.queue ++ [(call, reply)] }) :
      Effect service state after (.queued call.ticket)
  | returned (before : List (Call Host Request)) (call : Call Host Request)
      (behind : List (Call Host Request)) (front : List (Call Host Request × Reply))
      (owner : Call Host Request) (reply : Reply) (back : List (Call Host Request × Reply))
      (calls : state.calls = before ++ call :: behind)
      (queue : state.queue = front ++ (owner, reply) :: back)
      (host : owner.host = call.host)
      (subject : service.answered reply = service.asked call.request)
      (moved : after = { state with
        calls := before ++ behind
        queue := front ++ back }) :
      Effect service state after (.returned call owner.ticket reply)
  | waiting (ticket : Nat) (same : after = state) : Effect service state after (.waiting ticket)

/-- Taking the first element that satisfies a test. -/
theorem find?_eraseP_split {Entry : Type u} {test : Entry → Bool} {list : List Entry}
    {entry : Entry} (found : list.find? test = some entry) :
    ∃ front back, list = front ++ entry :: back ∧ list.eraseP test = front ++ back ∧
      test entry = true := by
  rcases List.find?_eq_some_iff_append.mp found with ⟨accepted, front, back, rfl, rejected⟩
  refine ⟨front, back, rfl, ?_, accepted⟩
  rw [List.eraseP_append_right _ fun other member => by simpa using rejected other member,
    List.eraseP_cons_of_pos accepted]

theorem eraseIdx_split {Entry : Type u} {list : List Entry} {position : Nat} {entry : Entry}
    (found : list[position]? = some entry) :
    ∃ front back, list = front ++ entry :: back ∧
      list.eraseIdx position = front ++ back := by
  rcases List.getElem?_eq_some_iff.mp found with ⟨inside, rfl⟩
  refine ⟨list.take position, list.drop (position + 1), ?_, List.eraseIdx_eq_take_drop_succ _ _⟩
  rw [List.getElem_cons_drop, List.take_append_drop]

/-- What is left of a list without one element was in the list. -/
theorem mem_of_mem_removed {Entry : Type u} {front back : List Entry} {entry other : Entry}
    (member : other ∈ front ++ back) : other ∈ front ++ entry :: back :=
  ((List.sublist_cons_self entry back).append_left front).subset member

theorem nodup_concat {Entry : Type u} {list : List Entry} {entry : Entry}
    (new : entry ∉ list) (once : list.Nodup) : (list ++ [entry]).Nodup :=
  (List.perm_append_singleton entry list).symm.nodup (List.nodup_cons.mpr ⟨new, once⟩)

variable {service : Service Table Host Subject Request Reply}
variable {state after : Exchange Table Host Request Reply}

section Steps

variable [DecidableEq Host] [DecidableEq Subject]

theorem isAbout_iff {host : Host} {subject : Subject} {call : Call Host Request} :
    isAbout service host subject call = true ↔
      call.host = host ∧ service.asked call.request = subject := by
  simp [isAbout]

theorem step_effect {input : Input Host Subject Request}
    (allowed : state.Allowed service input) :
    Effect service state (state.step service input).1 (state.step service input).2 := by
  cases input with
  | send host request =>
      refine .sent ⟨state.next, host, request⟩ rfl ?_ rfl
      intro other member sameHost sameSubject
      have different := allowed other member
      rw [isAbout_iff.mpr ⟨sameHost, sameSubject⟩] at different
      cases different
  | deliver position =>
      simp only [step, deliver]
      cases found : state.network[position]? with
      | none => exact absurd (List.getElem?_eq_none_iff.mp found) (Nat.not_le.mpr allowed)
      | some flight =>
          rcases eraseIdx_split found with ⟨front, back, split, erased⟩
          cases flight with
          | request call => exact .served front call back split (by simp [erased])
          | reply call reply => exact .queued front call reply back split (by simp [erased])
  | poll host subject =>
      simp only [step, poll]
      cases found : state.calls.find? (isAbout service host subject) with
      | none =>
          rcases allowed with ⟨call, member, about⟩
          exact absurd about (List.find?_eq_none.mp found call member)
      | some call =>
          rcases find?_eraseP_split found with ⟨before, behind, calls, erased, about⟩
          rcases isAbout_iff.mp about with ⟨rfl, rfl⟩
          cases taken : state.queue.find? (accepts service call.host _) with
          | none => exact .waiting call.ticket rfl
          | some entry =>
              rcases find?_eraseP_split taken with ⟨front, back, queue, rest, accepted⟩
              simp only [accepts, decide_eq_true_eq] at accepted
              exact .returned before call behind front entry.1 entry.2 back calls queue
                accepted.1 accepted.2 (by simp [erased, rest])

end Steps

/-! ## Histories -/

/-- Steps with what they did, oldest first. -/
abbrev History (Host Subject Request Reply : Type u) :=
  List (Input Host Subject Request × Event Host Request Reply)

/-- A host has started a call. -/
def Sent (history : History Host Subject Request Reply) (call : Call Host Request) : Prop :=
  .sent call ∈ history.map Prod.snd

/-- The service has computed a reply for a call. -/
def Served (history : History Host Subject Request Reply) (call : Call Host Request)
    (reply : Reply) : Prop :=
  .served call reply ∈ history.map Prod.snd

/-- A call has returned with a reply that was computed for the call `consumed`. -/
def Returned (history : History Host Subject Request Reply) (call : Call Host Request)
    (consumed : Nat) (reply : Reply) : Prop :=
  .returned call consumed reply ∈ history.map Prod.snd

/-- The question a step put to the service, with the answer. -/
def serving? : Event Host Request Reply → Option ((Host × Request) × Reply)
  | .served call reply => some ((call.host, call.request), reply)
  | .sent _ | .queued _ | .returned _ _ _ | .waiting _ | .ignored => none

/-- The questions put to the service and its answers. -/
def servings (history : History Host Subject Request Reply) :
    List ((Host × Request) × Reply) :=
  (history.map Prod.snd).filterMap serving?

def sentTicket? : Event Host Request Reply → Option Nat
  | .sent call => some call.ticket
  | .served _ _ | .queued _ | .returned _ _ _ | .waiting _ | .ignored => none

def servedTicket? : Event Host Request Reply → Option Nat
  | .served call _ => some call.ticket
  | .sent _ | .queued _ | .returned _ _ _ | .waiting _ | .ignored => none

def consumedTicket? : Event Host Request Reply → Option Nat
  | .returned _ consumed _ => some consumed
  | .sent _ | .served _ _ | .queued _ | .waiting _ | .ignored => none

/-- Tickets of the calls that were started. -/
def sentTickets (history : History Host Subject Request Reply) : List Nat :=
  (history.map Prod.snd).filterMap sentTicket?

/-- Tickets of the calls that replies were computed for. -/
def servedTickets (history : History Host Subject Request Reply) : List Nat :=
  (history.map Prod.snd).filterMap servedTicket?

/-- Tickets of the calls whose replies were consumed. -/
def consumedTickets (history : History Host Subject Request Reply) : List Nat :=
  (history.map Prod.snd).filterMap consumedTicket?

variable {history : History Host Subject Request Reply}
variable {input : Input Host Subject Request} {event : Event Host Request Reply}
variable {call : Call Host Request} {reply : Reply} {consumed : Nat}

@[simp] theorem sent_concat : Sent (history ++ [(input, event)]) call ↔
    Sent history call ∨ event = .sent call := by
  simp [Sent, eq_comm]

@[simp] theorem served_concat : Served (history ++ [(input, event)]) call reply ↔
    Served history call reply ∨ event = .served call reply := by
  simp [Served, eq_comm]

@[simp] theorem returned_concat :
    Returned (history ++ [(input, event)]) call consumed reply ↔
      Returned history call consumed reply ∨ event = .returned call consumed reply := by
  simp [Returned, eq_comm]

@[simp] theorem servings_concat : servings (history ++ [(input, event)]) =
    servings history ++ (serving? event).toList := by
  cases event <;> simp [servings, serving?]

@[simp] theorem sentTickets_concat : sentTickets (history ++ [(input, event)]) =
    sentTickets history ++ (sentTicket? event).toList := by
  cases event <;> simp [sentTickets, sentTicket?]

@[simp] theorem servedTickets_concat : servedTickets (history ++ [(input, event)]) =
    servedTickets history ++ (servedTicket? event).toList := by
  cases event <;> simp [servedTickets, servedTicket?]

@[simp] theorem consumedTickets_concat : consumedTickets (history ++ [(input, event)]) =
    consumedTickets history ++ (consumedTicket? event).toList := by
  cases event <;> simp [consumedTickets, consumedTicket?]

/-! ## Every call has one message -/

/-- The state of an exchange in which every unfinished call has exactly one message. -/
structure Carried (service : Service Table Host Subject Request Reply)
    (state : Exchange Table Host Request Reply) : Prop where
  fresh : ∀ call ∈ state.calls, call.ticket < state.next
  tickets : (state.calls.map Call.ticket).Nodup
  alone : ∀ call ∈ state.calls, ∀ other ∈ state.calls, call.host = other.host →
    service.asked call.request = service.asked other.request → call = other
  messages : state.calls.Perm (state.network.map Flight.call ++ state.queue.map Prod.fst)

theorem Carried.call_mem_of_network (carried : Carried service state)
    {flight : Flight Host Request Reply} (flying : flight ∈ state.network) :
    flight.call ∈ state.calls :=
  carried.messages.mem_iff.mpr (List.mem_append_left _ (List.mem_map_of_mem flying))

theorem Carried.call_mem_of_queue (carried : Carried service state)
    (queued : (call, reply) ∈ state.queue) : call ∈ state.calls :=
  carried.messages.mem_iff.mpr
    (List.mem_append_right _ (List.mem_map.mpr ⟨_, queued, rfl⟩))

theorem Carried.send (carried : Carried service state) (ticket : call.ticket = state.next)
    (alone : ∀ other ∈ state.calls, other.host = call.host →
      service.asked other.request ≠ service.asked call.request) :
    Carried service { state with
      calls := state.calls ++ [call]
      network := state.network ++ [.request call]
      next := state.next + 1 } := by
  constructor
  · intro other member
    rcases List.mem_append.mp member with old | new
    · exact Nat.lt_succ_of_lt (carried.fresh other old)
    · rw [List.mem_singleton.mp new, ticket]
      exact Nat.lt_succ_self _
  · rw [List.map_append, List.nodup_append]
    refine ⟨carried.tickets, by simp, ?_⟩
    intro earlier among last new
    rcases List.mem_map.mp among with ⟨other, member, rfl⟩
    have fresh := carried.fresh other member
    rw [List.map_singleton, List.mem_singleton] at new
    omega
  · intro first firstMember second secondMember sameHost sameSubject
    rcases List.mem_append.mp firstMember with firstOld | firstNew
    · rcases List.mem_append.mp secondMember with secondOld | secondNew
      · exact carried.alone first firstOld second secondOld sameHost sameSubject
      · cases List.mem_singleton.mp secondNew
        exact absurd sameSubject (alone first firstOld sameHost)
    · cases List.mem_singleton.mp firstNew
      rcases List.mem_append.mp secondMember with secondOld | secondNew
      · exact absurd sameSubject.symm (alone second secondOld sameHost.symm)
      · exact (List.mem_singleton.mp secondNew).symm
  · have longer := carried.messages.append_right [call]
    rw [List.append_assoc] at longer
    simp only [List.map_append, List.map_singleton, List.append_assoc]
    exact longer.trans (List.perm_append_comm.append_left _)

/-- A message of a call that takes the place of another one. -/
theorem Carried.replace (carried : Carried service state) {table : Table}
    {network : List (Flight Host Request Reply)} {queue : List (Call Host Request × Reply)}
    (messages : (state.network.map Flight.call ++ state.queue.map Prod.fst).Perm
      (network.map Flight.call ++ queue.map Prod.fst)) :
    Carried service { state with table := table, network := network, queue := queue } :=
  ⟨carried.fresh, carried.tickets, carried.alone, carried.messages.trans messages⟩

theorem Carried.finish (carried : Carried service state)
    {before behind : List (Call Host Request)} {front back : List (Call Host Request × Reply)}
    (calls : state.calls = before ++ call :: behind)
    (queue : state.queue = front ++ (call, reply) :: back) :
    Carried service { state with
      calls := before ++ behind
      queue := front ++ back } := by
  have shorter : (before ++ behind).Sublist state.calls := by
    rw [calls]
    exact (List.sublist_cons_self call behind).append_left before
  refine ⟨fun other member => carried.fresh other (shorter.subset member),
    carried.tickets.sublist (shorter.map _), ?_, ?_⟩
  · intro first firstMember second secondMember
    exact carried.alone first (shorter.subset firstMember) second (shorter.subset secondMember)
  · have messages := carried.messages
    simp only [calls, queue, List.map_append, List.map_cons, ← List.append_assoc] at messages
    simp only [List.map_append, ← List.append_assoc]
    exact List.Perm.cons_inv
      (List.perm_middle.symm.trans (messages.trans List.perm_middle))

/-! ## Every call gets its own answer -/

/-- What history and state of an exchange have to do with each other. -/
structure Matched (service : Service Table Host Subject Request Reply)
    (history : History Host Subject Request Reply)
    (state : Exchange Table Host Request Reply) : Prop where
  carried : Carried service state
  unserved : ∀ call, .request call ∈ state.network → call.ticket ∉ servedTickets history
  replied : ∀ call reply, .reply call reply ∈ state.network → Served history call reply
  queued : ∀ call reply, (call, reply) ∈ state.queue → Served history call reply
  subject : ∀ call reply, Served history call reply →
    service.answered reply = service.asked call.request
  issued : ∀ ticket ∈ servedTickets history, ticket < state.next
  servedOnce : (servedTickets history).Nodup
  own : ∀ call consumed reply, Returned history call consumed reply →
    consumed = call.ticket ∧ Served history call reply
  finished : ∀ ticket ∈ consumedTickets history,
    ticket < state.next ∧ ticket ∉ state.calls.map Call.ticket
  consumedOnce : (consumedTickets history).Nodup

theorem matched_empty (empty : state.Empty) :
    Matched service ([] : History Host Subject Request Reply) state := by
  rcases empty with ⟨calls, network, queue⟩
  refine ⟨⟨?_, ?_, ?_, ?_⟩, ?_, ?_, ?_, ?_, ?_, ?_, ?_, ?_, ?_⟩
  all_goals simp [calls, network, queue, Served, Returned, servedTickets, consumedTickets]

/-- The other flights of the network belong to other calls. -/
theorem Carried.ticket_ne_of_network (carried : Carried service state)
    {front back : List (Flight Host Request Reply)} {flight other : Flight Host Request Reply}
    (split : state.network = front ++ flight :: back) (member : other ∈ front ++ back) :
    other.call.ticket ≠ flight.call.ticket := by
  have distinct := (carried.messages.map Call.ticket).nodup carried.tickets
  rw [List.map_append, split, List.map_map] at distinct
  have flights := (List.perm_middle.map _).nodup (List.nodup_append.mp distinct).1
  intro same
  exact (List.nodup_cons.mp flights).1 (List.mem_map.mpr ⟨other, member, same⟩)

/-- A call that is taken off the unfinished ones is gone. -/
theorem Carried.ticket_notMem_of_finish (carried : Carried service state)
    {before behind : List (Call Host Request)}
    (calls : state.calls = before ++ call :: behind) :
    call.ticket ∉ (before ++ behind).map Call.ticket := by
  have distinct := carried.tickets
  rw [calls] at distinct
  exact (List.nodup_cons.mp ((List.perm_middle.map _).nodup distinct)).1

/-- Events that neither serve nor return a call say nothing that matters. -/
theorem Matched.silent (matched : Matched service history state)
    (notServed : servedTicket? event = none) (notReturned : consumedTicket? event = none) :
    Matched service (history ++ [(input, event)]) state := by
  have served : ∀ call reply,
      Served (history ++ [(input, event)]) call reply ↔ Served history call reply := by
    intro call reply
    rw [served_concat, or_iff_left]
    rintro rfl
    cases notServed
  have returned : ∀ call consumed reply,
      Returned (history ++ [(input, event)]) call consumed reply ↔
        Returned history call consumed reply := by
    intro call consumed reply
    rw [returned_concat, or_iff_left]
    rintro rfl
    cases notReturned
  have servedTickets : servedTickets (history ++ [(input, event)]) = servedTickets history := by
    rw [servedTickets_concat, notServed, Option.toList_none, List.append_nil]
  have consumedTickets :
      consumedTickets (history ++ [(input, event)]) = consumedTickets history := by
    rw [consumedTickets_concat, notReturned, Option.toList_none, List.append_nil]
  constructor
  · exact matched.carried
  · rw [servedTickets]
    exact matched.unserved
  · simpa only [served] using matched.replied
  · simpa only [served] using matched.queued
  · simpa only [served] using matched.subject
  · rw [servedTickets]
    exact matched.issued
  · rw [servedTickets]
    exact matched.servedOnce
  · simpa only [served, returned] using matched.own
  · rw [consumedTickets]
    exact matched.finished
  · rw [consumedTickets]
    exact matched.consumedOnce

theorem Matched.send (matched : Matched service history state)
    (ticket : call.ticket = state.next)
    (alone : ∀ other ∈ state.calls, other.host = call.host →
      service.asked other.request ≠ service.asked call.request) :
    Matched service history { state with
      calls := state.calls ++ [call]
      network := state.network ++ [.request call]
      next := state.next + 1 } := by
  refine ⟨matched.carried.send ticket alone, ?_, ?_, matched.queued, matched.subject, ?_,
    matched.servedOnce, matched.own, ?_, matched.consumedOnce⟩
  · intro other member served
    rcases List.mem_append.mp member with old | last
    · exact matched.unserved other old served
    · cases List.mem_singleton.mp last
      exact absurd (matched.issued _ served) (by omega)
  · intro other reply member
    rcases List.mem_append.mp member with old | last
    · exact matched.replied other reply old
    · cases List.mem_singleton.mp last
  · exact fun other member => Nat.lt_succ_of_lt (matched.issued other member)
  · intro other member
    rcases matched.finished other member with ⟨below, absent⟩
    refine ⟨Nat.lt_succ_of_lt below, ?_⟩
    rw [List.map_append, List.mem_append, List.map_singleton, List.mem_singleton]
    rintro (among | last)
    · exact absent among
    · omega

theorem Matched.serve (matched : Matched service history state)
    {front back : List (Flight Host Request Reply)}
    (split : state.network = front ++ .request call :: back) :
    let answer := service.answer.step state.table (call.host, call.request)
    Matched service (history ++ [(input, .served call answer.2)]) { state with
      table := answer.1
      network := front ++ back ++ [.reply call answer.2] } := by
  intro answer
  have here : .request call ∈ state.network := by simp [split]
  have others : ∀ flight ∈ front ++ back, flight ∈ state.network := by
    intro flight member
    rw [split]
    exact mem_of_mem_removed member
  have new := matched.unserved call here
  have member := matched.carried.call_mem_of_network here
  refine ⟨matched.carried.replace ?_, ?_, ?_, ?_, ?_, ?_, ?_, ?_, ?_, ?_⟩
  · apply List.Perm.append_right
    have last : ((Flight.reply call answer.2 :: (front ++ back)).map
        Flight.call).Perm ((front ++ back ++ [Flight.reply call answer.2]).map Flight.call) :=
      (List.perm_append_singleton _ _).symm.map _
    rw [split]
    exact (List.perm_middle.map _).trans last
  · intro other flying
    rw [servedTickets_concat, servedTicket?, Option.toList_some, List.mem_append,
      List.mem_singleton]
    rcases List.mem_append.mp flying with old | last
    · rintro (served | same)
      · exact matched.unserved other (others _ old) served
      · exact matched.carried.ticket_ne_of_network split old same
    · cases List.mem_singleton.mp last
  · intro other reply flying
    rw [served_concat]
    rcases List.mem_append.mp flying with old | last
    · exact .inl (matched.replied other reply (others _ old))
    · cases List.mem_singleton.mp last
      exact .inr rfl
  · intro other reply queued
    exact served_concat.mpr (.inl (matched.queued other reply queued))
  · intro other reply served
    rcases served_concat.mp served with old | last
    · exact matched.subject other reply old
    · cases last
      exact service.faithful _ _ _
  · intro ticket served
    rw [servedTickets_concat, servedTicket?, Option.toList_some, List.mem_append,
      List.mem_singleton] at served
    rcases served with old | rfl
    · exact matched.issued ticket old
    · exact matched.carried.fresh call member
  · rw [servedTickets_concat, servedTicket?, Option.toList_some]
    exact nodup_concat new matched.servedOnce
  · intro other consumed reply returned
    rcases returned_concat.mp returned with old | last
    · rcases matched.own other consumed reply old with ⟨same, served⟩
      exact ⟨same, served_concat.mpr (.inl served)⟩
    · cases last
  · rw [consumedTickets_concat, consumedTicket?, Option.toList_none, List.append_nil]
    exact matched.finished
  · rw [consumedTickets_concat, consumedTicket?, Option.toList_none, List.append_nil]
    exact matched.consumedOnce

theorem Matched.enqueue (matched : Matched service history state)
    {front back : List (Flight Host Request Reply)}
    (split : state.network = front ++ .reply call reply :: back) :
    Matched service history { state with
      network := front ++ back
      queue := state.queue ++ [(call, reply)] } := by
  have others : ∀ flight ∈ front ++ back, flight ∈ state.network := by
    intro flight member
    rw [split]
    exact mem_of_mem_removed member
  refine ⟨matched.carried.replace ?_, fun other flying =>
    matched.unserved other (others _ flying), fun other reply flying =>
    matched.replied other reply (others _ flying), ?_, matched.subject, matched.issued,
    matched.servedOnce, matched.own, matched.finished, matched.consumedOnce⟩
  · have moved : (state.network.map Flight.call).Perm
        (call :: (front ++ back).map Flight.call) := by
      rw [split]
      exact List.perm_middle.map _
    have longer : (state.queue ++ [(call, reply)]).map Prod.fst =
        state.queue.map Prod.fst ++ [call] := List.map_append
    rw [longer, ← List.append_assoc]
    exact (moved.append_right _).trans (List.perm_append_singleton _ _).symm
  · intro other answer queued
    rcases List.mem_append.mp queued with old | last
    · exact matched.queued other answer old
    · cases List.mem_singleton.mp last
      exact matched.replied call reply (by simp [split])

/-- The queued reply that a waiting call accepts is its own. -/
theorem Matched.owner_eq (matched : Matched service history state) {owner : Call Host Request}
    (waiting : call ∈ state.calls) (queued : (owner, reply) ∈ state.queue)
    (host : owner.host = call.host)
    (subject : service.answered reply = service.asked call.request) : owner = call := by
  apply matched.carried.alone owner (matched.carried.call_mem_of_queue queued) call waiting host
  rw [← subject]
  exact (matched.subject owner reply (matched.queued owner reply queued)).symm

theorem Matched.finish (matched : Matched service history state)
    {before behind : List (Call Host Request)} {front back : List (Call Host Request × Reply)}
    (calls : state.calls = before ++ call :: behind)
    (queue : state.queue = front ++ (call, reply) :: back) :
    Matched service (history ++ [(input, .returned call call.ticket reply)]) { state with
      calls := before ++ behind
      queue := front ++ back } := by
  have waiting : call ∈ state.calls := by simp [calls]
  have served := matched.queued call reply (by simp [queue])
  have fewer : ∀ other ∈ (before ++ behind).map Call.ticket,
      other ∈ state.calls.map Call.ticket := by
    rw [calls]
    exact List.map_subset _ fun _ member => mem_of_mem_removed member
  have new : call.ticket ∉ consumedTickets history := fun member =>
    (matched.finished _ member).2 (List.mem_map_of_mem waiting)
  refine ⟨matched.carried.finish calls queue, ?_, ?_, ?_, ?_, ?_, ?_, ?_, ?_, ?_⟩
  · rw [servedTickets_concat, servedTicket?, Option.toList_none, List.append_nil]
    exact matched.unserved
  · exact fun other answer flying =>
      served_concat.mpr (.inl (matched.replied other answer flying))
  · intro other answer queued
    refine served_concat.mpr (.inl (matched.queued other answer ?_))
    rw [queue]
    exact mem_of_mem_removed queued
  · intro other answer given
    rcases served_concat.mp given with old | last
    · exact matched.subject other answer old
    · cases last
  · rw [servedTickets_concat, servedTicket?, Option.toList_none, List.append_nil]
    exact matched.issued
  · rw [servedTickets_concat, servedTicket?, Option.toList_none, List.append_nil]
    exact matched.servedOnce
  · intro other consumed answer returned
    rw [served_concat]
    rcases returned_concat.mp returned with old | last
    · rcases matched.own other consumed answer old with ⟨same, given⟩
      exact ⟨same, .inl given⟩
    · cases last
      exact ⟨rfl, .inl served⟩
  · intro ticket member
    rw [consumedTickets_concat, consumedTicket?, Option.toList_some, List.mem_append,
      List.mem_singleton] at member
    rcases member with old | rfl
    · rcases matched.finished ticket old with ⟨below, absent⟩
      exact ⟨below, fun among => absent (fewer ticket among)⟩
    · exact ⟨matched.carried.fresh call waiting, matched.carried.ticket_notMem_of_finish calls⟩
  · rw [consumedTickets_concat, consumedTicket?, Option.toList_some]
    exact nodup_concat new matched.consumedOnce

/-- Each allowed step keeps history and state matched. -/
theorem Effect.matched (effect : Effect service state after event)
    (matched : Matched service history state) :
    Matched service (history ++ [(input, event)]) after := by
  cases effect with
  | sent call ticket alone moved =>
      subst moved
      exact (matched.send ticket alone).silent rfl rfl
  | served front call back split moved =>
      subst moved
      exact matched.serve split
  | queued front call reply back split moved =>
      subst moved
      exact (matched.enqueue split).silent rfl rfl
  | returned before call behind front owner reply back calls queue host subject moved =>
      subst moved
      have same : owner = call :=
        matched.owner_eq (by simp [calls]) (by simp [queue]) host subject
      subst same
      exact matched.finish calls queue
  | waiting ticket same =>
      subst same
      exact matched.silent rfl rfl

/-- The service has answered as if it had been asked directly. -/
structure Answered (service : Service Table Host Subject Request Reply) (start : Table)
    (history : History Host Subject Request Reply)
    (state : Exchange Table Host Request Reply) : Prop where
  table : state.table = service.answer.exec start ((servings history).map Prod.fst)
  answers : servings history =
    service.answer.trace start ((servings history).map Prod.fst)

theorem Answered.silent {start : Table} (answered : Answered service start history state)
    (table : after.table = state.table) (notServed : serving? event = none) :
    Answered service start (history ++ [(input, event)]) after := by
  have same : servings (history ++ [(input, event)]) = servings history := by
    rw [servings_concat, notServed, Option.toList_none, List.append_nil]
  constructor
  · rw [table, same]
    exact answered.table
  · rw [same]
    exact answered.answers

theorem Effect.answered {start : Table} (effect : Effect service state after event)
    (answered : Answered service start history state) :
    Answered service start (history ++ [(input, event)]) after := by
  cases effect with
  | sent call ticket alone moved => exact answered.silent (by rw [moved]) rfl
  | served front call back split moved =>
      subst moved
      constructor
      · simp only [servings_concat, serving?, Option.toList_some, List.map_append,
          List.map_singleton, Machine.exec_concat, ← answered.table]
      · simp only [servings_concat, serving?, Option.toList_some, List.map_append,
          List.map_singleton, Machine.trace_concat, ← answered.table, ← answered.answers]
  | queued front call reply back split moved => exact answered.silent (by rw [moved]) rfl
  | returned before call behind front owner reply back calls queue host subject moved =>
      exact answered.silent (by rw [moved]) rfl
  | waiting ticket same => exact answered.silent (by rw [same]) rfl

/-- Tickets number the calls that were started. -/
structure Numbered (history : History Host Subject Request Reply)
    (state : Exchange Table Host Request Reply) : Prop where
  below : ∀ ticket ∈ sentTickets history, ticket < state.next
  once : (sentTickets history).Nodup
  started : ∀ call ∈ state.calls, Sent history call
  returned : ∀ call consumed reply, Returned history call consumed reply → Sent history call

/-- Steps that start no call. -/
theorem Numbered.keep (numbered : Numbered history state) (next : after.next = state.next)
    (calls : ∀ call ∈ after.calls, call ∈ state.calls) (notSent : sentTicket? event = none)
    (returning : ∀ call consumed reply, event = .returned call consumed reply →
      call ∈ state.calls) :
    Numbered (history ++ [(input, event)]) after := by
  have same : sentTickets (history ++ [(input, event)]) = sentTickets history := by
    rw [sentTickets_concat, notSent, Option.toList_none, List.append_nil]
  constructor
  · rw [same, next]
    exact numbered.below
  · rw [same]
    exact numbered.once
  · exact fun call member => sent_concat.mpr (.inl (numbered.started call (calls call member)))
  · intro call consumed reply returned
    rw [sent_concat]
    rcases returned_concat.mp returned with old | last
    · exact .inl (numbered.returned call consumed reply old)
    · exact .inl (numbered.started call (returning call consumed reply last))

theorem Effect.numbered (effect : Effect service state after event)
    (numbered : Numbered history state) : Numbered (history ++ [(input, event)]) after := by
  cases effect with
  | sent call ticket alone moved =>
      subst moved
      have new : call.ticket ∉ sentTickets history := fun member =>
        absurd (numbered.below _ member) (by omega)
      constructor
      · intro other member
        rw [sentTickets_concat, sentTicket?, Option.toList_some, List.mem_append,
          List.mem_singleton] at member
        rcases member with old | rfl
        · exact Nat.lt_succ_of_lt (numbered.below other old)
        · exact Nat.lt_succ_of_le (Nat.le_of_eq ticket)
      · rw [sentTickets_concat, sentTicket?, Option.toList_some]
        exact nodup_concat new numbered.once
      · intro other member
        rw [sent_concat]
        rcases List.mem_append.mp member with old | last
        · exact .inl (numbered.started other old)
        · exact .inr (by rw [List.mem_singleton.mp last])
      · intro other consumed reply returned
        rw [sent_concat]
        rcases returned_concat.mp returned with old | last
        · exact .inl (numbered.returned other consumed reply old)
        · cases last
  | served front call back split moved =>
      subst moved
      exact numbered.keep rfl (fun _ member => member) rfl (by simp)
  | queued front call reply back split moved =>
      subst moved
      exact numbered.keep rfl (fun _ member => member) rfl (by simp)
  | returned before call behind front owner reply back calls queue host subject moved =>
      subst moved
      refine numbered.keep rfl ?_ rfl ?_
      · rw [calls]
        exact fun _ member => mem_of_mem_removed member
      · rintro _ _ _ ⟨⟩
        simp [calls]
  | waiting ticket same =>
      subst same
      exact numbered.keep rfl (fun _ member => member) rfl (by simp)

/-! ## The queue of one host -/

section Queues

variable [DecidableEq Host] [DecidableEq Subject]

/-- The replies that are queued at a host. -/
def queueOf (state : Exchange Table Host Request Reply) (host : Host) :
    List (Call Host Request × Reply) :=
  state.queue.filter fun entry => entry.1.host = host

omit [DecidableEq Subject] in
/-- A host without unfinished calls has nothing queued. -/
theorem Carried.queueOf_eq_nil (carried : Carried service state) {host : Host}
    (finished : ∀ call ∈ state.calls, call.host ≠ host) : state.queueOf host = [] := by
  rw [queueOf, List.filter_eq_nil_iff]
  intro entry queued
  simpa using finished entry.1 (carried.call_mem_of_queue queued)

theorem find?_accepts (service : Service Table Host Subject Request Reply)
    (state : Exchange Table Host Request Reply) (host : Host) (subject : Subject) :
    state.queue.find? (accepts service host subject) =
      (state.queueOf host).find? fun entry => service.answered entry.2 = subject := by
  rw [queueOf, List.find?_filter]
  congr 1
  funext entry
  simp [accepts]

theorem filter_eraseP_accepts (service : Service Table Host Subject Request Reply)
    (state : Exchange Table Host Request Reply) (host other : Host) (subject : Subject) :
    (state.queue.eraseP (accepts service host subject)).filter (fun entry =>
        entry.1.host = other) =
      if other = host then
        (state.queueOf host).eraseP fun entry => service.answered entry.2 = subject
      else
        state.queueOf other := by
  split
  · rename_i same
    subst same
    rw [queueOf, List.eraseP_filter]
    congr 2
    funext entry
    simp [accepts, Bool.and_comm]
  · rename_i different
    rw [queueOf]
    cases found : state.queue.find? (accepts service host subject) with
    | none =>
        rw [List.eraseP_of_forall_not fun entry member => by
          simpa using List.find?_eq_none.mp found entry member]
    | some entry =>
        rcases find?_eraseP_split found with ⟨front, back, split, erased, accepted⟩
        simp only [accepts, decide_eq_true_eq] at accepted
        have hidden : ¬entry.1.host = other := fun same => different (same ▸ accepted.1)
        rw [erased, split, List.filter_append, List.filter_append,
          List.filter_cons_of_neg (by simpa using hidden)]

end Queues

/-- Runs of an exchange in which every step is allowed. -/
def AllowedRun [DecidableEq Host] [DecidableEq Subject]
    (service : Service Table Host Subject Request Reply)
    (start : Exchange Table Host Request Reply)
    (inputs : List (Input Host Subject Request)) : Prop :=
  (machine service).Respects start (fun _ state input => state.Allowed service input) inputs

section Runs

variable [DecidableEq Host] [DecidableEq Subject]
variable {start : Exchange Table Host Request Reply}
variable {inputs : List (Input Host Subject Request)}

theorem matched_run (empty : start.Empty) (allowed : AllowedRun service start inputs) :
    Matched service ((machine service).trace start inputs)
      ((machine service).exec start inputs) :=
  Machine.guarded_invariant (matched_empty empty)
    (fun _ _ _ matched permitted => (step_effect permitted).matched matched) allowed

theorem numbered_run (empty : start.Empty) (allowed : AllowedRun service start inputs) :
    Numbered ((machine service).trace start inputs) ((machine service).exec start inputs) := by
  have initial : Numbered ([] : History Host Subject Request Reply) start := by
    constructor <;> simp [sentTickets, Returned, empty.1]
  refine Machine.guarded_invariant initial ?_ allowed
  intro history state input numbered permitted
  exact (step_effect permitted).numbered numbered

theorem answered_run (allowed : AllowedRun service start inputs) :
    Answered service start.table ((machine service).trace start inputs)
      ((machine service).exec start inputs) := by
  have initial : Answered service start.table
      ([] : History Host Subject Request Reply) start := ⟨rfl, rfl⟩
  refine Machine.guarded_invariant initial ?_ allowed
  intro history state input answered permitted
  exact (step_effect permitted).answered answered

omit [DecidableEq Host] [DecidableEq Subject] in
/-- Only unfinished calls are answered. -/
theorem Effect.call_mem_of_served {call : Call Host Request} {reply : Reply}
    (effect : Effect service state after (.served call reply)) (carried : Carried service state) :
    call ∈ state.calls := by
  cases effect with
  | served front call back split moved =>
      have flying : .request call ∈ state.network := by simp [split]
      exact carried.call_mem_of_network flying

/-- A call that was answered was started. -/
theorem sent_of_served (empty : start.Empty) (allowed : AllowedRun service start inputs)
    {call : Call Host Request} {reply : Reply}
    (served : Served ((machine service).trace start inputs) call reply) :
    Sent ((machine service).trace start inputs) call := by
  induction inputs using List.reverseRecOn with
  | nil => simp [Served, Machine.trace] at served
  | append_singleton inputs input ih =>
      rcases Machine.respects_concat.mp allowed with ⟨earlier, last⟩
      have before : AllowedRun service start inputs := earlier
      rw [Machine.trace_concat, served_concat] at served
      rw [Machine.trace_concat, sent_concat]
      rcases served with old | new
      · exact .inl (ih before old)
      · have effect := step_effect last
        rw [show (Exchange.step service ((machine service).exec start inputs) input).2 =
          .served call reply from new] at effect
        exact .inl ((numbered_run empty before).started call
          (effect.call_mem_of_served (matched_run empty before).carried))

end Runs

end Exchange

end MultiMaster.Foundation
