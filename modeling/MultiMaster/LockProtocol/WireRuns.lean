import MultiMaster.Foundation.Conservation
import MultiMaster.LockProtocol.WireRefinement

/-!
# Runs over connections

What every run of hosts and lock server over their connections has in common with a run of
the system that delivers whole messages: the events, the lock table and the unfinished
calls.  So calls and replies are neither lost nor duplicated on the way.  Connections that can
be relied on deliver requests in order, and keep nothing back of what has arrived.
-/

namespace MultiMaster.LockProtocol

open Foundation NetIO LockTable

/-- Runs of permitted steps over connections. -/
def WireRun (topology : Topology) (start : WireSystem) (inputs : List WireSystem.Input) : Prop :=
  (WireSystem.machine topology.lockServerHost).Respects start
    (fun _ system input => WirePermitted topology system input) inputs

abbrev WireHistory := List (WireSystem.Input × Option (List WireEvent))

/-- What was seen of a run. -/
def wireEvents (history : WireHistory) : List WireEvent := Machine.shown seeWire history

/-- What is seen of the events of the system that delivers whole messages. -/
def seen (happened : List LockSystem.LockEvent) : List WireEvent := happened.flatMap seeEvent

variable {topology : Topology} {reliable : Prop} {start : WireSystem}
variable {inputs : List WireSystem.Input} {images : List LockSystem.Input}

/-- A run of the system that delivers whole messages that a run over connections is. -/
abbrev WireImage (topology : Topology) (reliable : Prop) (start : WireSystem)
    (inputs : List WireSystem.Input) (images : List LockSystem.Input) : Prop :=
  Machine.Refinement.Image (WireSystem.machine topology.lockServerHost)
    (LockSystem.machine topology.lockServerHost) (WireFollows topology reliable)
    (LockStep topology reliable) seeWire seeOutcome (fun answer => answer ≠ none) start
    (start.quietSystem topology.lockServerHost) inputs images

theorem permitted_of_steps {system : LockSystem}
    (steps : (LockSystem.machine topology.lockServerHost).Respects system
      (fun _ system input => LockStep topology reliable system input) images) :
    (LockSystem.machine topology.lockServerHost).Respects system
      (fun _ system input => Permitted topology.isHost system input) images :=
  fun before input behind split => (steps before input behind split).1

theorem shown_seeOutcome (history : List (LockSystem.Input × LockSystem.Outcome)) :
    Machine.shown seeOutcome history = seen (events history) := by
  induction history with
  | nil => rfl
  | cons step history ih =>
      rw [Machine.shown, List.flatMap_cons, ← Machine.shown, ih]
      cases happened : event? step.2 with
      | none => simp [seeOutcome, seen, events, happened]
      | some event => simp [seeOutcome, seen, events, happened]

theorem WireRun.steps (run : WireRun topology start inputs)
    (connects : reliable → ∀ input ∈ inputs, Connects input) :
    (WireSystem.machine topology.lockServerHost).Respects start
      (fun _ system input => WireStep topology reliable system input) inputs := by
  intro before input behind split
  refine ⟨run before input behind split, fun relies => connects relies input ?_⟩
  rw [split]
  exact List.mem_append_right _ List.mem_cons_self

theorem wire_image (deployed : WireDeployed topology start)
    (run : WireRun topology start inputs)
    (connects : reliable → ∀ input ∈ inputs, Connects input) :
    ∃ images, WireImage topology reliable start inputs images :=
  (wire_refinement deployed.valid reliable).run (wireFollows_quiet deployed) (run.steps connects)

/-! ## Two hosts and the lock server on one machine -/

def exampleTopology : Topology where
  lockServerHost := .ofString "lock_server"
  hosts := [.ofString "host1", .ofString "lock_client"]
  listens host :=
    (.ofString "127.0.0.1", if host = .ofString "lock_server" then 25559
      else if host = .ofString "host1" then 25557 else 25558)

/-- The processes of the example configuration without connections. -/
def exampleWire : WireSystem where
  parties host :=
    ⟨if host = .ofString "lock_server" then exampleSystem.server
      else exampleSystem.clients host, .initHandle⟩
  table := ∅
  calls := []
  links := []

theorem exampleWire_clients {host : HostName} (member : exampleHost host) :
    exampleWire.messages host = exampleSystem.clients host := by
  have elsewhere : host ≠ .ofString "lock_server" := by
    rintro rfl
    exact absurd member (by decide)
  exact if_neg elsewhere

theorem exampleWire_deployed : WireDeployed exampleTopology exampleWire := by
  have deployed := exampleSystem_deployed
  have quiet := exampleSystem_quiet
  refine ⟨⟨by decide, ?_, by decide⟩, ⟨deployed.server, ?_, deployed.apart, deployed.short⟩,
    ⟨rfl, rfl, ?_, fun _ _ => rfl⟩, rfl, rfl, fun _ => rfl, ?_, ?_⟩
  · rw [Distinct]
    decide
  · intro host member
    have ready := deployed.clients host member
    rw [← exampleWire_clients member] at ready
    exact ready
  · intro host member key
    have empty := quiet.queues host member key
    rw [← exampleWire_clients member] at empty
    exact empty
  · exact forall_exampleHost ⟨rfl, rfl⟩ ⟨rfl, rfl⟩
  · exact forall_exampleHost ⟨rfl, rfl⟩ ⟨rfl, rfl⟩

/-- A peer on the same machine. -/
def localPeer (port : UInt16) (valid : port ≠ 0) : Peer := ⟨⟨⟨127, 0, 0, 1⟩, port⟩, valid⟩

/-- A connection is set up. -/
def connected : WireSystem.Connecting := (true, 0, false)

/-- A host asks for a page.  Its request arrives in two pieces, and the server answers over a
connection that it opens itself. -/
def lockInPieces : List WireSystem.Input :=
  [.request (.ofString "host1") ⟨1, 1, 0, .wLock⟩ 0 connected,
    .accept (.ofString "host1") 0 (.ofString "lock_server") (localPeer 40001 (by decide))
      (0, false),
    .arrive 0 3 (fun _ => .clear) (fun _ => connected),
    .arrive 0 100 (fun _ => .clear) (fun _ => connected),
    .accept (.ofString "lock_server") 1 (.ofString "host1") (localPeer 40002 (by decide))
      (0, false),
    .arrive 1 89 (fun _ => .clear) (fun _ => connected)]

theorem lockInPieces_permitted : WireRun exampleTopology exampleWire lockInPieces := by
  rw [WireRun]
  decide +kernel

/-! ## Refinement -/

/-- In every run over connections, with bytes arriving in pieces of any size, every step is
defined and the run shows what some run of the system that delivers whole messages shows,
which ends with the same lock table and the same unfinished calls. -/
theorem connections_refine_delivery (deployed : WireDeployed topology start)
    (run : WireRun topology start inputs) :
    let wire := WireSystem.machine topology.lockServerHost
    let lock := LockSystem.machine topology.lockServerHost
    let quiet := start.quietSystem topology.lockServerHost
    (∀ step ∈ wire.trace start inputs, step.2 ≠ none) ∧
      ∃ images, lock.Respects quiet (fun _ system input => Permitted topology.isHost system input)
          images ∧
        wireEvents (wire.trace start inputs) = seen (events (lock.trace quiet images)) ∧
        (wire.exec start inputs).table = (lock.exec quiet images).table ∧
        (wire.exec start inputs).calls =
          (lock.exec quiet images).calls.map fun call => (call.host, call.request) := by
  intro wire lock quiet
  have relies : False → ∀ input ∈ inputs, Connects input := False.elim
  rcases wire_image deployed run relies with ⟨images, image⟩
  rcases image.related with ⟨flying, agrees, _⟩
  refine ⟨image.answers, images, permitted_of_steps image.allowed, ?_, agrees.table.symm,
    agrees.calls⟩
  rw [← shown_seeOutcome]
  exact image.seen.symm

theorem connections_refine_delivery_pieces :
    ∃ images, (LockSystem.machine (.ofString "lock_server")).Respects
        (exampleWire.quietSystem (.ofString "lock_server"))
        (fun _ system input => Permitted exampleHost system input) images ∧
      seen (events ((LockSystem.machine (.ofString "lock_server")).trace
          (exampleWire.quietSystem (.ofString "lock_server")) images)) =
        [.sent (.ofString "host1") ⟨1, 1, 0, .wLock⟩,
          .served (.ofString "host1") ⟨1, 1, 0, .wLock⟩ ⟨1, 1, .lockSuccess⟩, .queued] := by
  rcases connections_refine_delivery exampleWire_deployed lockInPieces_permitted with
    ⟨_, images, permitted, same, _⟩
  exact ⟨images, permitted, same.symm.trans (by decide +kernel)⟩

/-! ## Calls and replies -/

namespace WireEvent

def sent? : WireEvent → Option (HostName × PageLockRequest)
  | .sent host request => some (host, request)
  | .served _ _ _ | .queued | .waiting | .returned _ _ _ | .failed _ _ => none

def served? : WireEvent → Option ((HostName × PageLockRequest) × PageLockReply)
  | .served host request reply => some ((host, request), reply)
  | .sent _ _ | .queued | .waiting | .returned _ _ _ | .failed _ _ => none

def returned? : WireEvent → Option ((HostName × PageLockRequest) × PageLockReply)
  | .returned host request reply => some ((host, request), reply)
  | .sent _ _ | .served _ _ _ | .queued | .waiting | .failed _ _ => none

end WireEvent

/-- A call without its ticket. -/
def plain (call : Call HostName PageLockRequest) : HostName × PageLockRequest :=
  (call.host, call.request)

def plainAnswer (answer : Call HostName PageLockRequest × PageLockReply) :
    (HostName × PageLockRequest) × PageLockReply :=
  (plain answer.1, answer.2)

/-- Picking out of what is seen is picking out of the events. -/
theorem filterMap_seen {Picked Chosen : Type} {pick : WireEvent → Option Picked}
    {choose : LockSystem.LockEvent → Option Chosen} {view : Chosen → Picked}
    (same : ∀ event, (seeEvent event).filterMap pick = ((choose event).map view).toList)
    (happened : List LockSystem.LockEvent) :
    (seen happened).filterMap pick = (happened.filterMap choose).map view := by
  induction happened with
  | nil => rfl
  | cons event happened ih =>
      rw [seen, List.flatMap_cons, List.filterMap_append, ← seen, ih, same]
      cases chosen : choose event with
      | none => simp [chosen]
      | some value => simp [chosen]

theorem sent_seen (happened : List LockSystem.LockEvent) :
    (seen happened).filterMap WireEvent.sent? =
      (happened.filterMap Exchange.sentCall?).map plain :=
  filterMap_seen (fun event => by cases event <;> rfl) happened

theorem served_seen (happened : List LockSystem.LockEvent) :
    (seen happened).filterMap WireEvent.served? =
      (happened.filterMap Exchange.answeredCall?).map plainAnswer :=
  filterMap_seen (fun event => by cases event <;> rfl) happened

theorem returned_seen (happened : List LockSystem.LockEvent) :
    (seen happened).filterMap WireEvent.returned? =
      (happened.filterMap Exchange.returnedCall?).map plainAnswer :=
  filterMap_seen (fun event => by cases event <;> rfl) happened

/-- The answers of the service. -/
theorem serving_seen (happened : List LockSystem.LockEvent) :
    (seen happened).filterMap WireEvent.served? = happened.filterMap Exchange.serving? := by
  rw [served_seen, List.map_filterMap]
  apply List.filterMap_congr
  intro event _
  cases event <;> rfl

/-- The calls and replies of a run.  Every call that was started is unanswered or answered,
and every answer is on its way or returned, so that the unfinished calls are the unanswered
ones and those whose answer is on its way.  The answers are those of `check_lock_request` in
the order in which the server gave them, and no call failed. -/
structure WireAccounts (start final : WireSystem) (happened : List WireEvent) : Prop where
  calls : ∃ unanswered onTheWay,
    (happened.filterMap WireEvent.sent?).Perm
      ((happened.filterMap WireEvent.served?).map Prod.fst ++ unanswered) ∧
    (happened.filterMap WireEvent.served?).Perm
      (happened.filterMap WireEvent.returned? ++ onTheWay) ∧
    final.calls.Perm (unanswered ++ onTheWay.map Prod.fst)
  computed : happened.filterMap WireEvent.served? =
    lockService.answer.trace start.table
      ((happened.filterMap WireEvent.served?).map Prod.fst)
  succeeded : ∀ host request, .failed host request ∉ happened

theorem failed_notMem_seen (host : HostName) (request : PageLockRequest)
    (happened : List LockSystem.LockEvent) : .failed host request ∉ seen happened := by
  intro member
  rcases List.mem_flatMap.mp member with ⟨event, _, among⟩
  cases event <;> simp [seeEvent] at among

/-- The exchange behind an image, with its events. -/
theorem WireImage.exchange (image : WireImage topology reliable start inputs images)
    (deployed : WireDeployed topology start) :
    let final := (LockSystem.machine topology.lockServerHost).exec
      (start.quietSystem topology.lockServerHost) images
    ∃ history exchange, Mirrors topology.lockServerHost topology.isHost final exchange ∧
      Exchange.Matched lockService history exchange ∧
      Exchange.Conserved (history.map Prod.snd) exchange ∧
      Exchange.Answered lockService start.table history exchange ∧
      wireEvents ((WireSystem.machine topology.lockServerHost).trace start inputs) =
        seen (history.map Prod.snd) := by
  intro final
  rcases (simulation topology.lockServerHost topology.isHost).run
    (mirrors_quiet deployed.deployed deployed.quiet) (permitted_of_steps image.allowed) with
    ⟨allowed, mirrors, outcomes⟩
  refine ⟨_, _, mirrors, Exchange.matched_run ⟨rfl, rfl, rfl⟩ allowed,
    Exchange.conserved_run ⟨rfl, rfl, rfl⟩ allowed, Exchange.answered_run allowed, ?_⟩
  rw [← events_of_outcomes outcomes, ← shown_seeOutcome]
  exact image.seen.symm

/-- Over connections, too, no call and no reply is lost, duplicated or taken for another. -/
theorem wire_accounts (deployed : WireDeployed topology start)
    (run : WireRun topology start inputs) :
    WireAccounts start ((WireSystem.machine topology.lockServerHost).exec start inputs)
      (wireEvents ((WireSystem.machine topology.lockServerHost).trace start inputs)) := by
  have relies : False → ∀ input ∈ inputs, Connects input := False.elim
  rcases wire_image deployed run relies with ⟨images, image⟩
  rcases WireImage.exchange image deployed with
    ⟨history, exchange, mirrors, matched, conserved, answered, happened⟩
  rcases image.related with ⟨flying, agrees, _⟩
  rw [happened]
  constructor
  · refine ⟨exchange.requests.map plain, (exchange.queue ++ exchange.replies).map plainAnswer,
      ?_, ?_, ?_⟩
    · have asked := conserved.asked.map plain
      rw [sent_seen, served_seen]
      simpa [plainAnswer, Function.comp_def] using asked
    · have given := conserved.answered.map plainAnswer
      rw [served_seen, returned_seen]
      simpa using given
    · have calls := matched.carried.calls_perm.map plain
      rw [agrees.calls, ← mirrors.calls]
      change (exchange.calls.map plain).Perm _
      simpa [plainAnswer, Function.comp_def] using calls
  · rw [serving_seen]
    exact answered.answers
  · exact fun host request => failed_notMem_seen host request _

theorem wire_accounts_pieces :
    WireAccounts exampleWire
      ((WireSystem.machine exampleTopology.lockServerHost).exec exampleWire lockInPieces)
      (wireEvents ((WireSystem.machine exampleTopology.lockServerHost).trace exampleWire
        lockInPieces)) :=
  wire_accounts exampleWire_deployed lockInPieces_permitted

/-! ## Requests come in order -/

theorem forall₂_take {First Second : Type} {relation : First → Second → Prop}
    {first : List First} {second : List Second} (related : List.Forall₂ relation first second)
    {entry : Second} {position : Nat} (member : entry ∈ second.take position) :
    ∃ partner ∈ first.take position, relation partner entry := by
  induction related generalizing position with
  | nil => simp at member
  | cons head tail ih =>
      cases position with
      | zero => simp at member
      | succ position =>
          rcases List.mem_cons.mp member with rfl | later
          · exact ⟨_, List.mem_cons_self, head⟩
          · rcases ih later with ⟨partner, among, holds⟩
            exact ⟨partner, List.mem_cons_of_mem _ among, holds⟩

/-- A request in flight names its host and the lock server. -/
theorem request_transit {lockServerHost : HostName} {hosts : HostName → Prop}
    {system : LockSystem} (deployed : Deployed lockServerHost hosts system) {message : Transit}
    {call : Call HostName PageLockRequest}
    (carries : Carries lockServerHost hosts message (.request call)) :
    transitSource message = call.host ∧ message.host = lockServerHost := by
  rcases carries with ⟨member, padding, rfl⟩
  exact ⟨transitSource_encode (requestFields_fits (deployed.short call.host member) call.request
    padding) _ _, rfl⟩

/-- Messages that come in order are requests that come in order. -/
theorem Mirrors.inOrder {lockServerHost : HostName} {hosts : HostName → Prop}
    {system : LockSystem}
    {exchange : Exchange PageLockHash HostName PageLockRequest PageLockReply}
    (mirrors : Mirrors lockServerHost hosts system exchange) {input : LockSystem.Input}
    (inOrder : DeliversInOrder system input) : exchange.InOrder (translate input) := by
  cases input with
  | request host request padding => trivial
  | poll host page => trivial
  | deliver position storage =>
      intro call found other earlier same
      have inside := (List.getElem?_eq_some_iff.mp found).1
      rw [← mirrors.network.length_eq] at inside
      rcases forall₂_getElem? mirrors.network inside with
        ⟨message, flight, there, foundFlight, carries⟩
      cases found.symm.trans foundFlight
      rcases forall₂_take mirrors.network earlier with ⟨before, among, carriesOther⟩
      have here := request_transit mirrors.deployed carries
      have ahead := request_transit mirrors.deployed carriesOther
      refine inOrder message there before among ?_ (ahead.2.trans here.2.symm)
      rw [ahead.1, here.1, same]

/-- The exchange behind a run whose messages come in order. -/
theorem inOrder_simulation (lockServerHost : HostName) (hosts : HostName → Prop) :
    Machine.Simulation (LockSystem.machine lockServerHost) (Exchange.machine lockService)
      (Mirrors lockServerHost hosts)
      (fun system input => Permitted hosts system input ∧ DeliversInOrder system input)
      (fun exchange input => exchange.InOrder input) translate .event := by
  constructor
  intro system exchange input mirrors permitted
  have follows := (simulation lockServerHost hosts).follows system exchange input mirrors
    permitted.1
  exact ⟨mirrors.inOrder permitted.2, follows.2⟩

/-- The requests of a host, with the calls that were made before first. -/
def requestsOf (host : HostName) (calls : List (HostName × PageLockRequest)) :
    List (HostName × PageLockRequest) :=
  calls.filter fun call => call.1 = host

theorem requestsOf_plain (host : HostName) (calls : List (Call HostName PageLockRequest)) :
    requestsOf host (calls.map plain) = (Exchange.callsOf host calls).map plain := by
  rw [requestsOf, List.filter_map]
  rfl

/-- In every run in which no attempt to connect fails, the server answers the requests of each
host in the order in which the host has made them. -/
theorem answered_in_order (deployed : WireDeployed topology start)
    (run : WireRun topology start inputs) (connects : ∀ input ∈ inputs, Connects input)
    (host : HostName) :
    let happened :=
      wireEvents ((WireSystem.machine topology.lockServerHost).trace start inputs)
    requestsOf host ((happened.filterMap WireEvent.served?).map Prod.fst) <+:
      requestsOf host (happened.filterMap WireEvent.sent?) := by
  intro happened
  have relies : True → ∀ input ∈ inputs, Connects input := fun _ => connects
  rcases wire_image deployed run relies with ⟨images, image⟩
  have steps : (LockSystem.machine topology.lockServerHost).Respects
      (start.quietSystem topology.lockServerHost) (fun _ system input =>
        Permitted topology.isHost system input ∧ DeliversInOrder system input) images :=
    fun before input behind split =>
      ⟨(image.allowed before input behind split).1, (image.allowed before input behind split).2
        trivial⟩
  rcases (inOrder_simulation topology.lockServerHost topology.isHost).run
    (mirrors_quiet deployed.deployed deployed.quiet) steps with ⟨inOrder, _, outcomes⟩
  have ordered := Exchange.ordered_run ⟨rfl, rfl, rfl⟩ inOrder host
  have same : happened = seen (((Exchange.machine lockService).trace
      (quietExchange (start.quietSystem topology.lockServerHost))
      (images.map translate)).map Prod.snd) := by
    rw [← events_of_outcomes outcomes, ← shown_seeOutcome]
    exact image.seen.symm
  rw [same, sent_seen, served_seen, requestsOf_plain, ordered, List.map_append, List.map_map]
  have answers : (Prod.fst ∘ plainAnswer : Call HostName PageLockRequest × PageLockReply → _) =
      plain ∘ Prod.fst := rfl
  rw [answers, ← List.map_map, requestsOf_plain]
  exact List.prefix_append _ _

/-- A host asks for two pages, and both requests arrive at once. -/
def lockTwoPages : List WireSystem.Input :=
  [.request (.ofString "host1") ⟨1, 1, 0, .wLock⟩ 0 connected,
    .request (.ofString "host1") ⟨1, 2, 0, .wLock⟩ 0 connected,
    .accept (.ofString "host1") 0 (.ofString "lock_server") (localPeer 40001 (by decide))
      (0, false),
    .arrive 0 206 (fun _ => .clear) (fun _ => connected)]

theorem answered_in_order_twoPages :
    let happened := wireEvents ((WireSystem.machine exampleTopology.lockServerHost).trace
      exampleWire lockTwoPages)
    ((happened.filterMap WireEvent.served?).map Prod.fst).length = 2 ∧
      requestsOf (.ofString "host1") ((happened.filterMap WireEvent.served?).map Prod.fst) <+:
        requestsOf (.ofString "host1") (happened.filterMap WireEvent.sent?) := by
  intro happened
  have permitted : WireRun exampleTopology exampleWire lockTwoPages := by
    rw [WireRun]
    decide +kernel
  have connects : ∀ input ∈ lockTwoPages, Connects input := by
    simp [lockTwoPages, Connects, connected]
  exact ⟨by decide +kernel,
    answered_in_order exampleWire_deployed permitted connects (.ofString "host1")⟩

/-! ## Nothing is stuck -/

/-- Every connection that a process has opened is accepted, and all bytes have arrived. -/
structure Drained (topology : Topology) (system : WireSystem) : Prop where
  accepted : ∀ host ∈ topology.parties, ∀ entry ∈ (system.nets host).bevMap.entries,
    entry.2.isListen = false →
    ∃ link ∈ system.links, link.opener = host ∧ (link.openerId : Int) = entry.1
  arrived : ∀ link ∈ system.links,
    ∀ sender ∈ (system.nets link.opener).bevMap.lookup (link.openerId : Int),
      link.carried = sender.bev.output.length

instance (topology : Topology) (system : WireSystem) : Decidable (Drained topology system) :=
  decidable_of_iff ((∀ host ∈ topology.parties, ∀ entry ∈ (system.nets host).bevMap.entries,
      entry.2.isListen = false →
      ∃ link ∈ system.links, link.opener = host ∧ (link.openerId : Int) = entry.1) ∧
    ∀ link ∈ system.links,
      ∀ sender ∈ (system.nets link.opener).bevMap.lookup (link.openerId : Int),
        link.carried = sender.bev.output.length)
    ⟨fun both => ⟨both.1, both.2⟩, fun drained => ⟨drained.accepted, drained.arrived⟩⟩

/-- Messages in flight are encoded. -/
theorem Mirrors.encoded {lockServerHost : HostName} {hosts : HostName → Prop}
    {system : LockSystem}
    {exchange : Exchange PageLockHash HostName PageLockRequest PageLockReply}
    (mirrors : Mirrors lockServerHost hosts system exchange) {message : Transit}
    (flies : message ∈ system.network) :
    ∃ fields : MessageFields, message.bytes = fields.encode := by
  rcases List.append_of_mem flies with ⟨front, back, split⟩
  have related := mirrors.network
  rw [split] at related
  rcases forall₂_split related with ⟨_, flight, _, _, _, carries, _⟩
  cases flight with
  | request call =>
      rcases carries with ⟨_, padding, rfl⟩
      exact ⟨_, rfl⟩
  | reply call reply =>
      rcases carries with ⟨_, rfl⟩
      exact ⟨_, rfl⟩

/-- Nothing is in flight when everything has arrived over connections that could be set up. -/
theorem WireFollows.network_eq_nil {system : WireSystem} {lock : LockSystem}
    (follows : WireFollows topology True system lock) (drained : Drained topology system) :
    lock.network = [] := by
  rcases follows with ⟨flying, agrees, wired, settled, routed⟩
  rcases agrees.exchange with ⟨exchange, mirrors⟩
  have large : ∀ entry ∈ flying, controlBlockSize < (transitPost.bytes entry.2).length := by
    intro entry member
    have flies : entry.2 ∈ lock.network := by
      rw [agrees.network]
      exact List.mem_map_of_mem member
    rcases mirrors.encoded flies with ⟨fields, bytes⟩
    rw [show transitPost.bytes entry.2 = fields.encode from bytes, MessageFields.length_encode]
    exact controlBlockSize_lt_encodedSize fields
  have empty : flying = [] := by
    apply List.eq_nil_iff_forall_not_mem.mpr
    rintro ⟨tag, message⟩ member
    cases tag with
    | none => exact routed trivial _ member rfl
    | some key =>
        rcases wired.wiring.addressed key message member with ⟨_, info, found, opened, _⟩
        rcases drained.accepted key.1 (wired.wiring.senders key message member).among ⟨_, info⟩
          (OrderedMap.lookup_eq_some_iff.mp found) opened with ⟨link, among, sameOpener, sameId⟩
        have same : link.channel = key := Prod.ext sameOpener (Int.ofNat_inj.mp sameId)
        have sends : recordOf system.nets link.channel = some info := by
          rw [same]
          exact found
        have nothing := wired.nothing_on among (settled link among) sends
          (drained.arrived link among info sends)
          (fun content due => large _ (mem_onChannel.mp due))
        rw [same] at nothing
        have due := mem_onChannel.mpr member
        rw [nothing] at due
        cases due
  rw [agrees.network, empty]
  rfl

/-- In every run in which no attempt to connect fails: once all connections are accepted and
all bytes have arrived, in whatever pieces, every unfinished call that waits returns, with the
reply that the server has computed for its request. -/
theorem drained_calls_return (deployed : WireDeployed topology start)
    (run : WireRun topology start inputs) (connects : ∀ input ∈ inputs, Connects input) :
    let final := (WireSystem.machine topology.lockServerHost).exec start inputs
    Drained topology final → ∀ call ∈ final.calls, ∃ after reply,
      final.poll call.1 call.2.page = some (after, [.returned call.1 call.2 reply]) ∧
      (call, reply) ∈ (wireEvents ((WireSystem.machine topology.lockServerHost).trace start
        inputs)).filterMap WireEvent.served? := by
  intro final drained wireCall member
  have relies : True → ∀ input ∈ inputs, Connects input := fun _ => connects
  rcases wire_image deployed run relies with ⟨images, image⟩
  rcases WireImage.exchange image deployed with
    ⟨history, exchange, mirrors, matched, _, _, happened⟩
  have delivered := image.related.network_eq_nil drained
  have idle : exchange.network = [] := by
    have related := mirrors.network
    rw [delivered] at related
    exact List.forall₂_nil_left_iff.mp related
  rcases image.related.poll ⟨wireCall, member, rfl, rfl⟩ with
    ⟨after, seenEvents, next, stepped, leads, _⟩
  rcases image.related with ⟨flying, agrees, _⟩
  rw [agrees.calls] at member
  rcases List.mem_map.mp member with ⟨call, waiting, rfl⟩
  rcases matched.poll_returns idle (mirrors.calls ▸ waiting) with ⟨reply, returned, served⟩
  have outcome := (mirrors.poll ⟨call, waiting, Exchange.isAbout_iff.mpr ⟨rfl, rfl⟩⟩).2
  refine ⟨after, reply, ?_, ?_⟩
  · have single := leads.seen
    rw [Machine.shown, Machine.trace, Machine.trace, List.flatMap_singleton] at single
    rw [returned] at outcome
    rw [stepped, ← single]
    exact congrArg (fun seen => some (after, seeOutcome seen)) outcome
  · rw [happened, served_seen]
    exact List.mem_map.mpr ⟨(call, reply), List.mem_filterMap.mpr ⟨_, served, rfl⟩, rfl⟩

theorem drained_calls_return_pieces :
    let final := (WireSystem.machine (.ofString "lock_server")).exec exampleWire lockInPieces
    ∃ after reply, final.poll (.ofString "host1") (1, 1) =
      some (after, [.returned (.ofString "host1") ⟨1, 1, 0, .wLock⟩ reply]) := by
  intro final
  have connects : ∀ input ∈ lockInPieces, Connects input := by
    simp [lockInPieces, Connects, connected]
  have drained : Drained exampleTopology final := by decide +kernel
  have waiting : (.ofString "host1", ⟨1, 1, 0, .wLock⟩) ∈ final.calls := by decide +kernel
  rcases drained_calls_return exampleWire_deployed lockInPieces_permitted connects drained _
    waiting with ⟨after, reply, polled, _⟩
  exact ⟨after, reply, polled⟩

end MultiMaster.LockProtocol
