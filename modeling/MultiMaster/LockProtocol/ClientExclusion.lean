import MultiMaster.Foundation.Leases
import MultiMaster.LockProtocol.OwnReply
import MultiMaster.LockTable.Compatibility

/-!
# Exclusion between the hosts

A host counts a page as its own from the return of a lock request that succeeded until it
sends the unlock request.  The lock server counts it from the callback that grants the lock
to the callback that takes it back, while requests and replies overtake each other in the
network.  Exclusion of the holders that the server knows is exclusion of the hosts that
believe to hold.
-/

namespace MultiMaster.LockProtocol

open Foundation NetIO LockTable

/-- A lock request that succeeds leases a page, an unlock request gives it back. -/
def lockTerms : LeaseTerms PageLockRequest PageLockReply PageLockType where
  leases request reply mode :=
    request.lockType = mode ∧ mode ≠ .unlock ∧ reply.replyType = .lockSuccess
  releases request := request.lockType = .unlock
  apart := by
    rintro request reply mode ⟨sameMode, locks, _⟩ releasing
    exact locks (sameMode.symm.trans releasing)

instance : DecidablePred lockTerms.releases := fun request =>
  inferInstanceAs (Decidable (request.lockType = .unlock))

instance (request : PageLockRequest) (reply : PageLockReply) (mode : PageLockType) :
    Decidable (lockTerms.leases request reply mode) :=
  inferInstanceAs (Decidable (_ ∧ _ ∧ _))

/-! ## The history of the server -/

/-- A question to the service is a call of the server. -/
def callOf (question : HostName × PageLockRequest) : LockCall := ⟨question.1, question.2⟩

/-- The history of the server in the events of the system. -/
def serverHistory (answers : List ((HostName × PageLockRequest) × PageLockReply)) :
    LockHistory :=
  answers.map fun answer => (callOf answer.1, answer.2)

theorem serverHistory_concat (answers : List ((HostName × PageLockRequest) × PageLockReply))
    (answer : (HostName × PageLockRequest) × PageLockReply) :
    serverHistory (answers ++ [answer]) =
      serverHistory answers ++ [(callOf answer.1, answer.2)] :=
  List.map_append

theorem exec_callOf (table : PageLockHash) (questions : List (HostName × PageLockRequest)) :
    LockTable.server.exec table (questions.map callOf) =
      lockService.answer.exec table questions := by
  induction questions generalizing table with
  | nil => rfl
  | cons question rest ih => exact ih _

theorem trace_callOf (table : PageLockHash) (questions : List (HostName × PageLockRequest)) :
    LockTable.server.trace table (questions.map callOf) =
      serverHistory (lockService.answer.trace table questions) := by
  induction questions generalizing table with
  | nil => rfl
  | cons question rest ih => exact congrArg (List.cons _) (ih _)

variable {answers : List ((HostName × PageLockRequest) × PageLockReply)}
variable {host : HostName} {page : UInt32 × UInt32} {mode : PageLockType}

/-- The view of the service is the holding of the server's history. -/
theorem held_iff : Exchange.Held lockService lockTerms host page mode answers ↔
    LockTable.Holds (OnPage page) (serverHistory answers) host mode := by
  induction answers using List.reverseRecOn with
  | nil => exact iff_of_false not_since_nil not_holds_nil
  | append_singleton answers answer ih =>
      rw [Exchange.held_concat, ih, serverHistory_concat, holds_concat]
      simp only [Exchange.Concerns, Grants, Releases, OnPage, callOf, lockTerms, lockService,
        and_assoc]

/-- Orderly questions are well-behaved calls. -/
theorem wellBehaved_of_orderly {table : PageLockHash}
    {questions : List (HostName × PageLockRequest)}
    (orderly : lockService.answer.Respects table (fun answers _ question =>
      Exchange.Orderly (lockTerms.releases question.2) fun mode =>
        Exchange.Held lockService lockTerms question.1 (lockService.asked question.2) mode
          answers) questions) :
    LockTable.server.Respects table (fun history _ => WellBehaved history)
      (questions.map callOf) := by
  induction questions using List.reverseRecOn with
  | nil => exact Machine.respects_nil
  | append_singleton questions question ih =>
      rcases Machine.respects_concat.mp orderly with ⟨earlier, releasing, locking⟩
      rw [List.map_append, List.map_singleton, Machine.respects_concat, trace_callOf]
      refine ⟨ih earlier, ?_⟩
      simp only [held_iff] at releasing locking
      rw [WellBehaved]
      split
      · next unlocks => exact releasing unlocks
      · next locks => exact locking locks

/-! ## Disciplined hosts -/

/-- A host holds a page as far as it knows. -/
def HostHolds (events : List LockSystem.LockEvent) (host : HostName) (page : UInt32 × UInt32)
    (mode : PageLockType) : Prop :=
  Exchange.Believed lockService lockTerms host page mode events

/-- A host holds a page as far as the server knows. -/
def ServerHolds (events : List LockSystem.LockEvent) (host : HostName)
    (page : UInt32 × UInt32) (mode : PageLockType) : Prop :=
  LockTable.Holds (OnPage page) (serverHistory (events.filterMap Exchange.serving?)) host mode

/-- A host asks for no page that it holds, and unlocks only pages that it holds, as far as it
knows. -/
def Disciplined (history : List (LockSystem.Input × LockSystem.Outcome))
    (input : LockSystem.Input) : Prop :=
  Exchange.Disciplined lockService lockTerms (events history) (translate input)

instance (events : List LockSystem.LockEvent) (host : HostName) (page : UInt32 × UInt32)
    (mode : PageLockType) : Decidable (HostHolds events host page mode) :=
  inferInstanceAs (Decidable (Exchange.Believed lockService lockTerms host page mode events))

instance (history : List (LockSystem.Input × LockSystem.Outcome)) (input : LockSystem.Input) :
    Decidable (Disciplined history input) :=
  inferInstanceAs (Decidable
    (Exchange.Disciplined lockService lockTerms (events history) (translate input)))

/-- Runs of permitted steps in which the hosts are disciplined. -/
def DisciplinedRun (lockServerHost : HostName) (hosts : HostName → Prop) (start : LockSystem)
    (inputs : List LockSystem.Input) : Prop :=
  (LockSystem.machine lockServerHost).Respects start (fun history system input =>
    Permitted hosts system input ∧ Disciplined history input) inputs

/-- The call that the server has answered in a step. -/
def servedCall? (outcome : LockSystem.Outcome) : Option LockCall :=
  ((event? outcome).bind Exchange.serving?).map fun answer => callOf answer.1

/-- A step in which the server unlocks finds the host as the only entry of the holder
list. -/
def ReleasesSole (lockServerHost : HostName) (system : LockSystem) (input : LockSystem.Input) :
    Prop :=
  ∀ call ∈ servedCall? (system.step lockServerHost input).2,
    ReleasesSoleHolder system.table call

instance (lockServerHost : HostName) (hosts : HostName → Prop) [DecidablePred hosts]
    (start : LockSystem) (inputs : List LockSystem.Input) :
    Decidable (DisciplinedRun lockServerHost hosts start inputs) :=
  inferInstanceAs (Decidable ((LockSystem.machine lockServerHost).Respects start
    (fun history system input => Permitted hosts system input ∧ Disciplined history input)
    inputs))

instance (lockServerHost : HostName) (system : LockSystem) (input : LockSystem.Input) :
    Decidable (ReleasesSole lockServerHost system input) :=
  inferInstanceAs (Decidable (∀ call ∈ servedCall? (system.step lockServerHost input).2,
    ReleasesSoleHolder system.table call))

variable {lockServerHost : HostName} {hosts : HostName → Prop} {start : LockSystem}
variable {inputs : List LockSystem.Input}

theorem DisciplinedRun.permitted (run : DisciplinedRun lockServerHost hosts start inputs) :
    (LockSystem.machine lockServerHost).Respects start
      (fun _ system input => Permitted hosts system input) inputs :=
  fun before input behind split => (run before input behind split).1

/-- The exchange behind a disciplined run is disciplined, with the same events. -/
theorem DisciplinedRun.exchange (run : DisciplinedRun lockServerHost hosts start inputs)
    (deployed : Deployed lockServerHost hosts start) (quiet : Quiet hosts start) :
    Exchange.DisciplinedRun lockService lockTerms (quietExchange start)
      (inputs.map translate) := by
  induction inputs using List.reverseRecOn with
  | nil => exact Machine.respects_nil
  | append_singleton inputs input ih =>
      rcases Machine.respects_concat.mp run with ⟨earlier, permitted, disciplined⟩
      have before : DisciplinedRun lockServerHost hosts start inputs := earlier
      rcases (simulation lockServerHost hosts).run (mirrors_quiet deployed quiet)
        before.permitted with ⟨_, mirrors, outcomes⟩
      rw [List.map_append, List.map_singleton]
      refine Machine.respects_concat.mpr
        ⟨ih before, permitted_allowed mirrors permitted, ?_⟩
      rw [← events_of_outcomes outcomes]
      exact disciplined

/-! ## Both views -/

/-- The lease invariant at the end of a disciplined run. -/
theorem leased_of_run (deployed : Deployed lockServerHost hosts start) (quiet : Quiet hosts start)
    (run : DisciplinedRun lockServerHost hosts start inputs) :
    ∃ history exchange,
      events ((LockSystem.machine lockServerHost).trace start inputs) =
        history.map Prod.snd ∧
      exchange.calls = ((LockSystem.machine lockServerHost).exec start inputs).calls ∧
      Exchange.Answered lockService start.table history exchange ∧
      Exchange.Leased lockService lockTerms start.table history exchange := by
  have disciplined := run.exchange deployed quiet
  rcases (simulation lockServerHost hosts).run (mirrors_quiet deployed quiet)
    run.permitted with ⟨allowed, mirrors, outcomes⟩
  exact ⟨_, _, events_of_outcomes outcomes, mirrors.calls, Exchange.answered_run allowed,
    Exchange.leased_run ⟨rfl, rfl, rfl⟩ disciplined⟩

/-- What a host believes to hold, the server has granted to it. -/
theorem believed_granted (deployed : Deployed lockServerHost hosts start)
    (quiet : Quiet hosts start) (run : DisciplinedRun lockServerHost hosts start inputs)
    (host : HostName) (page : UInt32 × UInt32) (mode : PageLockType)
    (believed : HostHolds (events ((LockSystem.machine lockServerHost).trace start inputs))
      host page mode) :
    ServerHolds (events ((LockSystem.machine lockServerHost).trace start inputs))
      host page mode := by
  rcases leased_of_run deployed quiet run with ⟨history, exchange, same, _, _, leased⟩
  rw [HostHolds, same] at believed
  have held := leased.held_of_believed believed
  rw [ServerHolds, same, ← held_iff]
  exact held

/-- In every interleaving of disciplined hosts: what a host believes to hold, the server has
granted to it and not taken back, and both agree about every page that a host has no
unfinished call about. -/
theorem host_server_agree (deployed : Deployed lockServerHost hosts start)
    (quiet : Quiet hosts start) (run : DisciplinedRun lockServerHost hosts start inputs) :
    let happened := events ((LockSystem.machine lockServerHost).trace start inputs)
    (∀ host page mode, HostHolds happened host page mode → ServerHolds happened host page mode) ∧
      ∀ host page, (∀ call ∈ ((LockSystem.machine lockServerHost).exec start inputs).calls,
          ¬(call.host = host ∧ call.request.page = page)) →
        ∀ mode, ServerHolds happened host page mode ↔ HostHolds happened host page mode := by
  intro happened
  refine ⟨believed_granted deployed quiet run, ?_⟩
  rcases leased_of_run deployed quiet run with ⟨history, exchange, same, calls, _, leased⟩
  intro host page finished mode
  rw [HostHolds, ServerHolds, show happened = history.map Prod.snd from same, ← held_iff]
  refine leased.agree host page ?_ mode
  rintro ⟨call, member, concerns⟩
  exact finished call (calls ▸ member) concerns

/-- A page is handed from one host to another, which gets it while the reply to the unlock
request of the first is still in flight. -/
def handover : List LockSystem.Input :=
  [.request (.ofString "host1") ⟨1, 1, 0, .wLock⟩ 0, .deliver 0 .clear, .deliver 0 .clear,
    .poll (.ofString "host1") (1, 1), .request (.ofString "lock_client") ⟨1, 1, 0, .wLock⟩ 0,
    .deliver 0 .clear, .request (.ofString "host1") ⟨1, 1, 0, .unlock⟩ 0, .deliver 1 .clear,
    .deliver 0 .clear, .poll (.ofString "lock_client") (1, 1),
    .request (.ofString "lock_client") ⟨1, 1, 0, .wLock⟩ 0, .deliver 1 .clear,
    .deliver 1 .clear, .poll (.ofString "lock_client") (1, 1)]

theorem handover_disciplined :
    DisciplinedRun (.ofString "lock_server") exampleHost exampleSystem handover := by
  decide +kernel

theorem handover_holds :
    HostHolds (events ((LockSystem.machine (.ofString "lock_server")).trace exampleSystem
      handover)) (.ofString "lock_client") (1, 1) .wLock := by
  decide +kernel

theorem host_server_agree_handover :
    ServerHolds (events ((LockSystem.machine (.ofString "lock_server")).trace exampleSystem
      handover)) (.ofString "lock_client") (1, 1) .wLock :=
  (host_server_agree exampleSystem_deployed exampleSystem_quiet handover_disciplined).1 _ _ _
    handover_holds

/-! ## Exclusion -/

/-- The calls that the server has answered. -/
def servedCalls (events : List LockSystem.LockEvent) : List LockCall :=
  ((events.filterMap Exchange.serving?).map Prod.fst).map callOf

theorem servedCalls_concat (history : List (LockSystem.Input × LockSystem.Outcome))
    (input : LockSystem.Input) (outcome : LockSystem.Outcome) :
    servedCalls (events (history ++ [(input, outcome)])) =
      servedCalls (events history) ++ (servedCall? outcome).toList := by
  cases happened : event? outcome with
  | none => simp [servedCalls, events, servedCall?, happened]
  | some event =>
      cases served : Exchange.serving? event with
      | none => simp [servedCalls, events, servedCall?, happened, served]
      | some answer => simp [servedCalls, events, servedCall?, happened, served]

/-- The server's history is that of the calls it has answered, and these are well-behaved. -/
theorem served_of_run (deployed : Deployed lockServerHost hosts start) (quiet : Quiet hosts start)
    (run : DisciplinedRun lockServerHost hosts start inputs) :
    let happened := events ((LockSystem.machine lockServerHost).trace start inputs)
    serverHistory (happened.filterMap Exchange.serving?) =
        LockTable.server.trace start.table (servedCalls happened) ∧
      LockTable.server.Respects start.table (fun history _ => WellBehaved history)
        (servedCalls happened) := by
  intro happened
  rcases leased_of_run deployed quiet run with ⟨history, exchange, same, _, answered, leased⟩
  have served : happened.filterMap Exchange.serving? = Exchange.servings history :=
    congrArg (List.filterMap Exchange.serving?) same
  rw [servedCalls, served, trace_callOf]
  exact ⟨congrArg serverHistory answered.answers, wellBehaved_of_orderly leased.orderly⟩

/-- When every step of the system releases a sole holder, so does every call of the
server. -/
theorem releasesSole_of_run (deployed : Deployed lockServerHost hosts start)
    (quiet : Quiet hosts start)
    (permitted : (LockSystem.machine lockServerHost).Respects start
      (fun _ system input => Permitted hosts system input) inputs)
    (sole : (LockSystem.machine lockServerHost).Respects start
      (fun _ system input => ReleasesSole lockServerHost system input) inputs) :
    LockTable.server.Respects start.table (fun _ table => ReleasesSoleHolder table)
      (servedCalls (events ((LockSystem.machine lockServerHost).trace start inputs))) := by
  induction inputs using List.reverseRecOn with
  | nil => exact Machine.respects_nil
  | append_singleton inputs input ih =>
      rcases Machine.respects_concat.mp permitted with ⟨before, last⟩
      rcases Machine.respects_concat.mp sole with ⟨earlier, releases⟩
      rcases (simulation lockServerHost hosts).run (mirrors_quiet deployed quiet) before with
        ⟨allowed, mirrors, outcomes⟩
      have kept := ih before earlier
      have table := (Exchange.answered_run allowed).table
      change _ = lockService.answer.exec start.table _ at table
      rw [mirrors.table, Exchange.servings, ← events_of_outcomes outcomes, ← exec_callOf] at table
      rw [Machine.trace_concat, servedCalls_concat]
      cases served : servedCall? ((LockSystem.machine lockServerHost).step
          ((LockSystem.machine lockServerHost).exec start inputs) input).2 with
      | none =>
          rw [Option.toList_none, List.append_nil]
          exact kept
      | some call =>
          refine Machine.respects_concat.mpr ⟨kept, ?_⟩
          rw [servedCalls, ← table]
          exact releases call served

/-- The server is asked what the hosts ask. -/
theorem writes_of_run (deployed : Deployed lockServerHost hosts start) (quiet : Quiet hosts start)
    (permitted : (LockSystem.machine lockServerHost).Respects start
      (fun _ system input => Permitted hosts system input) inputs)
    (writes : ∀ host request padding, .request host request padding ∈ inputs →
      request.lockType ≠ .rLock) :
    ∀ call ∈ servedCalls (events ((LockSystem.machine lockServerHost).trace start inputs)),
      call.request.lockType ≠ .rLock := by
  intro call member
  rcases (simulation lockServerHost hosts).run (mirrors_quiet deployed quiet) permitted with
    ⟨allowed, _, outcomes⟩
  rw [servedCalls, events_of_outcomes outcomes] at member
  simp only [List.mem_map, List.mem_filterMap] at member
  rcases member with ⟨question, ⟨answer, ⟨event, happened, served⟩, rfl⟩, rfl⟩
  cases event with
  | served asked reply =>
      cases served
      have sent := Exchange.sent_of_served ⟨rfl, rfl, rfl⟩ allowed
        (List.mem_map.mpr happened)
      have started := Exchange.send_mem_of_sent sent
      rcases List.mem_map.mp started with ⟨input, given, same⟩
      cases input with
      | request host request padding =>
          cases same
          exact writes _ _ padding given
      | deliver position storage => cases same
      | poll host page => cases same
  | sent _ | queued _ | returned _ _ _ | waiting _ | ignored => cases served

/-- In every interleaving of disciplined hosts, when every unlock request releases the only
entry of a holder list: two hosts that believe to hold one page have asked to read it. -/
theorem hosts_exclusive (deployed : Deployed lockServerHost hosts start)
    (quiet : Quiet hosts start) (empty : start.table = ∅)
    (run : DisciplinedRun lockServerHost hosts start inputs)
    (sole : (LockSystem.machine lockServerHost).Respects start
      (fun _ system input => ReleasesSole lockServerHost system input) inputs)
    {left right : HostName} {page : UInt32 × UInt32} {leftMode rightMode : PageLockType}
    (different : left ≠ right) :
    let happened := events ((LockSystem.machine lockServerHost).trace start inputs)
    HostHolds happened left page leftMode → HostHolds happened right page rightMode →
      leftMode = .rLock ∧ rightMode = .rLock := by
  intro happened leftHolds rightHolds
  have views := (believed_granted deployed quiet run)
  rcases served_of_run deployed quiet run with ⟨history, wellBehaved⟩
  have released := releasesSole_of_run deployed quiet run.permitted sole
  rw [empty] at history wellBehaved released
  have compatible := holdersRead_of_sole wellBehaved released
  rw [← history] at compatible
  exact compatible page left right leftMode rightMode different
    (views left page leftMode leftHolds) (views right page rightMode rightHolds)

theorem hosts_exclusive_handover :
    ¬HostHolds (events ((LockSystem.machine (.ofString "lock_server")).trace exampleSystem
      handover)) (.ofString "host1") (1, 1) .wLock := by
  intro holds
  have modes := hosts_exclusive exampleSystem_deployed exampleSystem_quiet rfl
    handover_disciplined (by decide +kernel)
    (by decide : CString.ofString "host1" ≠ CString.ofString "lock_client") holds
    handover_holds
  cases modes.1

/-- In every interleaving of disciplined hosts that never ask to read a page, no two hosts
believe to hold one page. -/
theorem hosts_exclusive_of_writers (deployed : Deployed lockServerHost hosts start)
    (quiet : Quiet hosts start) (empty : start.table = ∅)
    (run : DisciplinedRun lockServerHost hosts start inputs)
    (writes : ∀ host request padding, .request host request padding ∈ inputs →
      request.lockType ≠ .rLock)
    {left right : HostName} {page : UInt32 × UInt32} {leftMode rightMode : PageLockType} :
    let happened := events ((LockSystem.machine lockServerHost).trace start inputs)
    HostHolds happened left page leftMode → HostHolds happened right page rightMode →
      left = right := by
  intro happened leftHolds rightHolds
  have views := (believed_granted deployed quiet run)
  rcases served_of_run deployed quiet run with ⟨history, wellBehaved⟩
  rw [empty] at history wellBehaved
  have leftGranted := views left page leftMode leftHolds
  have rightGranted := views right page rightMode rightHolds
  rw [ServerHolds, history] at leftGranted rightGranted
  exact holder_unique_of_writers wellBehaved (writes_of_run deployed quiet run.permitted writes)
    leftGranted rightGranted

theorem hosts_exclusive_of_writers_handover :
    ¬HostHolds (events ((LockSystem.machine (.ofString "lock_server")).trace exampleSystem
      handover)) (.ofString "host1") (1, 1) .wLock := by
  intro holds
  have writes : ∀ host request padding, .request host request padding ∈ handover →
      request.lockType ≠ .rLock := by
    intro host request padding given
    simp only [handover, List.mem_cons, List.not_mem_nil, reduceCtorEq, false_or, or_false,
      LockSystem.Input.request.injEq] at given
    rcases given with ⟨_, rfl, _⟩ | ⟨_, rfl, _⟩ | ⟨_, rfl, _⟩ | ⟨_, rfl, _⟩ <;> decide
  have same := hosts_exclusive_of_writers exampleSystem_deployed exampleSystem_quiet rfl
    handover_disciplined writes holds handover_holds
  exact absurd same (by decide)

end MultiMaster.LockProtocol
