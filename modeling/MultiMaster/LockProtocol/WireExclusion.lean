import MultiMaster.LockProtocol.ClientExclusion
import MultiMaster.LockProtocol.WireRuns

/-!
# Exclusion over connections

Hosts that go by what they know exclude each other also when their requests and the replies
travel over connections: a host counts a page as its own from the return of a lock request
that succeeded until it starts to unlock, and what it counts, the server has granted.
-/

namespace MultiMaster.LockProtocol

open Foundation NetIO LockTable

variable {topology : Topology} {reliable : Prop} {start : WireSystem}
variable {inputs : List WireSystem.Input} {images : List LockSystem.Input}

/-! ## What a host knows -/

namespace WireEvent

/-- A host gets a page in a mode. -/
def Acquires (host : HostName) (page : UInt32 × UInt32) (mode : PageLockType) : WireEvent → Prop
  | .returned asker request reply =>
      (asker = host ∧ request.page = page) ∧ lockTerms.leases request reply mode
  | .sent _ _ | .served _ _ _ | .queued | .waiting | .failed _ _ => False

/-- A host starts to give a page back. -/
def GivesBack (host : HostName) (page : UInt32 × UInt32) : WireEvent → Prop
  | .sent asker request => (asker = host ∧ request.page = page) ∧ lockTerms.releases request
  | .served _ _ _ | .queued | .waiting | .returned _ _ _ | .failed _ _ => False

instance (host : HostName) (page : UInt32 × UInt32) (mode : PageLockType) :
    DecidablePred (Acquires host page mode)
  | .returned _ _ _ => inferInstanceAs (Decidable (_ ∧ _))
  | .sent _ _ | .served _ _ _ | .queued | .waiting | .failed _ _ => isFalse id

instance (host : HostName) (page : UInt32 × UInt32) : DecidablePred (GivesBack host page)
  | .sent _ _ => inferInstanceAs (Decidable (_ ∧ _))
  | .served _ _ _ | .queued | .waiting | .returned _ _ _ | .failed _ _ => isFalse id

end WireEvent

/-- A host holds a page as far as it knows. -/
def WireHolds (happened : List WireEvent) (host : HostName) (page : UInt32 × UInt32)
    (mode : PageLockType) : Prop :=
  Since (WireEvent.Acquires host page mode) (WireEvent.GivesBack host page) happened

instance (happened : List WireEvent) (host : HostName) (page : UInt32 × UInt32)
    (mode : PageLockType) : Decidable (WireHolds happened host page mode) :=
  Since.decidable happened

/-- A host asks for no page that it holds, and unlocks only pages that it holds, as far as it
knows. -/
def WireDisciplined (history : WireHistory) : WireSystem.Input → Prop
  | .request host request _ _ => Exchange.Orderly (lockTerms.releases request) fun mode =>
      WireHolds (wireEvents history) host request.page mode
  | .accept _ _ _ _ _ | .arrive _ _ _ _ | .poll _ _ => True

instance (history : WireHistory) : DecidablePred (WireDisciplined history)
  | .request host request _ _ => inferInstanceAs (Decidable
      (Exchange.Orderly (lockTerms.releases request) fun mode =>
        WireHolds (wireEvents history) host request.page mode))
  | .accept _ _ _ _ _ | .arrive _ _ _ _ | .poll _ _ => isTrue trivial

/-- Runs over connections in which the hosts are disciplined. -/
def DisciplinedWireRun (topology : Topology) (start : WireSystem)
    (inputs : List WireSystem.Input) : Prop :=
  (WireSystem.machine topology.lockServerHost).Respects start (fun history system input =>
    WirePermitted topology system input ∧ WireDisciplined history input) inputs

theorem DisciplinedWireRun.wireRun (run : DisciplinedWireRun topology start inputs) :
    WireRun topology start inputs :=
  fun before input behind split => (run before input behind split).1

/-- A host knows what it can see. -/
theorem wireHolds_seen {happened : List LockSystem.LockEvent} {host : HostName}
    {page : UInt32 × UInt32} {mode : PageLockType} :
    WireHolds (seen happened) host page mode ↔ HostHolds happened host page mode := by
  induction happened using List.reverseRecOn with
  | nil => exact iff_of_false not_since_nil not_since_nil
  | append_singleton happened event ih =>
      have split : seen (happened ++ [event]) = seen happened ++ seeEvent event := by
        rw [seen, List.flatMap_append, List.flatMap_singleton]
        rfl
      rw [WireHolds] at ih ⊢
      rw [split, HostHolds, Exchange.believed_concat, ← HostHolds, ← ih]
      cases event with
      | sent call => exact since_concat
      | served call reply => exact since_concat
      | queued ticket => exact since_concat
      | waiting ticket => exact since_concat
      | returned call consumed reply => exact since_concat
      | ignored => simp [seeEvent, Exchange.Acquires, Exchange.GivesBack]

/-- Steps that are no calls are disciplined. -/
theorem DisciplinedRun.append {lockServerHost : HostName} {hosts : HostName → Prop}
    {system : LockSystem} {more : List LockSystem.Input}
    (run : DisciplinedRun lockServerHost hosts system images)
    (permitted : (LockSystem.machine lockServerHost).Respects system
      (fun _ system input => Permitted hosts system input) (images ++ more))
    (silent : ∀ input ∈ more, ∀ history, Disciplined history input) :
    DisciplinedRun lockServerHost hosts system (images ++ more) := by
  induction more using List.reverseRecOn with
  | nil =>
      rw [List.append_nil]
      exact run
  | append_singleton more input ih =>
      rw [← List.append_assoc] at permitted ⊢
      rcases Machine.respects_concat.mp permitted with ⟨earlier, last⟩
      have before := ih earlier fun other member =>
        silent other (List.mem_append_left _ member)
      exact Machine.respects_concat.mpr
        ⟨before, last, silent input (List.mem_append_right _ List.mem_cons_self) _⟩

/-- What a run and its image have in common: requests, and the discipline of the hosts. -/
def Alike (topology : Topology) (start : WireSystem) (inputs : List WireSystem.Input)
    (images : List LockSystem.Input) : Prop :=
  (∀ host request padding, .request host request padding ∈ images →
    ∃ connecting, .request host request padding connecting ∈ inputs) ∧
  (DisciplinedWireRun topology start inputs →
    DisciplinedRun topology.lockServerHost topology.isHost
      (start.quietSystem topology.lockServerHost) images)

theorem alike_step {input : WireSystem.Input} {more : List LockSystem.Input}
    (image : WireImage topology reliable start inputs images) (stands : StandFor input more)
    (permitted : (LockSystem.machine topology.lockServerHost).Respects
      (start.quietSystem topology.lockServerHost)
      (fun _ system input => Permitted topology.isHost system input) (images ++ more))
    (alike : Alike topology start inputs images) :
    Alike topology start (inputs ++ [input]) (images ++ more) := by
  have earlier : ∀ host request padding, .request host request padding ∈ images →
      ∃ connecting, .request host request padding connecting ∈ inputs ++ [input] := by
    intro host request padding member
    rcases alike.1 host request padding member with ⟨connecting, among⟩
    exact ⟨connecting, List.mem_append_left _ among⟩
  have before : DisciplinedWireRun topology start (inputs ++ [input]) →
      DisciplinedRun topology.lockServerHost topology.isHost
        (start.quietSystem topology.lockServerHost) images :=
    fun run => alike.2 (Machine.respects_concat.mp run).1
  cases input with
  | request host request padding connecting =>
      cases stands
      constructor
      · intro other asked word member
        rcases List.mem_append.mp member with old | new
        · exact earlier other asked word old
        · cases List.mem_singleton.mp new
          exact ⟨connecting, List.mem_append_right _ List.mem_cons_self⟩
      · intro run
        have disciplined := (Machine.respects_concat.mp run).2.2
        have happened := image.seen
        rw [shown_seeOutcome] at happened
        simp only [WireDisciplined, wireEvents, ← happened, wireHolds_seen] at disciplined
        exact Machine.respects_concat.mpr
          ⟨before run, (Machine.respects_concat.mp permitted).2, disciplined⟩
  | accept opener openerId accepter peer fresh =>
      cases stands
      rw [List.append_nil]
      exact ⟨earlier, before⟩
  | arrive position count storage connecting =>
      constructor
      · intro host request padding member
        rcases List.mem_append.mp member with old | new
        · exact earlier host request padding old
        · rcases stands _ new with ⟨_, _, same⟩
          cases same
      · intro run
        refine (before run).append permitted ?_
        intro input member history
        rcases stands input member with ⟨_, _, rfl⟩
        exact trivial
  | poll host page =>
      cases stands
      constructor
      · intro other asked word member
        rcases List.mem_append.mp member with old | new
        · exact earlier other asked word old
        · cases List.mem_singleton.mp new
      · intro run
        refine (before run).append permitted ?_
        intro input member history
        rw [List.mem_singleton.mp member]
        exact trivial

theorem wire_alike (deployed : WireDeployed topology start)
    (run : WireRun topology start inputs) :
    ∃ images, Alike topology start inputs images ∧
      WireImage topology False start inputs images := by
  have relies : False → ∀ input ∈ inputs, Connects input := False.elim
  refine (wire_refinement deployed.valid False).run_common (wireFollows_quiet deployed)
    (Alike topology start) ⟨by simp, fun _ => Machine.respects_nil⟩ ?_ (run.steps relies)
  intro inputs input images more _ image stands steps alike
  exact alike_step image stands (permitted_of_steps steps) alike

/-- A host has a lock as far as the server knows. -/
def WireGranted (happened : List WireEvent) (host : HostName) (page : UInt32 × UInt32)
    (mode : PageLockType) : Prop :=
  LockTable.Holds (OnPage page) (serverHistory (happened.filterMap WireEvent.served?)) host mode

/-- In every run over connections in which the hosts are disciplined: what a host believes to
hold, the server has granted to it and not taken back, and no two hosts believe to hold one
page when none asks to read it. -/
theorem wire_hosts_exclusive (deployed : WireDeployed topology start) (empty : start.table = ∅)
    (run : DisciplinedWireRun topology start inputs) :
    let happened :=
      wireEvents ((WireSystem.machine topology.lockServerHost).trace start inputs)
    (∀ host page mode, WireHolds happened host page mode → WireGranted happened host page mode) ∧
      ((∀ host request padding connecting,
          .request host request padding connecting ∈ inputs → request.lockType ≠ .rLock) →
        ∀ left right page leftMode rightMode, WireHolds happened left page leftMode →
          WireHolds happened right page rightMode → left = right) := by
  intro happened
  rcases wire_alike deployed run.wireRun with ⟨images, alike, image⟩
  have disciplined := alike.2 run
  have same : happened = seen (events ((LockSystem.machine topology.lockServerHost).trace
      (start.quietSystem topology.lockServerHost) images)) := by
    rw [← shown_seeOutcome]
    exact image.seen.symm
  have granted : ∀ host page mode, WireHolds happened host page mode →
      WireGranted happened host page mode := by
    intro host page mode holds
    rw [same, wireHolds_seen] at holds
    have views := believed_granted deployed.deployed deployed.quiet disciplined host page mode holds
    rw [WireGranted, same, serving_seen]
    exact views
  refine ⟨granted, ?_⟩
  intro writes left right page leftMode rightMode leftHolds rightHolds
  have leftGranted := granted left page leftMode leftHolds
  have rightGranted := granted right page rightMode rightHolds
  rcases served_of_run deployed.deployed deployed.quiet disciplined with ⟨history, wellBehaved⟩
  have asked := writes_of_run deployed.deployed deployed.quiet disciplined.permitted (by
    intro host request padding member
    rcases alike.1 host request padding member with ⟨connecting, given⟩
    exact writes host request padding connecting given)
  have table : (start.quietSystem topology.lockServerHost).table = ∅ := empty
  rw [table] at history wellBehaved
  rw [WireGranted, same, serving_seen, history] at leftGranted rightGranted
  exact holder_unique_of_writers wellBehaved asked leftGranted rightGranted

/-- The host has got its page. -/
def lockReturned : List WireSystem.Input := lockInPieces ++ [.poll (.ofString "host1") (1, 1)]

theorem lockReturned_disciplined :
    DisciplinedWireRun exampleTopology exampleWire lockReturned := by
  rw [DisciplinedWireRun]
  decide +kernel

theorem wire_hosts_exclusive_returned :
    WireGranted (wireEvents ((WireSystem.machine (.ofString "lock_server")).trace exampleWire
        lockReturned)) (.ofString "host1") (1, 1) .wLock ∧
      ¬WireHolds (wireEvents ((WireSystem.machine (.ofString "lock_server")).trace exampleWire
        lockReturned)) (.ofString "lock_client") (1, 1) .wLock := by
  have holds : WireHolds (wireEvents ((WireSystem.machine (.ofString "lock_server")).trace
      exampleWire lockReturned)) (.ofString "host1") (1, 1) .wLock := by decide +kernel
  have exclusive := wire_hosts_exclusive exampleWire_deployed rfl lockReturned_disciplined
  refine ⟨exclusive.1 _ _ _ holds, ?_⟩
  intro other
  have writes : ∀ host request padding connecting,
      .request host request padding connecting ∈ lockReturned → request.lockType ≠ .rLock := by
    intro host request padding connecting given
    simp only [lockReturned, lockInPieces, List.mem_append, List.mem_cons, List.not_mem_nil,
      reduceCtorEq, or_false, WireSystem.Input.request.injEq] at given
    rcases given with ⟨_, rfl, _⟩
    decide
  exact absurd (exclusive.2 writes _ _ _ _ _ holds other) (by decide)

end MultiMaster.LockProtocol
