import MultiMaster.LockProtocol.WireMessages

/-!
# Connections carry the lock protocol

What hosts and lock server do over their connections, they do in the system that delivers
whole messages in any order.  Where connections can be relied on, the messages of a process to
another are delivered in the order in which they were sent.
-/

namespace MultiMaster.LockProtocol

open Foundation NetIO LockTable

variable {topology : Topology} {reliable : Prop} {system : WireSystem} {lock : LockSystem}

/-! ## Waiting for a reply -/

/-- What one round of waiting does in the system that delivers whole messages. -/
inductive LockPoll (lock : LockSystem) (host : HostName) (page : UInt32 × UInt32)
    (call : Call HostName PageLockRequest) (handle : LockHandle) : WaitResult → Prop where
  | waiting (stepped : lock.poll host page =
        ({ lock with clients := Function.update lock.clients host handle },
          .event (.waiting call.ticket))) :
      LockPoll lock host page call handle .waiting
  | returned (reply : PageLockReply) (consumed : Nat) (arrived : HostName → List Nat)
      (stepped : lock.poll host page =
        ({ lock with
          clients := Function.update lock.clients host handle
          calls := lock.calls.eraseP (Exchange.isAbout lockService host page)
          arrived := arrived }, .event (.returned call consumed reply))) :
      LockPoll lock host page call handle (.returned reply)

theorem lock_poll_eq
    {exchange : Exchange PageLockHash HostName PageLockRequest PageLockReply}
    (mirrors : Mirrors topology.lockServerHost topology.isHost lock exchange)
    {host : HostName} {page : UInt32 × UInt32} {call : Call HostName PageLockRequest}
    (found : lock.calls.find? (Exchange.isAbout lockService host page) = some call)
    (member : host ∈ topology.hosts) :
    ∃ handle result, waitForLockReply (lock.clients host) page = some (handle, result) ∧
      EventMessageHandle.SameAddresses (lock.clients host) handle ∧
      LockPoll lock host page call handle result := by
  have queue := mirrors.queues host member
  rcases waitForLockReply_effect (mirrors.deployed.short host member) queue.named
    (mirrors.deployed.clients host member).reply queue.holding page with
    ⟨handle, result, waited, effect, _, addresses⟩
  refine ⟨handle, result, waited, addresses, ?_⟩
  have answered := (mirrors.poll ⟨call, List.mem_of_find?_eq_some found,
    List.find?_some found⟩).2
  cases effect with
  | waiting rejected lists =>
      apply LockPoll.waiting
      simp only [LockSystem.poll, found, waited]
  | returned front mess back reply list rejected accepted holds lists =>
      simp only [LockSystem.poll, found, waited] at answered
      split at answered
      · cases answered
      · next consumed position =>
          let taken := ((lock.clients host).unprocessed replyKey).findIdx
            (pageLockReplyFilter page)
          apply LockPoll.returned reply consumed
            (Function.update lock.arrived host ((lock.arrived host).eraseIdx taken))
          simp only [LockSystem.poll, found, waited, position, taken]

/-- The calls about a page are the same. -/
theorem isAbout_call (host : HostName) (page : UInt32 × UInt32) :
    (WireSystem.isAbout host page ∘ fun call : Call HostName PageLockRequest =>
      (call.host, call.request)) = Exchange.isAbout lockService host page := rfl

/-- An unfinished call waits one round. -/
theorem WireFollows.poll (follows : WireFollows topology reliable system lock) {host : HostName}
    {page : UInt32 × UInt32}
    (waiting : ∃ call ∈ system.calls, call.1 = host ∧ call.2.page = page) :
    ∃ after events next, system.poll host page = some (after, events) ∧
      LockLeads topology reliable lock [.poll host page] events next ∧
      WireFollows topology reliable after next := by
  rcases follows with ⟨flying, agrees, wired, settled, routed⟩
  rcases agrees.exchange with ⟨exchange, mirrors⟩
  have lockWaiting : Permitted topology.isHost lock (.poll host page) := by
    rcases waiting with ⟨wireCall, among, about⟩
    rw [agrees.calls] at among
    rcases List.mem_map.mp among with ⟨call, member, rfl⟩
    exact ⟨call, member, about⟩
  have leads : LockLeads topology reliable lock [.poll host page] (seeOutcome (lock.poll host page).2)
      (lock.poll host page).1 := Machine.leads_singleton ⟨lockWaiting, fun _ => trivial⟩
  rcases lockWaiting with ⟨witness, amongLock, about⟩
  have mirrorsNext := (mirrors.poll ⟨witness, amongLock, Exchange.isAbout_iff.mpr about⟩).1
  cases found : lock.calls.find? (Exchange.isAbout lockService host page) with
  | none =>
      exact absurd (Exchange.isAbout_iff.mpr about) (List.find?_eq_none.mp found _ amongLock)
  | some call =>
      have host_eq := (Exchange.isAbout_iff.mp (List.find?_some found)).1
      have member : host ∈ topology.hosts :=
        host_eq ▸ mirrors.members call (List.mem_of_find?_eq_some found)
      have client := agrees.clients host member
      rcases lock_poll_eq mirrors found member with ⟨handle, result, waited, addresses, polled⟩
      rw [client] at waited addresses
      have wireFound : system.calls.find? (WireSystem.isAbout host page) =
          some (call.host, call.request) := by
        rw [agrees.calls, List.find?_map, isAbout_call, found]
        rfl
      simp only [WireSystem.messages] at waited
      cases polled with
      | waiting stepped =>
          rw [stepped] at leads mirrorsNext
          have wireStep : system.poll host page =
              some (system.setParty host ⟨handle, system.nets host⟩, [.waiting]) := by
            simp only [WireSystem.poll, wireFound, waited, Option.bind_eq_bind, Option.bind_some]
            rfl
          have agreesNext := agrees.update_client mirrorsNext member addresses rfl rfl rfl
            agrees.calls agrees.network
          refine ⟨_, _, _, wireStep, leads, flying, ?_, ?_⟩
          · rw [setParty_messages]
            exact agreesNext
          · rw [setParty_nets, Function.update_eq_self]
            exact ⟨wired, settled, routed⟩
      | returned reply consumed arrived stepped =>
          rw [stepped] at leads mirrorsNext
          have wireStep : system.poll host page =
              some ({ system.setParty host ⟨handle, system.nets host⟩ with
                calls := system.calls.eraseP (WireSystem.isAbout host page) },
                [.returned call.host call.request reply]) := by
            simp only [WireSystem.poll, wireFound, waited, Option.bind_eq_bind, Option.bind_some]
            rfl
          have erased : system.calls.eraseP (WireSystem.isAbout host page) =
              (lock.calls.eraseP (Exchange.isAbout lockService host page)).map fun call =>
                (call.host, call.request) := by
            rw [agrees.calls, List.eraseP_map, isAbout_call]
          have agreesNext := agrees.update_client mirrorsNext member addresses rfl rfl rfl
            erased agrees.network
          refine ⟨_, _, _, wireStep, leads, flying, ?_, ?_⟩
          · change Agrees topology (system.setParty host ⟨handle, system.nets host⟩).messages
              _ _ _ _
            rw [setParty_messages]
            exact agreesNext
          · change Wired _ _ _ (system.setParty host ⟨handle, system.nets host⟩).nets _ _ ∧
              (∀ link ∈ system.links,
                Settled (system.setParty host ⟨handle, system.nets host⟩).nets link) ∧ _
            rw [setParty_nets, Function.update_eq_self]
            exact ⟨wired, settled, routed⟩

/-! ## Every step -/

/-- No attempt to connect fails. -/
def Connects : WireSystem.Input → Prop
  | .request _ _ _ connecting => connecting.1 = true
  | .arrive _ _ _ connecting => ∀ round, (connecting round).1 = true
  | .accept _ _ _ _ _ | .poll _ _ => True

/-- The inputs of the system that delivers whole messages that an input stands for. -/
def StandFor : WireSystem.Input → List LockSystem.Input → Prop
  | .request host request padding _, inputs => inputs = [.request host request padding]
  | .accept _ _ _ _ _, inputs => inputs = []
  | .arrive _ _ _ _, inputs => Deliveries inputs
  | .poll host page, inputs => inputs = [.poll host page]

/-- A step over connections is a run of the system that delivers whole messages. -/
theorem WireFollows.step (follows : WireFollows topology reliable system lock)
    (valid : topology.Valid) {input : WireSystem.Input}
    (permitted : WirePermitted topology system input) (connects : reliable → Connects input) :
    ∃ after events inputs next,
      system.step topology.lockServerHost input = some (after, events) ∧ StandFor input inputs ∧
      LockLeads topology reliable lock inputs events next ∧
      WireFollows topology reliable after next := by
  cases input with
  | request host request padding connecting =>
      rcases follows.request valid permitted.1 permitted.2 padding connects with
        ⟨after, events, next, stepped, leads, followsNext⟩
      exact ⟨after, events, _, next, stepped, rfl, leads, followsNext⟩
  | accept opener openerId accepter peer fresh =>
      rcases permitted with ⟨⟨sender, found, opened, address⟩, member, unlinked, other, uncached⟩
      rcases follows.accept found opened address member unlinked peer uncached other with
        ⟨after, accepted, followsNext⟩
      exact ⟨after, [], [], lock, accepted, rfl, Machine.leads_nil lock, followsNext⟩
  | arrive position count storage connecting =>
      rcases permitted with ⟨link, there, sender, sends, present, fits⟩
      exact follows.arrive valid there sends present fits storage connects
  | poll host page =>
      rcases follows.poll permitted with ⟨after, events, next, stepped, leads, followsNext⟩
      exact ⟨after, events, _, next, stepped, rfl, leads, followsNext⟩

/-- Steps over connections that are permitted, and in which no attempt to connect fails where
connections can be relied on. -/
def WireStep (topology : Topology) (reliable : Prop) (system : WireSystem)
    (input : WireSystem.Input) : Prop :=
  WirePermitted topology system input ∧ (reliable → Connects input)

/-- The processes with their connections refine the system that delivers whole messages. -/
theorem wire_refinement (valid : topology.Valid) (reliable : Prop) :
    Machine.Refinement (WireSystem.machine topology.lockServerHost)
      (LockSystem.machine topology.lockServerHost) (WireFollows topology reliable)
      (WireStep topology reliable) (LockStep topology reliable) seeWire seeOutcome
      (fun answer => answer ≠ none) StandFor := by
  constructor
  intro system lock input follows permitted
  rcases follows.step valid permitted.1 permitted.2 with
    ⟨after, events, inputs, next, stepped, stands, leads, followsNext⟩
  have answered : (WireSystem.machine topology.lockServerHost).step system input =
      (after, some events) := by
    simp only [WireSystem.machine, stepped]
  rw [answered]
  exact ⟨Option.some_ne_none events, inputs, next, stands, leads, followsNext⟩

end MultiMaster.LockProtocol
