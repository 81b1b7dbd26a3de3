import MultiMaster.Foundation.Interleaving
import MultiMaster.NetIO.Libevent

/-!
# Connections added concurrently

Any number of threads execute `add_bufferevent_connect` and `add_bufferevent_listen`.  Every
load, addition and subtraction of a counter and every insertion is a step of its own, and
the steps of the calls are interleaved in any order.

A call takes its id by a load of `max_bev_id` and counts it up by a second operation.  No
connection is lost in exactly those runs in which no call loads an id between the two
operations of another.
-/

namespace MultiMaster.NetIO

open Foundation

/-- The record that a call fills in.  A bufferevent is named by its address. -/
structure PeerRecord where
  ip : CString
  port : Int
  bev : Nat
  isListen : Bool
  deriving DecidableEq

/-- The operation that a call performs next.  Setting the callbacks of the connection belongs
to the step before it. -/
inductive AddPoint where
  | idLoad
  | idAdd (peerId : Int)
  | mapLockLoad (peerId : Int)
  | mapLockSub (peerId : Int)
  | mapInsert (peerId : Int)
  | mapUnlockLoad (peerId : Int)
  | mapUnlockAdd (peerId : Int)
  | vectorLockLoad (peerId : Int)
  | vectorLockSub (peerId : Int)
  | vectorPush (peerId : Int)
  | vectorUnlockLoad (peerId : Int)
  | vectorUnlockAdd (peerId : Int)
  | returned (peerId : Int)
  deriving DecidableEq

/-- A call whose bufferevent has been set up. -/
structure AddCall where
  peer : PeerRecord
  point : AddPoint

/-- What the calls share. -/
structure SharedTable where
  maxBevId : Int
  bevMapRwLockSingal : Int
  bevMap : OrderedMap Int PeerRecord
  listenVectorRwLockSingal : Int
  listenIdVector : List Int

/-- Behind the insertion, an accepted connection is put on the list of listeners. -/
def AddCall.inserted (call : AddCall) (peerId : Int) : AddCall :=
  if call.peer.isListen then { call with point := .vectorLockLoad peerId }
  else { call with point := .returned peerId }

/-- One step of a call. -/
def addStep (shared : SharedTable) (call : AddCall) : SharedTable × AddCall × Unit :=
  match call.point with
  | .idLoad => (shared, { call with point := .idAdd shared.maxBevId }, ())
  | .idAdd peerId =>
      ({ shared with maxBevId := shared.maxBevId + 1 },
        { call with point := .mapLockLoad peerId }, ())
  | .mapLockLoad peerId =>
      if 0 < shared.bevMapRwLockSingal then (shared, call, ())
      else (shared, { call with point := .mapLockSub peerId }, ())
  | .mapLockSub peerId =>
      ({ shared with bevMapRwLockSingal := shared.bevMapRwLockSingal - 1 },
        { call with point := .mapInsert peerId }, ())
  | .mapInsert peerId =>
      ({ shared with bevMap := shared.bevMap.insert peerId call.peer },
        { call with point := .mapUnlockLoad peerId }, ())
  | .mapUnlockLoad peerId =>
      if shared.bevMapRwLockSingal < 0 then
        (shared, { call with point := .mapUnlockAdd peerId }, ())
      else (shared, call.inserted peerId, ())
  | .mapUnlockAdd peerId =>
      ({ shared with bevMapRwLockSingal := shared.bevMapRwLockSingal + 1 },
        call.inserted peerId, ())
  | .vectorLockLoad peerId =>
      if 0 < shared.listenVectorRwLockSingal then (shared, call, ())
      else (shared, { call with point := .vectorLockSub peerId }, ())
  | .vectorLockSub peerId =>
      ({ shared with listenVectorRwLockSingal := shared.listenVectorRwLockSingal - 1 },
        { call with point := .vectorPush peerId }, ())
  | .vectorPush peerId =>
      ({ shared with listenIdVector := shared.listenIdVector ++ [peerId] },
        { call with point := .vectorUnlockLoad peerId }, ())
  | .vectorUnlockLoad peerId =>
      if shared.listenVectorRwLockSingal < 0 then
        (shared, { call with point := .vectorUnlockAdd peerId }, ())
      else (shared, { call with point := .returned peerId }, ())
  | .vectorUnlockAdd peerId =>
      ({ shared with listenVectorRwLockSingal := shared.listenVectorRwLockSingal + 1 },
        { call with point := .returned peerId }, ())
  | .returned _ => (shared, call, ())

def addProgram : Program SharedTable AddCall Unit := ⟨addStep⟩

/-- A table between calls: all ids are below the next one. -/
structure IdleTable where
  maxBevId : Int
  bevMap : OrderedMap Int PeerRecord
  listenIdVector : List Int
  below : ∀ entry ∈ bevMap.entries, entry.1 < maxBevId

variable {count : Nat}

/-- The calls, one for each record. -/
def adders : Machine (Threads (Fin count) SharedTable AddCall) (Fin count) Unit :=
  addProgram.interleaved

/-- No call has taken an id and all locks are free. -/
def beforeAdding (table : IdleTable) (peers : Fin count → PeerRecord) :
    Threads (Fin count) SharedTable AddCall :=
  ⟨⟨table.maxBevId, 0, table.bevMap, 0, table.listenIdVector⟩,
    fun call => ⟨peers call, .idLoad⟩⟩

/-- The id that a call has returned. -/
def AddCall.returned? (call : AddCall) : Option Int :=
  match call.point with
  | .returned peerId => some peerId
  | _ => none

/-- Every call has returned. -/
def AllAdded (state : Threads (Fin count) SharedTable AddCall) : Prop :=
  ∀ call, (state.locals call).returned?.isSome

instance (state : Threads (Fin count) SharedTable AddCall) : Decidable (AllAdded state) :=
  inferInstanceAs (Decidable (∀ _, _))

/-- The ids returned are distinct and new, and the table has gained the record of every call
under its id and nothing else. -/
structure NothingLost (table : IdleTable) (peers : Fin count → PeerRecord)
    (state : Threads (Fin count) SharedTable AddCall) : Prop where
  distinct : ∀ first second peerId, (state.locals first).returned? = some peerId →
    (state.locals second).returned? = some peerId → first = second
  fresh : ∀ call peerId, (state.locals call).returned? = some peerId →
    table.bevMap.lookup peerId = none
  recorded : ∀ peerId peer, state.shared.bevMap.lookup peerId = some peer ↔
    table.bevMap.lookup peerId = some peer ∨
      ∃ call, (state.locals call).returned? = some peerId ∧ peers call = peer

/-- Between the load of an id and its addition. -/
def AddPoint.isLoaded : AddPoint → Bool
  | .idAdd _ => true
  | _ => false

/-- An id is loaded when no other call is between its load and its addition. -/
def LoadAlone (state : Threads (Fin count) SharedTable AddCall) (call : Fin count) : Prop :=
  Program.Exclusive (fun call => call.point = .idLoad) (fun call => call.point.isLoaded) state
    call

instance (state : Threads (Fin count) SharedTable AddCall) (call : Fin count) :
    Decidable (LoadAlone state call) :=
  inferInstanceAs (Decidable (_ = _ → ∀ _, _ → ¬_ = _))

/-! ## One step -/

/-- How far a call has come with its id. -/
inductive AddPhase where
  | unloaded
  | loaded (peerId : Int)
  | counted (peerId : Int)
  | stored (peerId : Int)
  deriving DecidableEq

def AddCall.phase (call : AddCall) : AddPhase :=
  match call.point with
  | .idLoad => .unloaded
  | .idAdd peerId => .loaded peerId
  | .mapLockLoad peerId | .mapLockSub peerId | .mapInsert peerId => .counted peerId
  | .mapUnlockLoad peerId | .mapUnlockAdd peerId | .vectorLockLoad peerId
  | .vectorLockSub peerId | .vectorPush peerId | .vectorUnlockLoad peerId
  | .vectorUnlockAdd peerId | .returned peerId => .stored peerId

/-- What a step does: nothing to ids and records, or one of the three operations on them. -/
inductive AddEffect (shared : SharedTable) (call : AddCall) :
    SharedTable × AddCall × Unit → Prop where
  | quiet {after : SharedTable} {later : AddCall} (peer : later.peer = call.peer)
      (phase : later.phase = call.phase) (next : after.maxBevId = shared.maxBevId)
      (map : after.bevMap = shared.bevMap) : AddEffect shared call (after, later, ())
  | load {later : AddCall} (peer : later.peer = call.peer) (before : call.phase = .unloaded)
      (phase : later.phase = .loaded shared.maxBevId) : AddEffect shared call (shared, later, ())
  | count {after : SharedTable} {later : AddCall} {peerId : Int} (peer : later.peer = call.peer)
      (before : call.phase = .loaded peerId) (phase : later.phase = .counted peerId)
      (next : after.maxBevId = shared.maxBevId + 1) (map : after.bevMap = shared.bevMap) :
      AddEffect shared call (after, later, ())
  | store {after : SharedTable} {later : AddCall} {peerId : Int} (peer : later.peer = call.peer)
      (before : call.phase = .counted peerId) (phase : later.phase = .stored peerId)
      (next : after.maxBevId = shared.maxBevId)
      (map : after.bevMap = shared.bevMap.insert peerId call.peer) :
      AddEffect shared call (after, later, ())

theorem AddCall.peer_inserted (call : AddCall) (peerId : Int) :
    (call.inserted peerId).peer = call.peer := by
  rw [AddCall.inserted]
  split
  · rfl
  · rfl

theorem AddCall.phase_inserted (call : AddCall) (peerId : Int) :
    (call.inserted peerId).phase = .stored peerId := by
  rw [AddCall.inserted]
  split
  · rfl
  · rfl

theorem addStep_effect (shared : SharedTable) (call : AddCall) :
    AddEffect shared call (addStep shared call) := by
  rcases call with ⟨peer, point⟩
  cases point with
  | idLoad => exact .load rfl rfl rfl
  | idAdd peerId => exact .count rfl rfl rfl rfl rfl
  | mapLockLoad peerId =>
      rw [addStep]
      dsimp only
      split
      · exact .quiet rfl rfl rfl rfl
      · exact .quiet rfl rfl rfl rfl
  | mapLockSub peerId => exact .quiet rfl rfl rfl rfl
  | mapInsert peerId => exact .store rfl rfl rfl rfl rfl
  | mapUnlockLoad peerId =>
      rw [addStep]
      dsimp only
      split
      · exact .quiet rfl rfl rfl rfl
      · exact .quiet (AddCall.peer_inserted _ _) (AddCall.phase_inserted _ _) rfl rfl
  | mapUnlockAdd peerId =>
      exact .quiet (AddCall.peer_inserted _ _) (AddCall.phase_inserted _ _) rfl rfl
  | vectorLockLoad peerId =>
      rw [addStep]
      dsimp only
      split
      · exact .quiet rfl rfl rfl rfl
      · exact .quiet rfl rfl rfl rfl
  | vectorLockSub peerId => exact .quiet rfl rfl rfl rfl
  | vectorPush peerId => exact .quiet rfl rfl rfl rfl
  | vectorUnlockLoad peerId =>
      rw [addStep]
      dsimp only
      split
      · exact .quiet rfl rfl rfl rfl
      · exact .quiet rfl rfl rfl rfl
  | vectorUnlockAdd peerId => exact .quiet rfl rfl rfl rfl
  | returned peerId => exact .quiet rfl rfl rfl rfl

/-! ## Ids and records of a run -/

/-- The id that a call has loaded. -/
def AddPhase.id? : AddPhase → Option Int
  | .unloaded => none
  | .loaded peerId | .counted peerId | .stored peerId => some peerId

def AddCall.HasId (peerId : Int) (call : AddCall) : Prop := call.phase.id? = some peerId

/-- The id that a call has loaded and counted. -/
def AddPhase.taken? : AddPhase → Option Int
  | .unloaded | .loaded _ => none
  | .counted peerId | .stored peerId => some peerId

/-- The id that a call has stored its record under. -/
def AddPhase.stored? : AddPhase → Option Int
  | .unloaded | .loaded _ | .counted _ => none
  | .stored peerId => some peerId

theorem AddPhase.taken?_of_stored? {phase : AddPhase} {peerId : Int}
    (stored : phase.stored? = some peerId) : phase.taken? = some peerId := by
  cases phase with
  | unloaded => cases stored
  | loaded _ => cases stored
  | counted _ => cases stored
  | stored _ => exact stored

theorem AddCall.isLoaded_iff {call : AddCall} :
    call.point.isLoaded = true ↔ ∃ peerId, call.phase = .loaded peerId := by
  rcases call with ⟨peer, point⟩
  cases point <;> simp [AddCall.phase, AddPoint.isLoaded]

theorem AddCall.phase_eq_unloaded {call : AddCall} :
    call.phase = .unloaded ↔ call.point = .idLoad := by
  rcases call with ⟨peer, point⟩
  cases point <;> simp [AddCall.phase]

theorem AddCall.phase_of_returned? {call : AddCall} {peerId : Int}
    (returned : call.returned? = some peerId) : call.phase = .stored peerId := by
  rcases call with ⟨peer, point⟩
  cases point <;> simp_all [AddCall.returned?, AddCall.phase]

variable {table : IdleTable} {peers : Fin count → PeerRecord} {schedule : List (Fin count)}
variable {state : Threads (Fin count) SharedTable AddCall} {call : Fin count}
variable {after : SharedTable} {later : AddCall} {peerId : Int}

theorem adders_step (stepped : addStep state.shared (state.locals call) = (after, later, ())) :
    adders.step state call = (⟨after, Function.update state.locals call later⟩, ()) := by
  simp only [adders, Program.interleaved, addProgram, stepped]

/-- A call keeps the id it has loaded. -/
theorem hasId_kept (shared : SharedTable) (call : AddCall) (has : call.HasId peerId) :
    (addProgram.step shared call).2.1.HasId peerId := by
  change (addStep shared call).2.1.phase.id? = some peerId
  rw [AddCall.HasId] at has
  have effect := addStep_effect shared call
  generalize addStep shared call = next at effect
  cases effect with
  | quiet _ phase _ _ => rw [phase, has]
  | load _ before _ =>
      rw [before] at has
      cases has
  | count _ before phase _ _ =>
      rw [before] at has
      rw [phase]
      exact has
  | store _ before phase _ _ =>
      rw [before] at has
      rw [phase]
      exact has

/-- Ids from the next one on are not in use. -/
theorem IdleTable.lookup_eq_none (table : IdleTable) (above : table.maxBevId ≤ peerId) :
    table.bevMap.lookup peerId = none := by
  cases found : table.bevMap.lookup peerId with
  | none => rfl
  | some peer =>
      have below := table.below _ (OrderedMap.lookup_eq_some_iff.mp found)
      dsimp only at below
      omega

/-- Ids that were counted are distinct, and the table holds the records stored so far. -/
structure Kept (table : IdleTable) (peers : Fin count → PeerRecord)
    (state : Threads (Fin count) SharedTable AddCall) : Prop where
  peer : ∀ call, (state.locals call).peer = peers call
  loaded : ∀ call peerId, (state.locals call).phase = .loaded peerId →
    peerId = state.shared.maxBevId
  grown : table.maxBevId ≤ state.shared.maxBevId
  taken : ∀ call peerId, (state.locals call).phase.taken? = some peerId →
    table.maxBevId ≤ peerId ∧ peerId < state.shared.maxBevId
  distinct : ∀ first second peerId, (state.locals first).phase.taken? = some peerId →
    (state.locals second).phase.taken? = some peerId → first = second
  recorded : ∀ peerId peer, state.shared.bevMap.lookup peerId = some peer ↔
    table.bevMap.lookup peerId = some peer ∨
      ∃ call, (state.locals call).phase.stored? = some peerId ∧ peers call = peer

namespace Kept

theorem initial (table : IdleTable) (peers : Fin count → PeerRecord) :
    Kept table peers (beforeAdding table peers) where
  peer _ := rfl
  loaded := by simp [beforeAdding, AddCall.phase]
  grown := le_rfl
  taken := by simp [beforeAdding, AddCall.phase, AddPhase.taken?]
  distinct := by simp [beforeAdding, AddCall.phase, AddPhase.taken?]
  recorded := by simp [beforeAdding, AddCall.phase, AddPhase.stored?]

theorem peer_update (kept : Kept table peers state)
    (peer : later.peer = (state.locals call).peer) (other : Fin count) :
    (Function.update state.locals call later other).peer = peers other := by
  rw [Program.update_view AddCall.peer peer, kept.peer]

/-- Steps that leave the counted ids and the records alone. -/
theorem unmoved (kept : Kept table peers state)
    (peer : later.peer = (state.locals call).peer)
    (loaded : ∀ peerId, later.phase = .loaded peerId → peerId = state.shared.maxBevId)
    (taken : later.phase.taken? = (state.locals call).phase.taken?)
    (stored : later.phase.stored? = (state.locals call).phase.stored?)
    (next : after.maxBevId = state.shared.maxBevId)
    (map : after.bevMap = state.shared.bevMap) :
    Kept table peers ⟨after, Function.update state.locals call later⟩ := by
  have takens := Program.update_view (fun call : AddCall => call.phase.taken?) taken
  have storeds := Program.update_view (fun call : AddCall => call.phase.stored?) stored
  refine ⟨kept.peer_update peer, ?_, ?_, ?_, ?_, ?_⟩
  · intro other peerId
    rw [next]
    by_cases same : other = call
    · subst same
      simpa using loaded peerId
    · simpa [same] using kept.loaded other peerId
  · rw [next]
    exact kept.grown
  · intro other peerId
    rw [takens, next]
    exact kept.taken other peerId
  · intro first second peerId
    rw [takens, takens]
    exact kept.distinct first second peerId
  · intro peerId peer
    simp only [map, storeds]
    exact kept.recorded peerId peer

/-- The next id is counted by the call that loaded it, when no other call has. -/
theorem counted (kept : Kept table peers state)
    (alone : ∀ other, other ≠ call → ∀ peerId, (state.locals other).phase ≠ .loaded peerId)
    (peer : later.peer = (state.locals call).peer)
    (before : (state.locals call).phase = .loaded peerId)
    (phase : later.phase = .counted peerId)
    (next : after.maxBevId = state.shared.maxBevId + 1)
    (map : after.bevMap = state.shared.bevMap) :
    Kept table peers ⟨after, Function.update state.locals call later⟩ := by
  have mine := kept.loaded call peerId before
  have grown := kept.grown
  have takens : ∀ other counted,
      (Function.update state.locals call later other).phase.taken? = some counted →
        other = call ∧ counted = state.shared.maxBevId ∨
          other ≠ call ∧ (state.locals other).phase.taken? = some counted := by
    intro other counted has
    by_cases same : other = call
    · subst same
      rw [Function.update_self, phase] at has
      cases has
      exact .inl ⟨rfl, mine⟩
    · rw [Function.update_of_ne same] at has
      exact .inr ⟨same, has⟩
  have storeds := Program.update_view (fun call : AddCall => call.phase.stored?)
    (show later.phase.stored? = (state.locals call).phase.stored? by rw [phase, before]; rfl)
  refine ⟨kept.peer_update peer, ?_, ?_, ?_, ?_, ?_⟩
  · intro other loaded has
    by_cases same : other = call
    · subst same
      simp [phase] at has
    · exact absurd (by simpa [same] using has) (alone other same loaded)
  · rw [next]
    omega
  · intro other counted has
    rw [next]
    rcases takens other counted has with ⟨_, rfl⟩ | ⟨_, earlier⟩
    · omega
    · have bounds := kept.taken other counted earlier
      omega
  · intro first second counted firstHas secondHas
    rcases takens first counted firstHas with ⟨rfl, value⟩ | ⟨_, firstEarlier⟩
    · rcases takens second counted secondHas with ⟨rfl, _⟩ | ⟨_, secondEarlier⟩
      · rfl
      · have bounds := kept.taken second counted secondEarlier
        omega
    · rcases takens second counted secondHas with ⟨rfl, value⟩ | ⟨_, secondEarlier⟩
      · have bounds := kept.taken first counted firstEarlier
        omega
      · exact kept.distinct first second counted firstEarlier secondEarlier
  · intro peerId peer
    simp only [map, storeds]
    exact kept.recorded peerId peer

/-- A record is stored under an id of its own. -/
theorem store (kept : Kept table peers state) (peer : later.peer = (state.locals call).peer)
    (before : (state.locals call).phase = .counted peerId)
    (phase : later.phase = .stored peerId) (next : after.maxBevId = state.shared.maxBevId)
    (map : after.bevMap = state.shared.bevMap.insert peerId (state.locals call).peer) :
    Kept table peers ⟨after, Function.update state.locals call later⟩ := by
  have mine : (state.locals call).phase.taken? = some peerId := by
    rw [before]
    rfl
  have unused := table.lookup_eq_none (kept.taken call peerId mine).1
  have takens := Program.update_view (fun call : AddCall => call.phase.taken?)
    (show later.phase.taken? = (state.locals call).phase.taken? by rw [phase, mine]; rfl)
  refine ⟨kept.peer_update peer, ?_, ?_, ?_, ?_, ?_⟩
  · intro other loaded has
    rw [next]
    by_cases same : other = call
    · subst same
      simp [phase] at has
    · exact kept.loaded other loaded (by simpa [same] using has)
  · rw [next]
    exact kept.grown
  · intro other counted
    rw [takens, next]
    exact kept.taken other counted
  · intro first second counted
    rw [takens, takens]
    exact kept.distinct first second counted
  · intro key record
    by_cases same : key = peerId
    · -- Nothing else was ever stored under the id of this call.
      subst same
      simp only [map, OrderedMap.lookup_insert, unused, kept.peer, Option.some.injEq,
        reduceCtorEq, false_or]
      constructor
      · rintro rfl
        exact ⟨call, by rw [Function.update_self, phase]; rfl, rfl⟩
      · rintro ⟨other, stored, rfl⟩
        have taken := AddPhase.taken?_of_stored? stored
        rw [takens] at taken
        rw [kept.distinct other call key taken mine]
    · have elsewhere : (later.phase.stored? = some key) =
          ((state.locals call).phase.stored? = some key) := by
        rw [phase, before]
        simp [AddPhase.stored?, Ne.symm same]
      have storeds :=
        Program.update_view (fun call : AddCall => call.phase.stored? = some key) elsewhere
      simp only [map, OrderedMap.lookup_insert_ne same, storeds]
      exact kept.recorded key record

end Kept

/-- An id is loaded by the load only. -/
theorem isLoaded_entering (shared : SharedTable) (call : AddCall)
    (loaded : (addStep shared call).2.1.point.isLoaded = true) :
    call.point.isLoaded = true ∨ call.point = .idLoad := by
  rw [AddCall.isLoaded_iff] at loaded ⊢
  rw [← AddCall.phase_eq_unloaded]
  have effect := addStep_effect shared call
  generalize addStep shared call = next at effect loaded
  rcases loaded with ⟨peerId, has⟩
  cases effect with
  | quiet _ phase _ _ => exact .inl ⟨peerId, by rw [← phase]; exact has⟩
  | load _ before _ => exact .inr before
  | count _ _ phase _ _ =>
      rw [phase] at has
      cases has
  | store _ _ phase _ _ =>
      rw [phase] at has
      cases has

theorem kept_run
    (respects : adders.Respects (beforeAdding table peers)
      (fun _ state call => LoadAlone state call) schedule) :
    Kept table peers (adders.exec (beforeAdding table peers) schedule) := by
  induction schedule using List.reverseRecOn with
  | nil => exact Kept.initial table peers
  | append_singleton schedule call ih =>
      rcases Machine.respects_concat.mp respects with ⟨earlier, _⟩
      have kept := ih earlier
      have empty : Program.Alone (fun call => call.point.isLoaded = true)
          (beforeAdding table peers) := by
        intro first second loaded
        cases loaded
      have alone := Program.alone_run isLoaded_entering empty earlier
      rw [Machine.exec_concat]
      change Program.Alone _ (adders.exec (beforeAdding table peers) schedule) at alone
      generalize adders.exec (beforeAdding table peers) schedule = state at kept alone ⊢
      have effect := addStep_effect state.shared (state.locals call)
      generalize stepped : addStep state.shared (state.locals call) = next at effect
      cases effect with
      | quiet peer phase next map =>
          rw [adders_step stepped]
          apply kept.unmoved peer _ (by rw [phase]) (by rw [phase]) next map
          intro peerId loaded
          rw [phase] at loaded
          exact kept.loaded call peerId loaded
      | load peer before phase =>
          rw [adders_step stepped]
          apply kept.unmoved peer _ (by rw [phase, before]; rfl) (by rw [phase, before]; rfl) rfl
            rfl
          intro peerId loaded
          rw [phase] at loaded
          cases loaded
          rfl
      | count peer before phase next map =>
          rw [adders_step stepped]
          refine kept.counted ?_ peer before phase next map
          intro other different peerId loaded
          apply different
          exact alone other call (AddCall.isLoaded_iff.mpr ⟨peerId, loaded⟩)
            (AddCall.isLoaded_iff.mpr ⟨_, before⟩)
      | store peer before phase next map =>
          rw [adders_step stepped]
          exact kept.store peer before phase next map

/-- A call that loads between the load and the addition of another gets the same id. -/
theorem hasId_of_overlap {other thread : Fin count}
    (loads : (state.locals call).point = .idLoad) (different : other ≠ call)
    (loaded : (state.locals other).phase = .loaded state.shared.maxBevId)
    (which : thread = call ∨ thread = other) :
    ((adders.step state call).1.locals thread).HasId state.shared.maxBevId := by
  rcases which with rfl | rfl
  · rw [adders, Program.locals_step_self]
    change (addStep _ _).2.1.phase.id? = _
    rw [addStep, loads]
    rfl
  · rw [adders, addProgram.locals_step_of_ne _ different, AddCall.HasId, loaded]
    rfl

/-- Once all calls have returned, no connection is lost exactly if no id was loaded between
the load of another call and its addition. -/
theorem concurrentAdds_kept_iff (table : IdleTable) (peers : Fin count → PeerRecord)
    {schedule : List (Fin count)}
    (complete : AllAdded (adders.exec (beforeAdding table peers) schedule)) :
    NothingLost table peers (adders.exec (beforeAdding table peers) schedule) ↔
      adders.Respects (beforeAdding table peers) (fun _ state call => LoadAlone state call)
        schedule := by
  constructor
  · intro nothingLost
    by_contra broken
    rcases Machine.exists_first_break broken with
      ⟨before, call, after, split, respects, overlap⟩
    have kept := kept_run respects
    rw [LoadAlone, Program.Exclusive] at overlap
    push Not at overlap
    rcases overlap with ⟨loads, other, different, inside⟩
    rcases AddCall.isLoaded_iff.mp inside with ⟨peerId, loaded⟩
    rw [kept.loaded other peerId loaded] at loaded
    subst split
    have returned : ∀ thread, thread = call ∨ thread = other →
        ((adders.exec (beforeAdding table peers) (before ++ call :: after)).locals
          thread).returned? =
            some (adders.exec (beforeAdding table peers) before).shared.maxBevId := by
      intro thread which
      rcases Option.isSome_iff_exists.mp (complete thread) with ⟨final, has⟩
      have keeping := Program.locals_invariant hasId_kept
        (hasId_of_overlap loads different loaded which) after
      change ((adders.exec _ after).locals thread).phase.id? = _ at keeping
      rw [← Machine.exec_cons, ← Machine.exec_append, AddCall.phase_of_returned? has] at keeping
      rw [has, ← keeping]
      rfl
    exact different (nothingLost.distinct other call _ (returned other (.inr rfl))
      (returned call (.inl rfl)))
  · intro respects
    have kept := kept_run respects
    have stored : ∀ call peerId,
        ((adders.exec (beforeAdding table peers) schedule).locals call).returned? = some peerId ↔
          ((adders.exec (beforeAdding table peers) schedule).locals call).phase.stored? =
            some peerId := by
      intro call peerId
      rcases Option.isSome_iff_exists.mp (complete call) with ⟨returned, has⟩
      rw [has, AddCall.phase_of_returned? has]
      rfl
    constructor
    · intro first second peerId firstHas secondHas
      rw [stored] at firstHas secondHas
      exact kept.distinct first second peerId (AddPhase.taken?_of_stored? firstHas)
        (AddPhase.taken?_of_stored? secondHas)
    · intro call peerId has
      rw [stored] at has
      exact table.lookup_eq_none (kept.taken call peerId (AddPhase.taken?_of_stored? has)).1
    · intro peerId peer
      simp only [stored]
      exact kept.recorded peerId peer

/-- An empty table. -/
def newTable : IdleTable := ⟨0, OrderedMap.empty, [], by simp [OrderedMap.empty]⟩

/-- An outgoing connection and an accepted one. -/
def twoPeers : Fin 2 → PeerRecord
  | 0 => ⟨CString.ofString "10.0.0.1", 1000, 1, false⟩
  | 1 => ⟨CString.ofString "10.0.0.2", 2000, 2, true⟩

/-- The second call begins when the first has returned. -/
def addedInTurn : List (Fin 2) := List.replicate 7 0 ++ List.replicate 12 1

theorem concurrentAdds_kept_iff_inTurn :
    AllAdded (adders.exec (beforeAdding newTable twoPeers) addedInTurn) ∧
      NothingLost newTable twoPeers
        (adders.exec (beforeAdding newTable twoPeers) addedInTurn) := by
  have complete : AllAdded (adders.exec (beforeAdding newTable twoPeers) addedInTurn) := by
    decide +kernel
  exact ⟨complete, (concurrentAdds_kept_iff newTable twoPeers complete).mpr (by decide +kernel)⟩

/-- The second call loads an id before the first has counted its own. -/
def loadedTogether : List (Fin 2) := [0, 1] ++ List.replicate 6 0 ++ List.replicate 11 1

/-- Both calls return the same id and the record of the first is lost. -/
theorem adders_share_id :
    AllAdded (adders.exec (beforeAdding newTable twoPeers) loadedTogether) ∧
      (∀ call, ((adders.exec (beforeAdding newTable twoPeers) loadedTogether).locals
        call).returned? = some 0) ∧
      (adders.exec (beforeAdding newTable twoPeers) loadedTogether).shared.bevMap.entries =
        [(0, twoPeers 1)] ∧
      ¬NothingLost newTable twoPeers
        (adders.exec (beforeAdding newTable twoPeers) loadedTogether) := by
  have shared : ∀ call, ((adders.exec (beforeAdding newTable twoPeers) loadedTogether).locals
      call).returned? = some 0 := by
    decide +kernel
  refine ⟨by decide +kernel, shared, by decide +kernel, ?_⟩
  intro nothingLost
  exact absurd (nothingLost.distinct 0 1 0 (shared 0) (shared 1)) (by decide)

end MultiMaster.NetIO
