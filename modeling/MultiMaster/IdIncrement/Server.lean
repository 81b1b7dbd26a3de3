import Mathlib.Algebra.Order.BigOperators.Group.Finset
import MultiMaster.Foundation.Bytes
import MultiMaster.Foundation.Interleaving
import MultiMaster.Foundation.OrderedMap

/-!
# The id server

Calls of `IDInc` take the ids 1, 2, 3 and so on, one call at a time under a mutex, and the
server notes which peer got which id.  Any number of calls run at the same time; every access
to what they share is a step of its own, and the steps are interleaved in any order.  The
definitions follow `server.cpp`.
-/

namespace MultiMaster.IdIncrement

open Foundation

/-- What a call does next.  The lock is released before the response is sent. -/
inductive IdPoint where
  | lock
  | setMessage
  | enterPeer
  | increment
  | unlock
  | run
  | returned
  deriving DecidableEq

/-- A call of `IDInc` from a peer. -/
structure IdCall where
  remoteSide : CString
  message : Option String
  point : IdPoint

/-- The globals of the server. -/
structure IdServer where
  id : Int
  idmap : OrderedMap Int CString
  idLock : Bool

/-- What can be seen of a step. -/
inductive IdEvent where
  | locked
  | replied (message : Option String)
  deriving DecidableEq

/-- `id++` of a `long long`. -/
def incremented (id : Int) : Int := (id + 1).bmod (2 ^ 64)

/-- One step of a call.  The mutex lets no second call in. -/
def idStep (shared : IdServer) (call : IdCall) : IdServer × IdCall × Option IdEvent :=
  match call.point with
  | .lock =>
      if shared.idLock then (shared, call, none)
      else ({ shared with idLock := true }, { call with point := .setMessage }, some .locked)
  | .setMessage =>
      (shared, { call with message := some shared.id.repr, point := .enterPeer }, none)
  | .enterPeer =>
      ({ shared with idmap := shared.idmap.insert shared.id call.remoteSide },
        { call with point := .increment }, none)
  | .increment =>
      ({ shared with id := incremented shared.id }, { call with point := .unlock }, none)
  | .unlock => ({ shared with idLock := false }, { call with point := .run }, none)
  | .run => (shared, { call with point := .returned }, some (.replied call.message))
  | .returned => (shared, call, none)

def idProgram : Program IdServer IdCall (Option IdEvent) := ⟨idStep⟩

variable {count : Nat}

/-- The calls of the life of a server. -/
def idCalls : Machine (Threads (Fin count) IdServer IdCall) (Fin count) (Option IdEvent) :=
  idProgram.interleaved

/-- The server after its start, before any call. -/
def startedServer (peers : Fin count → CString) : Threads (Fin count) IdServer IdCall :=
  ⟨⟨1, OrderedMap.empty, false⟩, fun call => ⟨peers call, none, .lock⟩⟩

/-- The calls in the order in which they took the lock. -/
def lockOrder (history : List (Fin count × Option IdEvent)) : List (Fin count) :=
  (history.filter fun event => event.2 = some .locked).map Prod.fst

/-- Ids from one on, each with the peer of its call. -/
def allotment (peers : Fin count → CString) (order : List (Fin count)) : List (Int × CString) :=
  order.zipIdx.map fun entry => ((entry.2 : Int) + 1, peers entry.1)

/-! ## One call at a time -/

namespace IdPoint

/-- The call holds the lock. -/
def Inside : IdPoint → Prop
  | .setMessage | .enterPeer | .increment | .unlock => True
  | .lock | .run | .returned => False

/-- The call has no message yet. -/
def Silent : IdPoint → Prop
  | .lock | .setMessage => True
  | .enterPeer | .increment | .unlock | .run | .returned => False

end IdPoint

variable {peers : Fin count → CString} {before order : List (Fin count)}
variable {state : Threads (Fin count) IdServer IdCall} {mover : Fin count}

/-- The peers of some calls are noted, and the id has been counted up by some calls. -/
def Noted (peers : Fin count → CString) (entered counted : List (Fin count))
    (shared : IdServer) : Prop :=
  shared.idmap.entries = allotment peers entered ∧ shared.id = counted.length + 1

/-- How far the server has come when the last call holds the lock. -/
def NotedAt (peers : Fin count → CString) (before order : List (Fin count))
    (shared : IdServer) : IdPoint → Prop
  | .setMessage | .enterPeer => Noted peers before before shared
  | .increment => Noted peers order before shared
  | .unlock => Noted peers order order shared
  | .lock | .run | .returned => False

/-- The message of a call is the id of its place in the order. -/
def HasId (order : List (Fin count)) (call : Fin count) (message : Option String) : Prop :=
  ∃ position : Nat, order[position]? = some call ∧ message = some ((position : Int) + 1).repr

/-- Calls that have taken the lock in an order have their ids, and the server has noted the
calls that gave the lock back.  Only the last call can still hold it. -/
structure Allotting (peers : Fin count → CString) (order : List (Fin count))
    (state : Threads (Fin count) IdServer IdCall) : Prop where
  nodup : order.Nodup
  peer : ∀ call, (state.locals call).remoteSide = peers call
  begun : ∀ call, call ∈ order ↔ (state.locals call).point ≠ .lock
  free : state.shared.idLock = false →
    (∀ call, ¬(state.locals call).point.Inside) ∧ Noted peers order order state.shared
  held : state.shared.idLock = true → ∃ before holder, order = before ++ [holder] ∧
    (∀ call, (state.locals call).point.Inside ↔ call = holder) ∧
    NotedAt peers before order state.shared (state.locals holder).point
  messages : ∀ call, ¬(state.locals call).point.Silent →
    HasId order call (state.locals call).message

theorem allotment_concat (peers : Fin count → CString) (order : List (Fin count))
    (call : Fin count) : allotment peers (order ++ [call]) =
      allotment peers order ++ [((order.length : Int) + 1, peers call)] := by
  rw [allotment, List.zipIdx_append, List.map_append]
  simp [allotment]

theorem allotment_below (peers : Fin count → CString) (order : List (Fin count)) :
    ∀ entry ∈ allotment peers order, entry.1 < (order.length : Int) + 1 := by
  intro entry member
  rcases List.mem_map.mp member with ⟨⟨call, position⟩, place, rfl⟩
  have inBounds := List.snd_lt_of_mem_zipIdx place
  dsimp only at inBounds ⊢
  omega

theorem allotting_started (peers : Fin count → CString) :
    Allotting peers [] (startedServer peers) := by
  refine ⟨List.nodup_nil, fun _ => rfl, ?_, fun _ => ⟨fun _ => id, rfl, rfl⟩, ?_, ?_⟩
  · intro call
    constructor
    · intro member
      cases member
    · intro moved
      exact absurd rfl moved
  · intro locked
    cases locked
  · intro call speaks
    exact absurd trivial speaks

/-- Fewer increments than a `long long` can count do not overflow. -/
theorem incremented_eq {counted : Nat} (bounded : counted + 2 < 2 ^ 63) :
    incremented ((counted : Int) + 1) = (counted : Int) + 1 + 1 := by
  rw [incremented, Int.bmod_eq_iff (by decide)]
  omega

namespace Allotting

variable {shared : IdServer} {here : IdCall}

/-- A call inside is the last one of the order. -/
theorem holder (allotting : Allotting peers order state)
    (inside : (state.locals mover).point.Inside) :
    state.shared.idLock = true ∧ ∃ before, order = before ++ [mover] ∧
      (∀ call, (state.locals call).point.Inside ↔ call = mover) ∧
      NotedAt peers before order state.shared (state.locals mover).point := by
  cases lock : state.shared.idLock with
  | false => exact absurd inside ((allotting.free lock).1 mover)
  | true =>
      rcases allotting.held lock with ⟨before, last, split, only, noted⟩
      obtain rfl := (only mover).mp inside
      exact ⟨rfl, before, split, only, noted⟩

/-- What a step of a call that has begun leaves to show. -/
theorem move (allotting : Allotting peers order state)
    (begun : (state.locals mover).point ≠ .lock)
    (peer : here.remoteSide = (state.locals mover).remoteSide) (going : here.point ≠ .lock)
    (free : shared.idLock = false →
      (∀ call, ¬(Function.update state.locals mover here call).point.Inside) ∧
        Noted peers order order shared)
    (held : shared.idLock = true → ∃ before holder, order = before ++ [holder] ∧
      (∀ call, (Function.update state.locals mover here call).point.Inside ↔ call = holder) ∧
      NotedAt peers before order shared (Function.update state.locals mover here holder).point)
    (message : ¬here.point.Silent → HasId order mover here.message) :
    Allotting peers order ⟨shared, Function.update state.locals mover here⟩ := by
  refine ⟨allotting.nodup, ?_, ?_, free, held, ?_⟩
  · exact fun call => (Program.update_view IdCall.remoteSide peer call).trans (allotting.peer call)
  · intro call
    dsimp only
    by_cases moved : call = mover
    · rw [moved, Function.update_self, allotting.begun]
      exact iff_of_true begun going
    · rw [Function.update_of_ne moved, allotting.begun]
  · intro call speaks
    dsimp only at speaks ⊢
    by_cases moved : call = mover
    · rw [moved, Function.update_self] at speaks ⊢
      exact message speaks
    · rw [Function.update_of_ne moved] at speaks ⊢
      exact allotting.messages call speaks

/-- The call that holds the lock goes on and keeps it. -/
theorem goOn (allotting : Allotting peers order state)
    (inside : (state.locals mover).point.Inside)
    (peer : here.remoteSide = (state.locals mover).remoteSide) (stays : here.point.Inside)
    (lock : shared.idLock = state.shared.idLock)
    (noted : ∀ before, order = before ++ [mover] →
      NotedAt peers before order state.shared (state.locals mover).point →
      NotedAt peers before order shared here.point)
    (message : ¬here.point.Silent → HasId order mover here.message) :
    Allotting peers order ⟨shared, Function.update state.locals mover here⟩ := by
  have begun {point : IdPoint} (within : point.Inside) : point ≠ .lock := by
    rintro rfl
    exact within
  rcases allotting.holder inside with ⟨locked, before, split, only, soFar⟩
  refine allotting.move (begun inside) peer (begun stays) ?_ ?_ message
  · intro unlocked
    rw [lock, locked] at unlocked
    cases unlocked
  · intro _
    refine ⟨before, mover, split, ?_, ?_⟩
    · intro call
      by_cases moved : call = mover
      · rw [moved, Function.update_self]
        exact iff_of_true stays rfl
      · rw [Function.update_of_ne moved]
        exact only call
    · rw [Function.update_self]
      exact noted before split soFar

/-- A call that has given the lock back goes on. -/
theorem goOutside (allotting : Allotting peers order state)
    (begun : (state.locals mover).point ≠ .lock) (outside : ¬(state.locals mover).point.Inside)
    (peer : here.remoteSide = (state.locals mover).remoteSide) (going : here.point ≠ .lock)
    (stays : ¬here.point.Inside)
    (message : ¬here.point.Silent → HasId order mover here.message) :
    Allotting peers order ⟨state.shared, Function.update state.locals mover here⟩ := by
  have same (call : Fin count) :
      (Function.update state.locals mover here call).point.Inside ↔
        (state.locals call).point.Inside := by
    by_cases moved : call = mover
    · rw [moved, Function.update_self]
      exact iff_of_false stays outside
    · rw [Function.update_of_ne moved]
  refine allotting.move begun peer going ?_ ?_ message
  · intro unlocked
    exact ⟨fun call => mt (same call).mp ((allotting.free unlocked).1 call),
      (allotting.free unlocked).2⟩
  · intro locked
    rcases allotting.held locked with ⟨before, holder, split, only, noted⟩
    refine ⟨before, holder, split, fun call => (same call).trans (only call), ?_⟩
    have elsewhere : holder ≠ mover := by
      rintro rfl
      exact outside ((only holder).mpr rfl)
    rw [Function.update_of_ne elsewhere]
    exact noted

/-- A call takes the free lock. -/
theorem take (allotting : Allotting peers order state)
    (waits : (state.locals mover).point = .lock) (unlocked : state.shared.idLock = false) :
    Allotting peers (order ++ [mover]) ⟨{ state.shared with idLock := true },
      Function.update state.locals mover { state.locals mover with point := .setMessage }⟩ := by
  have new : mover ∉ order := fun member => (allotting.begun mover).mp member waits
  rcases allotting.free unlocked with ⟨none, noted⟩
  refine ⟨?_, ?_, ?_, ?_, ?_, ?_⟩
  · rw [List.nodup_append]
    refine ⟨allotting.nodup, List.nodup_singleton mover, ?_⟩
    rintro call member other last rfl
    exact new (List.mem_singleton.mp last ▸ member)
  · have same : IdCall.remoteSide { state.locals mover with point := .setMessage } =
        (state.locals mover).remoteSide := rfl
    exact fun call => (Program.update_view IdCall.remoteSide same call).trans (allotting.peer call)
  · intro call
    dsimp only
    rw [List.mem_append, List.mem_singleton]
    by_cases moved : call = mover
    · rw [moved, Function.update_self]
      exact iff_of_true (.inr rfl) nofun
    · rw [Function.update_of_ne moved, ← allotting.begun]
      exact or_iff_left moved
  · intro free
    cases free
  · intro _
    refine ⟨order, mover, rfl, ?_, ?_⟩
    · intro call
      dsimp only
      by_cases moved : call = mover
      · rw [moved, Function.update_self]
        exact iff_of_true trivial rfl
      · rw [Function.update_of_ne moved]
        exact iff_of_false (none call) moved
    · dsimp only
      rw [Function.update_self]
      exact noted
  · intro call speaks
    dsimp only at speaks ⊢
    by_cases moved : call = mover
    · rw [moved, Function.update_self] at speaks
      exact absurd trivial speaks
    · rw [Function.update_of_ne moved] at speaks ⊢
      rcases allotting.messages call speaks with ⟨position, place, message⟩
      refine ⟨position, ?_, message⟩
      rw [List.getElem?_append_left (List.getElem?_eq_some_iff.mp place).1]
      exact place

/-- The message is made while the id is that of the call's place. -/
theorem setMessage (allotting : Allotting peers order state)
    (point : (state.locals mover).point = .setMessage) :
    Allotting peers order ⟨state.shared, Function.update state.locals mover
      { state.locals mover with
        message := some state.shared.id.repr
        point := .enterPeer }⟩ := by
  have inside : (state.locals mover).point.Inside := by
    rw [point]
    trivial
  refine allotting.goOn inside rfl trivial rfl ?_ ?_
  · intro before _ noted
    rw [point] at noted
    exact noted
  · intro _
    rcases allotting.holder inside with ⟨_, before, split, _, noted⟩
    rw [point] at noted
    refine ⟨before.length, ?_, congrArg (fun id => some (Int.repr id)) noted.2⟩
    rw [split, List.getElem?_append_right (Nat.le_refl _), Nat.sub_self]
    rfl

/-- The peer is entered behind all earlier ones. -/
theorem enterPeer (allotting : Allotting peers order state)
    (point : (state.locals mover).point = .enterPeer) :
    Allotting peers order ⟨{ state.shared with
        idmap := state.shared.idmap.insert state.shared.id (state.locals mover).remoteSide },
      Function.update state.locals mover { state.locals mover with point := .increment }⟩ := by
  refine allotting.goOn ?_ rfl trivial rfl ?_ ?_
  · rw [point]
    trivial
  · intro before split noted
    rw [point] at noted
    refine ⟨?_, noted.2⟩
    dsimp only
    rw [OrderedMap.entries_insert_last, noted.1, noted.2, allotting.peer, split,
      allotment_concat]
    rw [noted.1, noted.2]
    exact allotment_below peers before
  · intro _
    refine allotting.messages mover ?_
    rw [point]
    exact id

/-- The id is counted up without overflow. -/
theorem increment (allotting : Allotting peers order state)
    (bounded : order.length + 1 < 2 ^ 63) (point : (state.locals mover).point = .increment) :
    Allotting peers order ⟨{ state.shared with id := incremented state.shared.id },
      Function.update state.locals mover { state.locals mover with point := .unlock }⟩ := by
  refine allotting.goOn ?_ rfl trivial rfl ?_ ?_
  · rw [point]
    trivial
  · intro before split noted
    rw [point] at noted
    refine ⟨noted.1, ?_⟩
    rw [split, List.length_append, List.length_singleton] at bounded
    dsimp only
    rw [noted.2, incremented_eq bounded, split, List.length_append, List.length_singleton]
    rfl
  · intro _
    refine allotting.messages mover ?_
    rw [point]
    exact id

/-- The lock is given back by the only call inside. -/
theorem unlock (allotting : Allotting peers order state)
    (point : (state.locals mover).point = .unlock) :
    Allotting peers order ⟨{ state.shared with idLock := false },
      Function.update state.locals mover { state.locals mover with point := .run }⟩ := by
  have inside : (state.locals mover).point.Inside := by
    rw [point]
    trivial
  rcases allotting.holder inside with ⟨_, before, split, only, noted⟩
  rw [point] at noted
  refine allotting.move ?_ rfl nofun ?_ nofun ?_
  · rw [point]
    nofun
  · intro _
    refine ⟨?_, noted⟩
    intro call
    by_cases moved : call = mover
    · rw [moved, Function.update_self]
      exact id
    · rw [Function.update_of_ne moved, only]
      exact moved
  · intro _
    refine allotting.messages mover ?_
    rw [point]
    exact id

/-- The response is sent without the lock. -/
theorem run (allotting : Allotting peers order state)
    (point : (state.locals mover).point = .run) :
    Allotting peers order ⟨state.shared,
      Function.update state.locals mover { state.locals mover with point := .returned }⟩ := by
  refine allotting.goOutside ?_ ?_ rfl nofun id ?_
  · rw [point]
    nofun
  · rw [point]
    exact id
  · intro _
    refine allotting.messages mover ?_
    rw [point]
    exact id

end Allotting

/-! ## Whole runs -/

theorem lockOrder_concat (history : List (Fin count × Option IdEvent)) (mover : Fin count)
    (event : Option IdEvent) : lockOrder (history ++ [(mover, event)]) =
      if event = some .locked then lockOrder history ++ [mover] else lockOrder history := by
  rw [lockOrder, List.filter_append, List.map_append]
  by_cases locks : event = some .locked
  · rw [if_pos locks]
    simp [locks, lockOrder]
  · rw [if_neg locks]
    simp [locks, lockOrder]

/-- What a step of the calls is, from the result of the step of one. -/
theorem allotting_of_result {shared : IdServer} {here : IdCall} {event : Option IdEvent}
    {history : List (Fin count × Option IdEvent)}
    (result : idStep state.shared (state.locals mover) = (shared, here, event))
    (after : Allotting peers
      (if event = some .locked then lockOrder history ++ [mover] else lockOrder history)
      ⟨shared, Function.update state.locals mover here⟩) :
    Allotting peers (lockOrder (history ++ [(mover, (idCalls.step state mover).2)]))
      (idCalls.step state mover).1 := by
  have stepped : idCalls.step state mover =
      (⟨shared, Function.update state.locals mover here⟩, event) := by
    change ((⟨(idStep state.shared (state.locals mover)).1, Function.update state.locals mover
      (idStep state.shared (state.locals mover)).2.1⟩ : Threads (Fin count) IdServer IdCall),
      (idStep state.shared (state.locals mover)).2.2) = _
    rw [result]
  rw [stepped, lockOrder_concat]
  exact after

/-- Every step keeps the order of the calls and what the server has noted. -/
theorem allotting_step (bounded : count + 1 < 2 ^ 63)
    {history : List (Fin count × Option IdEvent)}
    (allotting : Allotting peers (lockOrder history) state) (mover : Fin count) :
    Allotting peers (lockOrder (history ++ [(mover, (idCalls.step state mover).2)]))
      (idCalls.step state mover).1 := by
  have unchanged (here : IdCall) (same : here = state.locals mover) :
      Allotting peers (lockOrder history)
        ⟨state.shared, Function.update state.locals mover here⟩ := by
    rw [same, Function.update_eq_self]
    exact allotting
  have result := idStep.eq_def state.shared (state.locals mover)
  cases point : (state.locals mover).point with
  | lock =>
      rw [point] at result
      cases lock : state.shared.idLock with
      | true => exact allotting_of_result (result.trans (if_pos lock)) (unchanged _ rfl)
      | false =>
          exact allotting_of_result (result.trans (if_neg (ne_true_of_eq_false lock)))
            (allotting.take point lock)
  | setMessage =>
      rw [point] at result
      exact allotting_of_result result (allotting.setMessage point)
  | enterPeer =>
      rw [point] at result
      exact allotting_of_result result (allotting.enterPeer point)
  | increment =>
      rw [point] at result
      have few := allotting.nodup.length_le_card
      rw [Fintype.card_fin] at few
      exact allotting_of_result result (allotting.increment (by omega) point)
  | unlock =>
      rw [point] at result
      exact allotting_of_result result (allotting.unlock point)
  | run =>
      rw [point] at result
      exact allotting_of_result result (allotting.run point)
  | returned =>
      rw [point] at result
      exact allotting_of_result result (unchanged _ rfl)

theorem allotting_run (bounded : count + 1 < 2 ^ 63) (peers : Fin count → CString)
    (schedule : List (Fin count)) :
    Allotting peers (lockOrder (idCalls.trace (startedServer peers) schedule))
      (idCalls.exec (startedServer peers) schedule) := by
  let relation (history : List (Fin count × Option IdEvent))
      (state : Threads (Fin count) IdServer IdCall) : Prop :=
    Allotting peers (lockOrder history) state
  have initial : relation [] (startedServer peers) := allotting_started peers
  apply Machine.trace_invariant initial
  intro history state mover allotting
  exact allotting_step bounded allotting mover

/-! ## Responses -/

/-- A response that was sent is the message that its call still has. -/
def Answered (history : List (Fin count × Option IdEvent))
    (state : Threads (Fin count) IdServer IdCall) : Prop :=
  ∀ call message, (call, some (IdEvent.replied message)) ∈ history →
    (state.locals call).point = .returned ∧ (state.locals call).message = message

theorem idStep_returned {shared : IdServer} {call : IdCall} (point : call.point = .returned) :
    idStep shared call = (shared, call, none) := by
  rw [idStep, point]

/-- Only the last step of a call sends its response. -/
theorem idStep_replied {shared : IdServer} {call : IdCall} {message : Option String}
    (replied : (idStep shared call).2.2 = some (.replied message)) :
    (idStep shared call).2.1.point = .returned ∧
      (idStep shared call).2.1.message = message := by
  rw [idStep] at replied ⊢
  cases point : call.point with
  | lock =>
      rw [point] at replied
      cases lock : shared.idLock with
      | true =>
          rw [lock] at replied
          cases replied
      | false =>
          rw [lock] at replied
          cases replied
  | run =>
      rw [point] at replied
      cases replied
      exact ⟨rfl, rfl⟩
  | setMessage | enterPeer | increment | unlock | returned =>
      rw [point] at replied
      cases replied

theorem answered_run (peers : Fin count → CString) (schedule : List (Fin count)) :
    Answered (idCalls.trace (startedServer peers) schedule)
      (idCalls.exec (startedServer peers) schedule) := by
  have initial : Answered [] (startedServer peers) := by
    intro call message member
    cases member
  apply Machine.trace_invariant initial
  intro history state mover answered call message member
  by_cases moved : call = mover
  · subst moved
    rw [idCalls, Program.locals_step_self]
    rcases List.mem_append.mp member with earlier | last
    · have done := answered call message earlier
      change (idStep _ _).2.1.point = _ ∧ (idStep _ _).2.1.message = _
      rw [idStep_returned done.1]
      exact done
    · rw [List.mem_singleton, Prod.mk.injEq] at last
      exact idStep_replied last.2.symm
  · rw [idCalls, Program.locals_step_of_ne _ _ moved]
    rcases List.mem_append.mp member with earlier | last
    · exact answered call message earlier
    · rw [List.mem_singleton, Prod.mk.injEq] at last
      exact absurd last.1 moved

/-! ## Every call can finish -/

/-- Steps that a call has before it. -/
def IdPoint.remaining : IdPoint → Nat
  | .lock => 6
  | .setMessage => 5
  | .enterPeer => 4
  | .increment => 3
  | .unlock => 2
  | .run => 1
  | .returned => 0

def remaining (state : Threads (Fin count) IdServer IdCall) : Nat :=
  ∑ call, (state.locals call).point.remaining

/-- A call that is not kept from the lock comes nearer to its end. -/
theorem idStep_remaining {shared : IdServer} {call : IdCall}
    (going : call.point ≠ .returned) (enters : call.point = .lock → shared.idLock = false) :
    (idStep shared call).2.1.point.remaining < call.point.remaining := by
  rw [idStep]
  cases point : call.point with
  | lock =>
      rw [enters point]
      exact Nat.lt_succ_self _
  | returned => exact absurd point going
  | setMessage | enterPeer | increment | unlock | run => exact Nat.lt_succ_self _

theorem remaining_step (mover : Fin count)
    (less : (idStep state.shared (state.locals mover)).2.1.point.remaining <
      (state.locals mover).point.remaining) :
    remaining (idCalls.step state mover).1 < remaining state := by
  refine Finset.sum_lt_sum ?_ ⟨mover, Finset.mem_univ mover, ?_⟩
  · intro call _
    by_cases moved : call = mover
    · rw [moved, idCalls, Program.locals_step_self]
      exact less.le
    · rw [idCalls, Program.locals_step_of_ne _ _ moved]
  · rw [idCalls, Program.locals_step_self]
    exact less

/-- As long as a call has not returned, some call can go on. -/
theorem Allotting.exists_mover (allotting : Allotting peers order state) {call : Fin count}
    (going : (state.locals call).point ≠ .returned) : ∃ mover,
      (state.locals mover).point ≠ .returned ∧
      ((state.locals mover).point = .lock → state.shared.idLock = false) := by
  cases lock : state.shared.idLock with
  | false => exact ⟨call, going, fun _ => rfl⟩
  | true =>
      rcases allotting.held lock with ⟨before, holder, _, only, _⟩
      have inside := (only holder).mpr rfl
      refine ⟨holder, ?_, ?_⟩
      · intro point
        rw [point] at inside
        exact inside
      · intro point
        rw [point] at inside
        exact inside.elim

/-- From every state that is reached some schedule lets every call return. -/
theorem exists_finish (bounded : count + 1 < 2 ^ 63) (peers : Fin count → CString)
    (schedule : List (Fin count)) : ∃ rest, ∀ call,
      ((idCalls.exec (startedServer peers) (schedule ++ rest)).locals call).point =
        .returned := by
  induction left : remaining (idCalls.exec (startedServer peers) schedule) using
    Nat.strong_induction_on generalizing schedule with
  | _ left_ ih =>
      by_cases finished : ∀ call,
          ((idCalls.exec (startedServer peers) schedule).locals call).point = .returned
      · refine ⟨[], ?_⟩
        rw [List.append_nil]
        exact finished
      · rcases not_forall.mp finished with ⟨call, going⟩
        rcases (allotting_run bounded peers schedule).exists_mover going with
          ⟨mover, goes, enters⟩
        have less := remaining_step mover (idStep_remaining goes enters)
        rw [← Machine.exec_concat, left] at less
        rcases ih _ less (schedule ++ [mover]) rfl with ⟨rest, all⟩
        refine ⟨mover :: rest, ?_⟩
        rw [List.append_assoc] at all
        exact all

/-! ## The ids of a run -/

/-- What a run shows: each call that took the lock has the id of its place, from one on, and
is noted under it when no call holds the lock.  A call that took the lock after another had
its response has a greater id. -/
structure AllotsInOrder (peers : Fin count → CString) (schedule : List (Fin count)) : Prop where
  once : (lockOrder (idCalls.trace (startedServer peers) schedule)).Nodup
  responses : ∀ call message,
    (call, some (.replied message)) ∈ idCalls.trace (startedServer peers) schedule →
      HasId (lockOrder (idCalls.trace (startedServer peers) schedule)) call message
  noted : (idCalls.exec (startedServer peers) schedule).shared.idLock = false →
    Noted peers (lockOrder (idCalls.trace (startedServer peers) schedule))
      (lockOrder (idCalls.trace (startedServer peers) schedule))
      (idCalls.exec (startedServer peers) schedule).shared
  realTime : ∀ before after earlier later first second, schedule = before ++ after →
    (earlier, some (.replied first)) ∈ idCalls.trace (startedServer peers) before →
    later ∉ lockOrder (idCalls.trace (startedServer peers) before) →
    (later, some (.replied second)) ∈ idCalls.trace (startedServer peers) schedule →
      ∃ less greater : Nat, less < greater ∧ first = some ((less : Int) + 1).repr ∧
        second = some ((greater : Int) + 1).repr
  finishes : ∃ rest, ∀ call,
    ((idCalls.exec (startedServer peers) (schedule ++ rest)).locals call).point = .returned

theorem responses_run (bounded : count + 1 < 2 ^ 63) (peers : Fin count → CString)
    (schedule : List (Fin count)) {call : Fin count} {message : Option String}
    (replied : (call, some (.replied message)) ∈
      idCalls.trace (startedServer peers) schedule) :
    HasId (lockOrder (idCalls.trace (startedServer peers) schedule)) call message := by
  rcases answered_run peers schedule call message replied with ⟨point, rfl⟩
  refine (allotting_run bounded peers schedule).messages call ?_
  rw [point]
  exact id

theorem lockOrder_append (first second : List (Fin count × Option IdEvent)) :
    lockOrder (first ++ second) = lockOrder first ++ lockOrder second := by
  rw [lockOrder, List.filter_append, List.map_append]
  rfl

/-- Whatever the order in which the steps of the calls are taken, the ids are handed out one
after another, each to one call, and every call can get its response. -/
theorem ids_in_order (bounded : count + 1 < 2 ^ 63) (peers : Fin count → CString)
    (schedule : List (Fin count)) : AllotsInOrder peers schedule := by
  have allotting := allotting_run bounded peers schedule
  refine ⟨allotting.nodup, fun call message => responses_run bounded peers schedule,
    fun free => (allotting.free free).2, ?_, exists_finish bounded peers schedule⟩
  intro before after earlier later first second split replied waits answered
  rcases responses_run bounded peers before replied with ⟨less, lessPlace, rfl⟩
  rcases responses_run bounded peers schedule answered with ⟨greater, greaterPlace, rfl⟩
  refine ⟨less, greater, ?_, rfl, rfl⟩
  rw [split, Machine.trace_append, lockOrder_append] at greaterPlace
  have inBounds := (List.getElem?_eq_some_iff.mp lessPlace).1
  by_cases early : greater < (lockOrder (idCalls.trace (startedServer peers) before)).length
  · rw [List.getElem?_append_left early] at greaterPlace
    exact absurd (List.mem_of_getElem? greaterPlace) waits
  · exact Nat.lt_of_lt_of_le inBounds (Nat.le_of_not_lt early)

/-- Three calls from peers of their own. -/
def threePeers (call : Fin 3) : CString :=
  if call.val = 0 then .ofString "10.0.0.1"
  else if call.val = 1 then .ofString "10.0.0.2" else .ofString "10.0.0.3"

/-- The second call takes the lock first, and the third begins when the second has its
response. -/
def overtakingSchedule : List (Fin 3) :=
  let first : Fin 3 := ⟨0, by decide⟩
  let second : Fin 3 := ⟨1, by decide⟩
  let third : Fin 3 := ⟨2, by decide⟩
  [second, first, second, second, second, second, first, second, third, first, first, first,
    third, first, third, third, third, third, first, third, third]

theorem ids_in_order_three : AllotsInOrder threePeers overtakingSchedule ∧
    (idCalls.exec (startedServer threePeers) overtakingSchedule).shared.idmap.entries =
      [(1, .ofString "10.0.0.2"), (2, .ofString "10.0.0.1"), (3, .ofString "10.0.0.3")] :=
  ⟨ids_in_order (by decide) threePeers overtakingSchedule, by decide +kernel⟩

end MultiMaster.IdIncrement
