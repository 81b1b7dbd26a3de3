import MultiMaster.NetIO.Routing
import MultiMaster.NetIO.Transport

/-!
# Read callbacks that send

The callback for a message runs inside the loop that receives messages and may send over
the same libevent handle: the answer leaves through one connection while another is read.
Receiving changes the input side of one record, sending appends to the output of a record
or adds a record, so that the two do not disturb each other.
-/

namespace MultiMaster.NetIO

open Foundation

variable {State : Type} {handle : LibeventHandle} {records : List BevInfor}
variable {position : Nat} {info : BevInfor}

namespace LibeventHandle

/-- What a handler does with received bytes and their size.  It may use the handle. -/
abbrev Handler (State : Type) :=
  LibeventHandle → State → Bytes → Int → Option (LibeventHandle × State × Bool)

/-- The loop of the read callback, when the handler may use the handle it receives
from. -/
def replyLoop (connectId : Int) (handler : Handler State) : ReadCallback State
  | 0, _, _ => none
  | fuel + 1, handle, state => do
      let (handle, length) ← handle.getReciveBufferLength connectId
      if 0 < length then
        let (handle, bufferStr, reciveSize) ← handle.reciveStrNoWait connectId []
        if reciveSize ≤ 0 then
          return (handle, state, false)
        else
          let (handle, state, accepted) ← handler handle state bufferStr reciveSize
          if accepted then replyLoop connectId handler fuel handle state
          else return (handle, state, false)
      else
        return (handle, state, true)

/-- The loop whose handler does not touch the handle. -/
theorem receiveLoop_eq_replyLoop (connectId : Int)
    (handler : State → Bytes → Int → Option (State × Bool)) (fuel : Nat)
    (handle : LibeventHandle) (state : State) :
    receiveLoop connectId handler fuel handle state =
      replyLoop connectId (fun handle state bufferStr reciveSize =>
        (handler state bufferStr reciveSize).map fun result => (handle, result)) fuel handle
          state := by
  induction fuel generalizing handle state with
  | zero => rfl
  | succ fuel ih =>
      rw [receiveLoop, replyLoop]
      cases handle.getReciveBufferLength connectId with
      | none => rfl
      | some counted =>
          simp only [Option.bind_eq_bind, Option.bind_some]
          split
          · cases counted.1.reciveStrNoWait connectId [] with
            | none => rfl
            | some received =>
                simp only [Option.bind_some]
                split
                · rfl
                · cases handler state received.2.1 received.2.2 with
                  | none => rfl
                  | some result =>
                      simp only [Option.bind_some, Option.map_some]
                      split
                      · exact ih _ _
                      · rfl
          · rfl

end LibeventHandle

/-! ## Receiving in a table of records -/

/-- No record is locked for reading. -/
def Unread (records : List BevInfor) : Prop := ∀ info ∈ records, info.readSingal = 0

namespace BevInfor

/-- The parts of a record that receiving leaves alone. -/
structure SameSending (info after : BevInfor) : Prop where
  address : after.address = info.address
  output : after.bev.output = info.bev.output
  isListen : after.isListen = info.isListen
  writeSingal : after.writeSingal = info.writeSingal

theorem SameSending.refl (info : BevInfor) : info.SameSending info := ⟨rfl, rfl, rfl, rfl⟩

theorem SameSending.trans {middle after : BevInfor} (first : info.SameSending middle)
    (second : middle.SameSending after) : info.SameSending after :=
  ⟨second.address.trans first.address, second.output.trans first.output,
    second.isListen.trans first.isListen, second.writeSingal.trans first.writeSingal⟩

theorem sameSending_withControlBlock (info : BevInfor) :
    info.SameSending (LibeventHandle.withControlBlock info) := by
  rw [LibeventHandle.withControlBlock]
  split
  · exact .refl info
  · exact ⟨rfl, rfl, rfl, rfl⟩

theorem sameSending_readBufferNoWait (info : BevInfor) (data : Bytes) :
    info.SameSending (info.readBufferNoWait data).1 := by
  rw [readBufferNoWait]
  split
  · dsimp only
    split
    · exact ⟨rfl, rfl, rfl, rfl⟩
    · exact ⟨rfl, rfl, rfl, rfl⟩
  · exact .refl info

end BevInfor

namespace Shows

theorem recordAt (showing : Shows handle records) (found : records[position]? = some info)
    (unread : Unread records) : handle.Ready position info :=
  ⟨showing.table, by rw [showing.lookup_eq, found], unread info (List.mem_of_getElem? found)⟩

/-- Putting a record back changes nothing. -/
theorem setBevInfor_same (showing : Shows handle records)
    (found : records[position]? = some info) :
    Shows (handle.setBevInfor position info) records := by
  rcases List.getElem?_eq_some_iff.mp found with ⟨inside, rfl⟩
  have same := showing.setBevInfor inside (showing.writable _ (List.getElem_mem inside))
  rw [List.set_getElem_self] at same
  exact same

/-- Receiving changes the record it receives from, and of that only the receiving side. -/
theorem reciveStrNoWait_frame (showing : Shows handle records) (unread : Unread records)
    (found : records[position]? = some info) (countable : info.Countable)
    {after : LibeventHandle} {data : Bytes} {returned : Int}
    (received : handle.reciveStrNoWait position [] = some (after, data, returned)) :
    ∃ reached, Shows after (records.set position reached) ∧ info.SameSending reached := by
  have ready := showing.recordAt found unread
  have inside := (List.getElem?_eq_some_iff.mp found).1
  have free := showing.writable _ (List.mem_of_getElem? found)
  have counted := LibeventHandle.getReciveBufferLength_ready ready
  have still : (handle.setBevInfor position info).Ready position info :=
    LibeventHandle.ready_setBevInfor showing.table ready.read
  have middle := showing.setBevInfor inside free
  by_cases few : toSize (toInt info.bev.input.length) ≤ controlBlockSize
  · rw [LibeventHandle.reciveStrNoWait_few ready counted still few] at received
    cases received
    exact ⟨info, middle, .refl info⟩
  · have more : (controlBlockSize : Int) < toInt info.bev.input.length := by
      rw [toInt_of_lt countable.input] at few ⊢
      rw [toSize_natCast countable.input] at few
      exact_mod_cast Nat.not_le.mp few
    rw [LibeventHandle.reciveStrNoWait_more ready counted still few
      (LibeventHandle.readBufferControlBlockNoWait_eq ready.read more)] at received
    rcases Option.map_eq_some_iff.mp received with ⟨room, _, result⟩
    have kept := (BevInfor.sameSending_withControlBlock info).trans
      (BevInfor.sameSending_readBufferNoWait _ room)
    refine ⟨_, ?_, kept⟩
    rw [← (Prod.mk.inj result).1]
    have twice := middle.setBevInfor (by rw [List.length_set]; exact inside)
      (kept.writeSingal.trans free)
    rw [List.set_set] at twice
    exact twice

/-- What one attempt to receive from a record does: it waits for more input, or takes the
first payload that is due. -/
inductive Received (records : List BevInfor) (position : Nat) (info : BevInfor)
    (rest : List Bytes) (pending : Bytes) : LibeventHandle × Bytes × Int → Prop where
  | waiting {after : LibeventHandle} {data : Bytes} {reached : BevInfor}
      (showing : Shows after (records.set position reached))
      (kept : info.SameSending reached) (countable : reached.Countable)
      (read : reached.readSingal = 0)
      (aligned : Receiver.Aligned controlFormat reached.view rest pending)
      (low : reached.view.LowMatches) (starved : reached.view.Starved controlFormat) :
      Received records position info rest pending (after, data, 0)
  | taken {after : LibeventHandle} {payload remaining : Bytes} {later : List Bytes}
      {reached : BevInfor} (showing : Shows after (records.set position reached))
      (kept : info.SameSending reached) (countable : reached.Countable)
      (read : reached.readSingal = 0) (first : rest = payload :: later)
      (consumed : pending = controlFormat.frame payload ++ remaining)
      (shorter : remaining.length < info.bev.input.length)
      (view : reached.view = ⟨remaining, 0, none⟩) :
      Received records position info rest pending (after, payload, payload.length)

theorem reciveStrNoWait_received (showing : Shows handle records) (unread : Unread records)
    (found : records[position]? = some info) (countable : info.Countable)
    {rest : List Bytes} {pending : Bytes}
    (aligned : Receiver.Aligned controlFormat info.view rest pending)
    (low : info.view.LowMatches) (within : pending <+: controlFormat.frames rest)
    (sized : Receiver.Sized controlFormat rest) (available : info.bev.input ≠ []) :
    ∃ result, handle.reciveStrNoWait position [] = some result ∧
      Received records position info rest pending result := by
  rcases Receiver.poll_outcome aligned low within sized available with
    ⟨⟨next, handed⟩, polled, outcome⟩
  rcases LibeventHandle.reciveStrNoWait_of_ready (showing.recordAt found unread) countable polled
    with ⟨after, reached, data, returned, received, ready, view, counted, returns⟩
  rcases showing.reciveStrNoWait_frame unread found countable received with
    ⟨same, shown, kept⟩
  have inside := (List.getElem?_eq_some_iff.mp found).1
  have present := ready.found
  rw [shown.lookup_eq, List.getElem?_set_self inside] at present
  cases present
  refine ⟨_, received, ?_⟩
  cases outcome with
  | starved nextAligned nextLow starved short =>
      cases returns
      subst view
      exact .waiting shown kept counted ready.read nextAligned nextLow starved
  | handed first consumed shorter =>
      rcases returns with ⟨rfl, rfl⟩
      exact .taken shown kept counted ready.read first consumed shorter view

end Shows

/-! ## Sending from a table of records -/

/-- What sending a payload to an address does: no connection can be set up, the first
connection to the address takes the frame, or a new one does.  The position is that of the
record that takes it. -/
inductive DispatchEffect (records : List BevInfor) (ip : CString) (port : Int) (payload : Bytes)
    (connected : Bool) : List BevInfor → Option Nat → Prop where
  | lost (missing : firstOf (ip, port) records = none) (unconnected : connected = false) :
      DispatchEffect records ip port payload connected records none
  | known {position : Nat} {info : BevInfor}
      (first : firstOf (ip, port) records = some position)
      (found : records[position]? = some info) :
      DispatchEffect records ip port payload connected
        (records.set position (info.appendOutput (controlFormat.frame payload))) (some position)
  | opened (fresh : Int × Bool) (missing : firstOf (ip, port) records = none) :
      DispatchEffect records ip port payload connected
        (records ++ [(freshRecord ip port false fresh).appendOutput (controlFormat.frame payload)])
        (some records.length)

theorem dispatch_effect (records : List BevInfor) (ip : CString) (port : Int) (payload : Payload)
    (connected : Bool) (fresh : Int × Bool) :
    ∃ channel, DispatchEffect records ip port payload.bytes connected
      (recordTable.step records (.send ip port payload connected fresh)).1 channel := by
  simp only [recordTable, requestRecord]
  cases first : firstOf (ip, port) records with
  | some position =>
      have inside := (List.findIdx?_eq_some_iff_getElem.mp first).1
      have found := List.getElem?_eq_getElem inside
      refine ⟨some position, ?_⟩
      simp only [writeRecord, if_neg (Int.not_lt.mpr (Int.natCast_nonneg position)),
        Int.toNat_natCast, List.modify_eq_set_getElem?, found]
      exact .known first found
  | none =>
      cases connected with
      | false => exact ⟨none, .lost first rfl⟩
      | true =>
          have written : writeRecord (records ++ [freshRecord ip port false fresh])
              records.length payload.bytes = records ++
                [(freshRecord ip port false fresh).appendOutput
                  (controlFormat.frame payload.bytes)] := by
            rw [writeRecord, if_neg (Int.not_lt.mpr (Int.natCast_nonneg records.length)),
              Int.toNat_natCast, List.modify_eq_set_getElem?, List.getElem?_concat_length]
            simp
          refine ⟨some records.length, ?_⟩
          simp only [if_true, written]
          exact .opened fresh first

/-- A staged message is written to the connection of its address. -/
theorem EventMessageHandle.sendMessage_staged {Callback Arg : Type}
    {messages after : EventMessageHandle Callback Arg} {mess encoded : EventMessage}
    {ip : CString} {port : Int} {fields : MessageFields}
    (staged : messages.stageMessage mess = some (after, encoded, some (ip, port)))
    (content : encoded.content = fields.wire) (small : fields.encodedSize < 2 ^ 31)
    (showing : Shows handle records) (connected : Bool) (fresh : Int × Bool) :
    ∃ net later channel,
      messages.sendMessage handle mess ⟨connected, fresh, true, true⟩ =
        some (after, net, encoded, 1) ∧
      Shows net later ∧ DispatchEffect records ip port fields.encode connected later channel := by
  let payload : Payload := ⟨fields.encode, by rw [MessageFields.length_encode]; exact small⟩
  rcases recordTable_follows.follows handle records (.send ip port payload connected fresh)
    showing trivial with ⟨_, shown, _⟩
  rcases dispatch_effect records ip port payload connected fresh with ⟨channel, effect⟩
  rcases Prod.mk.inj content with ⟨bytes, size⟩
  have counted : toInt encoded.bufferSize.toNat = (fields.encode.length : Int) := by
    rw [size, EventMessage.toNat_ofNat_of_lt (by omega), toInt_of_lt small,
      MessageFields.length_encode]
  rcases showing.getConnectionId_eq ip port connected fresh with ⟨opened, requested, between⟩
  rcases between.send_eq payload (requestRecord_valid records ip port connected fresh) with
    ⟨net, sent, written, written'⟩
  refine ⟨net, _, channel, ?_, written', effect⟩
  rw [sendMessage, staged]
  simp only [Option.bind_eq_bind, Option.bind_some, requested, bytes, counted]
  rw [written]
  rfl

end MultiMaster.NetIO
