import MultiMaster.NetIO.Connections
import MultiMaster.NetIO.Reassembly

/-!
# What `sendMessage` reports

`sendMessage` returns 1 as soon as the message has passed its checks.  Whether the
message is then written depends on the connection and on libevent: a new connection may
not be set up, and either of the two writes may be refused.  Below, the bytes that
really go out are followed for every state of the handle and every outcome.
-/

namespace MultiMaster.NetIO

open Foundation

/-! ## Writing -/

namespace BevInfor

variable {info : BevInfor}

/-- The bytes that get into the output: all, the control block alone, or none. -/
def writtenBytes (data : Bytes) (dataSize : Int) (blockAccepted dataAccepted : Bool) : Bytes :=
  if blockAccepted then
    leBytes controlBlockSize (toSize dataSize) ++
      (if dataAccepted then data.take (toSize dataSize) else [])
  else []

theorem writeBufferOnce_free (free : info.writeSingal ≤ 0) (data : Bytes) (dataSize : Int)
    (blockAccepted dataAccepted : Bool) :
    info.writeBufferOnce data dataSize blockAccepted dataAccepted =
      some (info.appendOutput (writtenBytes data dataSize blockAccepted dataAccepted),
        blockAccepted && dataAccepted) := by
  have locked : rwWLock info.writeSingal = some (info.writeSingal - 1) := if_neg (by omega)
  have unlocked : rwWUnlock (info.writeSingal - 1) = info.writeSingal := by
    rw [rwWUnlock, if_pos (by omega)]
    omega
  rw [writeBufferOnce, locked]
  cases blockAccepted with
  | false => simp [Bufferevent.write, unlocked, writtenBytes, appendOutput]
  | true =>
      cases dataAccepted with
      | false => simp [Bufferevent.write, unlocked, writtenBytes, appendOutput]
      | true => simp [Bufferevent.write, unlocked, writtenBytes, appendOutput]

theorem writeBufferOnce_held (held : 0 < info.writeSingal) (data : Bytes) (dataSize : Int)
    (blockAccepted dataAccepted : Bool) :
    info.writeBufferOnce data dataSize blockAccepted dataAccepted = none := by
  rw [writeBufferOnce, rwWLock, if_pos held]
  rfl

end BevInfor

/-- A size block that says how long the buffer is, and the buffer. -/
def CompleteFrame (buffer bytes : Bytes) : Prop :=
  ∃ block : Bytes, block.length = controlBlockSize ∧ leValue block = buffer.length ∧
    bytes = block ++ buffer

theorem CompleteFrame.ne_nil {buffer bytes : Bytes} (complete : CompleteFrame buffer bytes) :
    bytes ≠ [] := by
  rcases complete with ⟨block, width, _, rfl⟩
  intro empty
  rw [(List.append_eq_nil_iff.mp empty).1] at width
  cases width

theorem bmod_of_high {value modulus : Nat} (small : value < modulus)
    (high : modulus ≤ 2 * value) : Int.bmod value modulus = (value : Int) - modulus := by
  rw [← Int.sub_bmod_right]
  apply Int.bmod_eq_of_le
  · omega
  · omega

/-- An `unsigned` size as an `int`. -/
theorem toInt_of_unsigned {size : Nat} (small : size < 2 ^ 32) :
    toInt size = size ∨ toInt size = size - 2 ^ 32 := by
  by_cases low : size < 2 ^ 31
  · exact .inl (toInt_of_lt low)
  · exact .inr (bmod_of_high small (by omega))

/-- The size that `bufferevent_write` is given for an `unsigned` size, and its low word. -/
theorem toSize_toInt {size : Nat} (small : size < 2 ^ 32) :
    toSize (toInt size) % 2 ^ 32 = size ∧ size ≤ toSize (toInt size) := by
  rcases toInt_of_unsigned small with same | same
  · rw [same, toSize]
    omega
  · rw [same, toSize]
    omega

/-- A buffer is completely written when both writes are accepted, and its size is one that
the size block can say. -/
theorem completeFrame_written {buffer : Bytes} (nonempty : buffer ≠ [])
    (blockAccepted dataAccepted : Bool) :
    CompleteFrame buffer (BevInfor.writtenBytes buffer
        (toInt (UInt32.ofNat buffer.length).toNat) blockAccepted dataAccepted) ↔
      blockAccepted = true ∧ dataAccepted = true ∧ buffer.length < 2 ^ 32 := by
  have positive := List.length_pos_iff.mpr nonempty
  constructor
  · rintro ⟨block, width, size, same⟩
    have small : buffer.length < 2 ^ 32 := by
      have bound := leValue_lt block
      rw [width, size] at bound
      exact bound
    have lengths := congrArg List.length same
    rw [List.length_append, width] at lengths
    cases blockAccepted with
    | false =>
        simp only [BevInfor.writtenBytes, Bool.false_eq_true, if_false, List.length_nil] at lengths
        omega
    | true =>
        cases dataAccepted with
        | false =>
            simp [BevInfor.writtenBytes] at lengths
            exact absurd lengths nonempty
        | true => exact ⟨rfl, rfl, small⟩
  · rintro ⟨rfl, rfl, small⟩
    have said := toSize_toInt small
    rw [EventMessage.toNat_ofNat_of_lt small, BevInfor.writtenBytes, if_pos rfl, if_pos rfl]
    generalize toSize (toInt buffer.length) = size at said
    refine ⟨leBytes controlBlockSize size, length_leBytes _ _, ?_, ?_⟩
    · rw [leValue_leBytes]
      exact said.1
    · rw [List.take_of_length_le said.2]

/-! ## Sending to an address -/

namespace LibeventHandle

variable {handle after : LibeventHandle} {ip : CString} {port connectId : Int}
variable {info : BevInfor} {buffer : Bytes} {outcome : NetOutcome}

/-- The output of a connection to an address, as far as the id is one. -/
def outputTo (handle : LibeventHandle) (ip : CString) (port connectId : Int) : Bytes :=
  match handle.bevMap.lookup connectId with
  | none => []
  | some info => if info.hasAddress ip port then info.bev.output else []

/-- A connection to the address has got a complete frame of the buffer. -/
def Gains (handle after : LibeventHandle) (ip : CString) (port : Int) (buffer : Bytes) : Prop :=
  ∃ connectId bytes, CompleteFrame buffer bytes ∧
    after.outputTo ip port connectId = handle.outputTo ip port connectId ++ bytes

/-- The first connection to an address. -/
def firstTo (handle : LibeventHandle) (ip : CString) (port : Int) : Option (Int × BevInfor) :=
  handle.bevMap.entries.find? fun entry => entry.2.hasAddress ip port

/-- There is a connection to the address or one can be set up, its locks can be taken, and
libevent accepts both writes. -/
def Accepts (handle : LibeventHandle) (ip : CString) (port : Int) (outcome : NetOutcome) : Prop :=
  outcome.blockAccepted = true ∧ outcome.dataAccepted = true ∧
    match handle.firstTo ip port with
    | some entry => 0 ≤ entry.1 ∧ 0 ≤ handle.bevMapRwLockSingal ∧ entry.2.writeSingal ≤ 0
    | none => outcome.connected = true ∧ 0 ≤ handle.maxBevId ∧ handle.bevMapRwLockSingal = 0

/-- What `sendMessage` does with an encoded message. -/
def sendTo (handle : LibeventHandle) (ip : CString) (port : Int) (buffer : Bytes) (size : Int)
    (outcome : NetOutcome) : Option LibeventHandle := do
  let requested ← handle.getConnectionId ip port true outcome.connected outcome.fresh
  let sent ← requested.1.send requested.2 buffer size outcome.blockAccepted outcome.dataAccepted
  return sent.1

/-! ### The lock of the table -/

theorem rwRUnlock_succ {singal : Int} (free : 0 ≤ singal) : rwRUnlock (singal + 1) = singal := by
  rw [rwRUnlock, if_pos (by omega)]
  omega

theorem rwRLock_free {singal : Int} (free : 0 ≤ singal) :
    rwRLock singal = some (singal + 1) := if_neg (by omega)

theorem getConnectionId_held (held : handle.bevMapRwLockSingal < 0) (tryConnect connected : Bool)
    (fresh : Int × Bool) : handle.getConnectionId ip port tryConnect connected fresh = none := by
  rw [getConnectionId, rwRLock, if_pos held]
  rfl

/-- A connection is found without a change, or one is asked for. -/
theorem getConnectionId_free (free : 0 ≤ handle.bevMapRwLockSingal) (tryConnect connected : Bool)
    (fresh : Int × Bool) :
    handle.getConnectionId ip port tryConnect connected fresh =
      match handle.firstTo ip port with
      | some entry => some (handle, entry.1)
      | none =>
          if tryConnect then handle.addBuffereventConnect ip port connected fresh
          else some (handle, -1) := by
  rw [getConnectionId, rwRLock_free free]
  simp only [Option.bind_eq_bind, Option.bind_some, rwRUnlock_succ free]
  rfl

theorem send_negative (negative : connectId < 0) (size : Int) (blockAccepted dataAccepted : Bool) :
    handle.send connectId buffer size blockAccepted dataAccepted = some (handle, false) :=
  if_pos negative

/-- A send to a connection writes to its output and gives the locks back. -/
theorem send_present (valid : 0 ≤ connectId) (free : 0 ≤ handle.bevMapRwLockSingal)
    (found : handle.bevMap.lookup connectId = some info) (writable : info.writeSingal ≤ 0)
    (size : Int) (blockAccepted dataAccepted : Bool) :
    handle.send connectId buffer size blockAccepted dataAccepted =
      some (handle.setBevInfor connectId
        (info.appendOutput (BevInfor.writtenBytes buffer size blockAccepted dataAccepted)),
        true) := by
  rw [send, if_neg (by omega), rwRLock_free free]
  simp only [Option.bind_eq_bind, Option.bind_some, found,
    BevInfor.writeBufferOnce_free writable, rwRUnlock_succ free]
  rfl

theorem send_unwritable (valid : 0 ≤ connectId)
    (found : handle.bevMap.lookup connectId = some info) (held : 0 < info.writeSingal)
    (size : Int) (blockAccepted dataAccepted : Bool) :
    handle.send connectId buffer size blockAccepted dataAccepted = none := by
  rw [send, if_neg (by omega)]
  cases locked : rwRLock handle.bevMapRwLockSingal with
  | none => rfl
  | some singal =>
      simp only [Option.bind_eq_bind, Option.bind_some, found,
        BevInfor.writeBufferOnce_held held]
      rfl

/-! ### Outputs of connections to the address -/

theorem outputTo_of_lookup (found : handle.bevMap.lookup connectId = some info)
    (addressed : info.hasAddress ip port = true) :
    handle.outputTo ip port connectId = info.bev.output := by
  simp [outputTo, found, addressed]

theorem outputTo_setBevInfor_ne {other : Int} (different : other ≠ connectId) :
    (handle.setBevInfor connectId info).outputTo ip port other =
      handle.outputTo ip port other := by
  simp only [outputTo, setBevInfor, OrderedMap.lookup_insert_ne different]

/-- The first connection is one to the address. -/
theorem firstTo_eq_some {entry : Int × BevInfor} (first : handle.firstTo ip port = some entry) :
    handle.bevMap.lookup entry.1 = some entry.2 ∧ entry.2.hasAddress ip port = true :=
  ⟨OrderedMap.lookup_eq_some_iff.mpr (List.mem_of_find?_eq_some first),
    List.find?_some (p := fun entry : Int × BevInfor => entry.2.hasAddress ip port) first⟩

/-- Without a connection to the address there is no output to it. -/
theorem outputTo_of_firstTo_none (none : handle.firstTo ip port = none) (connectId : Int) :
    handle.outputTo ip port connectId = [] := by
  rw [outputTo]
  cases found : handle.bevMap.lookup connectId with
  | none => rfl
  | some info =>
      have member := OrderedMap.lookup_eq_some_iff.mp found
      have other := List.find?_eq_none.mp none _ member
      exact if_neg other

/-- What one connection gets decides whether there is one that gets the frame. -/
theorem gains_iff {bytes : Bytes}
    (written : after.outputTo ip port connectId = handle.outputTo ip port connectId ++ bytes)
    (others : ∀ other, other ≠ connectId →
      after.outputTo ip port other = handle.outputTo ip port other) :
    handle.Gains after ip port buffer ↔ CompleteFrame buffer bytes := by
  constructor
  · rintro ⟨id, gained, complete, output⟩
    by_cases same : id = connectId
    · rw [same, written] at output
      rw [List.append_cancel_left output]
      exact complete
    · rw [others id same, List.self_eq_append_right] at output
      exact absurd output complete.ne_nil
  · exact fun complete => ⟨connectId, bytes, complete, written⟩

theorem not_gains_of_same (same : ∀ id, after.outputTo ip port id = handle.outputTo ip port id) :
    ¬handle.Gains after ip port buffer := by
  rintro ⟨id, gained, complete, output⟩
  rw [same id, List.self_eq_append_right] at output
  exact complete.ne_nil output

/-- A write to a connection of the address. -/
theorem gains_write_iff (nonempty : buffer ≠ [])
    (found : handle.bevMap.lookup connectId = some info)
    (addressed : info.hasAddress ip port = true) (blockAccepted dataAccepted : Bool) :
    handle.Gains (handle.setBevInfor connectId (info.appendOutput
        (BevInfor.writtenBytes buffer (toInt (UInt32.ofNat buffer.length).toNat) blockAccepted
          dataAccepted))) ip port buffer ↔
      blockAccepted = true ∧ dataAccepted = true ∧ buffer.length < 2 ^ 32 := by
  have written : ∀ bytes, (handle.setBevInfor connectId (info.appendOutput bytes)).outputTo ip port
      connectId = handle.outputTo ip port connectId ++ bytes := by
    intro bytes
    have inserted : (handle.setBevInfor connectId (info.appendOutput bytes)).bevMap.lookup
        connectId = some (info.appendOutput bytes) := OrderedMap.lookup_insert
    rw [outputTo_of_lookup found addressed]
    exact outputTo_of_lookup inserted addressed
  rw [gains_iff (written _) fun other different => outputTo_setBevInfor_ne different]
  exact completeFrame_written nonempty blockAccepted dataAccepted

/-- The handle with a new connection to the address. -/
def withConnection (handle : LibeventHandle) (ip : CString) (port : Int) (fresh : Int × Bool) :
    LibeventHandle :=
  { handle with
    maxBevId := handle.maxBevId + 1
    bevMap := handle.bevMap.insert handle.maxBevId (freshRecord ip port false fresh) }

theorem addBuffereventConnect_free (free : handle.bevMapRwLockSingal = 0) (fresh : Int × Bool) :
    handle.addBuffereventConnect ip port true fresh =
      some (handle.withConnection ip port fresh, handle.maxBevId) := by
  rcases handle with ⟨maxBevId, singal, bevMap, listenSingal, listenIdVector⟩
  cases free
  rfl

theorem addBuffereventConnect_held (held : 0 < handle.bevMapRwLockSingal) (fresh : Int × Bool) :
    handle.addBuffereventConnect ip port true fresh = none := by
  rw [addBuffereventConnect, if_pos rfl, rwWLock, if_pos held]
  rfl

/-- A new connection has no output yet. -/
theorem outputTo_withConnection (none : handle.firstTo ip port = none) (fresh : Int × Bool)
    (connectId : Int) : (handle.withConnection ip port fresh).outputTo ip port connectId =
      handle.outputTo ip port connectId := by
  by_cases same : connectId = handle.maxBevId
  · have inserted : (handle.withConnection ip port fresh).bevMap.lookup connectId =
        some (freshRecord ip port false fresh) := by
      rw [same]
      exact OrderedMap.lookup_insert
    rw [outputTo_of_firstTo_none none, outputTo, inserted]
    exact ite_self []
  · simp only [outputTo, withConnection, OrderedMap.lookup_insert_ne same]

theorem gains_congr {other : LibeventHandle}
    (same : ∀ id, other.outputTo ip port id = handle.outputTo ip port id) :
    other.Gains after ip port buffer ↔ handle.Gains after ip port buffer := by
  simp only [Gains, same]

/-- A connection of the address gets the frame exactly when its locks can be taken, both
writes are accepted, and the size can be said. -/
theorem send_gains_iff (nonempty : buffer ≠ []) (free : 0 ≤ handle.bevMapRwLockSingal)
    (found : handle.bevMap.lookup connectId = some info)
    (addressed : info.hasAddress ip port = true) (blockAccepted dataAccepted : Bool) :
    (∃ sent, handle.send connectId buffer (toInt (UInt32.ofNat buffer.length).toNat)
        blockAccepted dataAccepted = some sent ∧ handle.Gains sent.1 ip port buffer) ↔
      (0 ≤ connectId ∧ info.writeSingal ≤ 0) ∧
        blockAccepted = true ∧ dataAccepted = true ∧ buffer.length < 2 ^ 32 := by
  by_cases valid : 0 ≤ connectId
  · by_cases writable : info.writeSingal ≤ 0
    · rw [send_present valid free found writable]
      have gains := gains_write_iff nonempty found addressed blockAccepted dataAccepted
      constructor
      · rintro ⟨sent, same, gained⟩
        cases same
        exact ⟨⟨valid, writable⟩, gains.mp gained⟩
      · exact fun accepted => ⟨_, rfl, gains.mpr accepted.2⟩
    · rw [send_unwritable valid found (by omega)]
      constructor
      · rintro ⟨sent, failed, _⟩
        cases failed
      · exact fun accepted => absurd accepted.1.2 writable
  · rw [send_negative (by omega)]
    constructor
    · rintro ⟨sent, same, gained⟩
      cases same
      exact absurd gained (not_gains_of_same fun _ => rfl)
    · exact fun accepted => absurd accepted.1.1 valid

/-- The two calls into libevent. -/
theorem exists_sendTo_iff {size : Int} {result : LibeventHandle → Prop} :
    (∃ after, handle.sendTo ip port buffer size outcome = some after ∧ result after) ↔
      ∃ requested, handle.getConnectionId ip port true outcome.connected outcome.fresh =
          some requested ∧
        ∃ sent, requested.1.send requested.2 buffer size outcome.blockAccepted
          outcome.dataAccepted = some sent ∧ result sent.1 := by
  simp only [sendTo, Option.bind_eq_bind, Option.bind_eq_some_iff, Option.pure_def,
    Option.some.injEq]
  constructor
  · rintro ⟨after, ⟨requested, asked, sent, writing, rfl⟩, gained⟩
    exact ⟨requested, asked, sent, writing, gained⟩
  · rintro ⟨requested, asked, sent, writing, gained⟩
    exact ⟨sent.1, ⟨requested, asked, sent, writing, rfl⟩, gained⟩

/-- A new connection gets the frame exactly when it can be set up and the size can be said. -/
theorem exists_connect_gains_iff (nonempty : buffer ≠ []) (free : 0 ≤ handle.bevMapRwLockSingal)
    (first : handle.firstTo ip port = none) :
    (∃ requested, handle.addBuffereventConnect ip port outcome.connected outcome.fresh =
          some requested ∧
        ∃ sent, requested.1.send requested.2 buffer (toInt (UInt32.ofNat buffer.length).toNat)
          outcome.blockAccepted outcome.dataAccepted = some sent ∧
            handle.Gains sent.1 ip port buffer) ↔
      (outcome.connected = true ∧ 0 ≤ handle.maxBevId ∧ handle.bevMapRwLockSingal = 0) ∧
        outcome.blockAccepted = true ∧ outcome.dataAccepted = true ∧ buffer.length < 2 ^ 32 := by
  by_cases connected : outcome.connected = true
  · rw [connected]
    by_cases writable : handle.bevMapRwLockSingal = 0
    · rw [addBuffereventConnect_free writable]
      let opened := handle.withConnection ip port outcome.fresh
      have unlocked : 0 ≤ opened.bevMapRwLockSingal := free
      have inserted : opened.bevMap.lookup handle.maxBevId =
          some (freshRecord ip port false outcome.fresh) := OrderedMap.lookup_insert
      have addressed : (freshRecord ip port false outcome.fresh).hasAddress ip port = true :=
        decide_eq_true ⟨rfl, rfl⟩
      have gains := send_gains_iff nonempty unlocked inserted addressed outcome.blockAccepted
        outcome.dataAccepted
      simp only [opened, gains_congr (outputTo_withConnection first outcome.fresh)] at gains
      simp only [Option.some.injEq, exists_eq_left']
      rw [gains]
      simp only [freshRecord]
      tauto
    · rw [addBuffereventConnect_held (by omega)]
      simp [writable]
  · have refused : handle.addBuffereventConnect ip port outcome.connected outcome.fresh =
        some (handle, -1) := if_neg connected
    have same : ¬handle.Gains handle ip port buffer := not_gains_of_same fun _ => rfl
    rw [refused]
    simp only [Option.some.injEq, exists_eq_left', send_negative (by decide : (-1 : Int) < 0)]
    simp [connected, same]

/-- The frame of an encoded message gets into the output of a connection to the address
exactly when the calls into libevent succeed and the size can be said. -/
theorem sendTo_gains_iff (nonempty : buffer ≠ []) :
    (∃ after, handle.sendTo ip port buffer (toInt (UInt32.ofNat buffer.length).toNat) outcome =
        some after ∧ handle.Gains after ip port buffer) ↔
      handle.Accepts ip port outcome ∧ buffer.length < 2 ^ 32 := by
  rw [exists_sendTo_iff, Accepts]
  by_cases free : 0 ≤ handle.bevMapRwLockSingal
  · rw [getConnectionId_free free]
    cases first : handle.firstTo ip port with
    | some entry =>
        rcases firstTo_eq_some first with ⟨found, addressed⟩
        simp only [Option.some.injEq, exists_eq_left']
        rw [send_gains_iff nonempty free found addressed]
        tauto
    | none =>
        dsimp only
        rw [if_pos rfl]
        rw [exists_connect_gains_iff nonempty free first]
        tauto
  · rw [getConnectionId_held (by omega)]
    constructor
    · rintro ⟨requested, failed, _⟩
      cases failed
    · rintro ⟨⟨_, _, locks⟩, _⟩
      split at locks <;> omega

end LibeventHandle

/-! ## Sizes of encoded messages -/

namespace EventMessage

/-- The size counter of a partly built buffer, which wraps around. -/
structure Counted (buffer : Bytes × UInt32) : Prop where
  size : buffer.2 = UInt32.ofNat buffer.1.length
  room : cursorSize ≤ buffer.1.length

theorem Counted.inside {buffer : Bytes × UInt32} (counted : Counted buffer) :
    buffer.2.toNat ≤ buffer.1.length := by
  rw [counted.size, UInt32.toNat_ofNat']
  exact Nat.mod_le _ _

theorem Counted.length_store {buffer : Bytes × UInt32} (counted : Counted buffer) {field : Nat}
    (inCursor : field < 6) (value : Nat) :
    (overwrite buffer.1 (4 * field) (leBytes 4 value)).length = buffer.1.length := by
  apply length_overwrite
  have room := counted.room
  rw [cursorSize] at room
  rw [length_leBytes]
  omega

theorem Counted.appendName {buffer : Bytes × UInt32} (counted : Counted buffer) {field : Nat}
    (inCursor : field < 6) (name : CString) :
    Counted (appendName field name buffer) ∧
      (appendName field name buffer).1.length = buffer.1.length + (name.length + 1) := by
  have inside := counted.inside
  have located := counted.length_store inCursor buffer.2.toNat
  have length : (EventMessage.appendName field name buffer).1.length =
      buffer.1.length + (name.length + 1) := by
    simp only [EventMessage.appendName]
    rw [length_overwrite, List.length_append, located, List.length_replicate]
    rw [List.length_append, located, List.length_replicate, CString.length]
    omega
  refine ⟨⟨?_, ?_⟩, length⟩
  · rw [length, UInt32.ofNat_add, ← counted.size]
    rfl
  · rw [length]
    have room := counted.room
    omega

theorem Counted.appendMessage {buffer : Bytes × UInt32} (counted : Counted buffer)
    {message : Bytes} {messageSize : UInt32} (sized : message.length = messageSize.toNat) :
    Counted (appendMessage message messageSize buffer) ∧
      (appendMessage message messageSize buffer).1.length =
        buffer.1.length + message.length := by
  have inside := counted.inside
  have located := counted.length_store (by decide : 4 < 6) buffer.2.toNat
  have stored : Counted (overwrite buffer.1 (4 * 4) (leBytes 4 buffer.2.toNat), buffer.2) :=
    ⟨by rw [located]; exact counted.size, by rw [located]; exact counted.room⟩
  have counts := stored.length_store (by decide : 5 < 6) messageSize.toNat
  have length : (EventMessage.appendMessage message messageSize buffer).1.length =
      buffer.1.length + message.length := by
    simp only [EventMessage.appendMessage]
    rw [length_overwrite, List.length_append, counts, located, List.length_replicate, sized]
    rw [List.length_append, counts, located, List.length_replicate]
    omega
  refine ⟨⟨?_, ?_⟩, length⟩
  · rw [length, UInt32.ofNat_add, ← counted.size, sized, UInt32.ofNat_toNat]
    rfl
  · rw [length]
    have room := counted.room
    omega

/-- The encoded message is as long as its parts together, and the size field holds what an
`unsigned` keeps of that. -/
theorem bufferOf_counted (fields : MessageFields) (sized : fields.message.length < 2 ^ 32) :
    Counted (bufferOf fields.groupName fields.messType fields.sendHostName
        fields.reciveHostName fields.message (UInt32.ofNat fields.message.length)) ∧
      (bufferOf fields.groupName fields.messType fields.sendHostName fields.reciveHostName
        fields.message (UInt32.ofNat fields.message.length)).1.length = fields.encodedSize := by
  have empty : Counted (List.replicate cursorSize 0, UInt32.ofNat cursorSize) :=
    ⟨by simp, by simp⟩
  have group := empty.appendName (by decide : 0 < 6) fields.groupName
  have type := group.1.appendName (by decide : 1 < 6) fields.messType
  have send := type.1.appendName (by decide : 2 < 6) fields.sendHostName
  have recive := send.1.appendName (by decide : 3 < 6) fields.reciveHostName
  have message := recive.1.appendMessage (toNat_ofNat_of_lt sized).symm
  refine ⟨message.1, ?_⟩
  rw [bufferOf, message.2, recive.2, send.2, type.2, group.2, MessageFields.encodedSize]
  simp only [List.length_replicate, cursorSize]
  omega

end EventMessage

/-! ## The result of `sendMessage` -/

namespace EventMessageHandle

variable {Callback Arg : Type} {handle : EventMessageHandle Callback Arg}
variable {eventHandle : LibeventHandle} {mess : EventMessage} {fields : MessageFields}

/-- The fields with the sender's name that `sendMessage` puts in. -/
def ownFields (handle : EventMessageHandle Callback Arg) (fields : MessageFields) :
    MessageFields :=
  { fields with sendHostName := handle.localHostName }

/-- The configured address of the receiver. -/
def address? (handle : EventMessageHandle Callback Arg) (fields : MessageFields) :
    Option Address := do
  let ip ← handle.getIp fields.reciveHostName
  let port ← handle.port? fields.reciveHostName fields.groupName
  return (ip, port)

/-- The call returns, and it returns 1 exactly when a connection to the receiver has got the
complete frame.  Every other result is negative and leaves an error number. -/
def ReportsTruly (handle : EventMessageHandle Callback Arg) (eventHandle : LibeventHandle)
    (fields : MessageFields) (mess : EventMessage) (outcome : NetOutcome) : Prop :=
  ∃ after eventAfter sent returned,
    handle.sendMessage eventHandle mess outcome = some (after, eventAfter, sent, returned) ∧
      (returned = 1 ↔ ∃ address ∈ handle.address? fields,
        eventHandle.Gains eventAfter address.1 address.2 sent.bufferStr) ∧
      (returned ≠ 1 → returned < 0 ∧ sent.errorNo ≠ .success)

/-- A message that fails a check leaves all connections alone and is reported. -/
theorem reportsTruly_of_unaddressed {after : EventMessageHandle Callback Arg}
    {failed : EventMessage} (staged : handle.stageMessage mess = some (after, failed, none))
    (error : failed.errorNo ≠ .success) (outcome : NetOutcome) :
    handle.ReportsTruly eventHandle fields mess outcome := by
  refine ⟨after, eventHandle, failed, -1, ?_, ?_, fun _ => ⟨by decide, error⟩⟩
  · rw [sendMessage, staged]
    rfl
  · constructor
    · intro returned
      cases returned
    · rintro ⟨address, _, gained⟩
      exact absurd gained (LibeventHandle.not_gains_of_same fun _ => rfl)

theorem checkMessType_error {checked : Bool × EventMessage}
    (done : handle.checkMessType mess = some checked) (refused : checked.1 = false) :
    checked.2.errorNo ≠ .success := by
  rcases Option.bind_eq_some_iff.mp done with ⟨groupName, _, looked⟩
  split at looked
  · cases looked
    exact EventMessageErrorNo.noConfusion
  · rcases Option.bind_eq_some_iff.mp looked with ⟨messType, _, typed⟩
    split at typed
    · cases typed
      exact EventMessageErrorNo.noConfusion
    · cases typed
      cases refused

/-- The port of an unknown host is zero. -/
theorem getPort_of_none {hostName groupName : CString}
    (unknown : handle.port? hostName groupName = none) :
    (handle.getPort hostName groupName).2 = 0 := by
  rw [port?] at unknown
  rw [getPort]
  cases group : handle.messGroupMap.lookup groupName with
  | none => rfl
  | some infor =>
      rw [group] at unknown
      have missing : infor.hostPortMap.lookup hostName = none := unknown
      simp only [missing]

/-- Staging a message whose receiver has no address. -/
theorem stageMessage_unreachable (configured : handle.Configured fields.messKey)
    (unreachable : ∀ address ∈ handle.address? fields, address.2 = 0) (mess : EventMessage) :
    ∃ after failed, handle.stageMessage (prepareOn mess fields) = some (after, failed, none) ∧
      failed.errorNo ≠ .success := by
  have failing : { prepareOn mess fields with
      errorNo := EventMessageErrorNo.invalidHost }.errorNo ≠ .success :=
    EventMessageErrorNo.noConfusion
  refine ⟨(handle.getPort fields.reciveHostName fields.groupName).1, _, ?_, failing⟩
  rw [stageMessage_configured configured]
  cases ip : handle.getIp fields.reciveHostName with
  | none => rfl
  | some ip' =>
      have zero : (handle.getPort fields.reciveHostName fields.groupName).2 = 0 := by
        cases port : handle.port? fields.reciveHostName fields.groupName with
        | none => exact getPort_of_none port
        | some number =>
            rw [getPort_of_port? port]
            apply unreachable (ip', number)
            simp [address?, ip, port]
      exact if_pos zero

/-- Staging a message of an unknown type or to a receiver without an address. -/
theorem stageMessage_unaddressed (unaddressed : ¬(handle.Configured fields.messKey ∧
    ∃ address ∈ handle.address? fields, address.2 ≠ 0)) (mess : EventMessage) :
    ∃ after failed, handle.stageMessage (prepareOn mess fields) = some (after, failed, none) ∧
      failed.errorNo ≠ .success := by
  by_cases configured : handle.Configured fields.messKey
  · apply stageMessage_unreachable configured
    intro address found
    by_contra valid
    exact unaddressed ⟨configured, address, found, valid⟩
  · have named : (prepareOn mess fields).key? = some fields.messKey := rfl
    rcases checkMessType_unconfigured named configured with ⟨error, refused⟩
    refine ⟨handle, { prepareOn mess fields with errorNo := error }, ?_,
      checkMessType_error refused rfl⟩
    have prepared : (prepareOn mess fields).willSend = true := rfl
    rw [stageMessage, if_pos prepared, refused]
    rfl

/-- Staging a message whose receiver has an address encodes it, whatever its size. -/
theorem stageMessage_addressed {address : Address}
    (configured : handle.Configured fields.messKey)
    (found : handle.address? fields = some address) (valid : address.2 ≠ 0)
    (sized : fields.message.length < 2 ^ 32) (mess : EventMessage) :
    ∃ encoded, handle.stageMessage (prepareOn mess fields) =
        some (handle, encoded, some address) ∧
      encoded.bufferStr.length = (handle.ownFields fields).encodedSize ∧
      encoded.bufferSize = UInt32.ofNat encoded.bufferStr.length := by
  rcases Option.bind_eq_some_iff.mp found with ⟨ip, ipFound, rest⟩
  rcases Option.bind_eq_some_iff.mp rest with ⟨port, portFound, same⟩
  cases same
  let prepared := (handle.ownFields fields).prepared mess
  let buffer := EventMessage.bufferOf fields.groupName fields.messType handle.localHostName
    fields.reciveHostName fields.message (UInt32.ofNat fields.message.length)
  have encoded : EventMessage.initBufferStr { prepareOn mess fields with
      sendHostName := .outside handle.localHostName } =
        some { prepared with bufferStr := buffer.1, bufferSize := buffer.2 } := by
    have size := EventMessage.toNat_ofNat_of_lt sized
    simp [EventMessage.initBufferStr, prepareOn, EventMessage.prepareSend, Ptr.outside?, Ptr.data,
      size, prepared, buffer, MessageFields.prepared, ownFields]
  have counted := EventMessage.bufferOf_counted (handle.ownFields fields) sized
  refine ⟨{ prepared with bufferStr := buffer.1, bufferSize := buffer.2 }, ?_, counted.2,
    counted.1.size⟩
  rw [stageMessage_configured configured, ipFound, getPort_of_port? portFound]
  dsimp only
  rw [if_neg valid, encoded, Option.map_some]

/-- A message with an address is sent to it and reported as sent. -/
theorem sendMessage_of_staged {mess encoded : EventMessage}
    {after : EventMessageHandle Callback Arg} {address : Address}
    (staged : handle.stageMessage mess = some (after, encoded, some address))
    (eventHandle : LibeventHandle) (outcome : NetOutcome) :
    handle.sendMessage eventHandle mess outcome =
      (eventHandle.sendTo address.1 address.2 encoded.bufferStr
        (toInt encoded.bufferSize.toNat) outcome).map
          fun eventAfter => (after, eventAfter, encoded, 1) := by
  rw [sendMessage, staged]
  simp only [Option.bind_eq_bind, Option.bind_some, LibeventHandle.sendTo, Option.pure_def]
  cases eventHandle.getConnectionId address.1 address.2 true outcome.connected
      outcome.fresh with
  | none => rfl
  | some requested =>
      simp only [Option.bind_some]
      cases requested.1.send requested.2 encoded.bufferStr (toInt encoded.bufferSize.toNat)
          outcome.blockAccepted outcome.dataAccepted with
      | none => rfl
      | some sent => rfl

/-- With an address the result is always 1, so it is right exactly when the frame gets out. -/
theorem reportsTruly_addressed_iff {address : Address}
    (configured : handle.Configured fields.messKey)
    (found : handle.address? fields = some address) (valid : address.2 ≠ 0)
    (sized : fields.message.length < 2 ^ 32) (mess : EventMessage) (outcome : NetOutcome) :
    handle.ReportsTruly eventHandle fields (prepareOn mess fields) outcome ↔
      eventHandle.Accepts address.1 address.2 outcome ∧
        (handle.ownFields fields).encodedSize < 2 ^ 32 := by
  rcases stageMessage_addressed configured found valid sized mess with
    ⟨encoded, staged, length, size⟩
  have nonempty : encoded.bufferStr ≠ [] := by
    rintro empty
    rw [empty, MessageFields.encodedSize, List.length_nil] at length
    omega
  have sent := sendMessage_of_staged staged eventHandle outcome
  rw [size] at sent
  rw [← length, ← LibeventHandle.sendTo_gains_iff nonempty, ReportsTruly, sent]
  constructor
  · rintro ⟨after, eventAfter, same, returned, called, reported, _⟩
    rcases Option.map_eq_some_iff.mp called with ⟨_, sending, tuple⟩
    cases tuple
    rcases reported.mp rfl with ⟨other, configuredAddress, gained⟩
    cases found.symm.trans configuredAddress
    exact ⟨_, sending, gained⟩
  · rintro ⟨eventAfter, sending, gained⟩
    refine ⟨handle, eventAfter, encoded, 1, ?_, ?_, fun other => absurd rfl other⟩
    · rw [sending]
      rfl
    · exact iff_of_true rfl ⟨address, found, gained⟩

/-- `sendMessage` reports truly exactly when the message fails a check, or else the
connection is there or can be set up, nothing holds the locks, libevent accepts both writes
and the size of the encoded message fits its type. -/
theorem sendMessage_reportsTruly_iff (handle : EventMessageHandle Callback Arg)
    (eventHandle : LibeventHandle) (fields : MessageFields)
    (sized : fields.message.length < 2 ^ 32) (mess : EventMessage) (sending : Bool)
    (outcome : NetOutcome) :
    handle.ReportsTruly eventHandle fields { prepareOn mess fields with willSend := sending }
        outcome ↔
      (sending = true → handle.Configured fields.messKey →
        ∀ address ∈ handle.address? fields, address.2 ≠ 0 →
          eventHandle.Accepts address.1 address.2 outcome ∧
            (handle.ownFields fields).encodedSize < 2 ^ 32) := by
  cases sending with
  | false =>
      have staged : handle.stageMessage { prepareOn mess fields with willSend := false } =
          some (handle, { prepareOn mess fields with
            willSend := false
            errorNo := .incompleteMessage }, none) := rfl
      exact iff_of_true (reportsTruly_of_unaddressed staged EventMessageErrorNo.noConfusion _)
        fun prepared => Bool.noConfusion prepared
  | true =>
      have sending : { prepareOn mess fields with willSend := true } = prepareOn mess fields := rfl
      rw [sending]
      by_cases addressed : handle.Configured fields.messKey ∧
          ∃ address ∈ handle.address? fields, address.2 ≠ 0
      · rcases addressed with ⟨configured, address, found, valid⟩
        rw [reportsTruly_addressed_iff configured found valid sized]
        constructor
        · rintro accepted _ _ other same _
          cases found.symm.trans same
          exact accepted
        · exact fun accepted => accepted rfl configured address found valid
      · rcases stageMessage_unaddressed addressed mess with ⟨after, failed, staged, error⟩
        apply iff_of_true (reportsTruly_of_unaddressed staged error _)
        intro _ configured address found valid
        exact absurd ⟨configured, address, found, valid⟩ addressed

theorem replyFields_address :
    (lockPeer (.ofString "server") (.ofString "host1")).address? replyFields =
      some (.ofString "127.0.0.1", 9000) := by
  decide

theorem replyFields_configured :
    (lockPeer (.ofString "server") (.ofString "host1")).Configured replyFields.messKey := by
  rw [Configured]
  decide

/-- A reply over a new connection, when everything succeeds. -/
theorem sendMessage_reportsTruly_newConnection :
    (lockPeer (.ofString "server") (.ofString "host1")).ReportsTruly .initHandle replyFields
      (prepareOn .clear replyFields) allAccepted := by
  have accepted : LibeventHandle.initHandle.Accepts (.ofString "127.0.0.1") 9000 allAccepted :=
    ⟨rfl, rfl, rfl, by decide, rfl⟩
  apply (sendMessage_reportsTruly_iff (lockPeer (.ofString "server") (.ofString "host1"))
    .initHandle replyFields (by decide) .clear true allAccepted).mpr
  intro _ _ address found _
  cases replyFields_address.symm.trans found
  exact ⟨accepted, by decide⟩

/-- A reply to a host that no connection can be set up to. -/
theorem sendMessage_reports_unconnected :
    ¬(lockPeer (.ofString "server") (.ofString "host1")).ReportsTruly .initHandle replyFields
      (prepareOn .clear replyFields) ⟨false, (0, false), true, true⟩ := by
  rw [reportsTruly_addressed_iff replyFields_configured replyFields_address (by decide)
    (by decide)]
  rintro ⟨⟨_, _, connected, _⟩, _⟩
  cases connected

end EventMessageHandle

end MultiMaster.NetIO
