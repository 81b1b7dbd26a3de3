import MultiMaster.NetIO.CutIndependence
import MultiMaster.NetIO.Mailbox

/-!
# Sending and receiving event messages

`sendMessage` encodes a message and writes it to a connection of the group's
libevent handle.  On the other side the read callback takes messages out of the
input of a connection and dispatches them.  The definitions follow
`event_mess_handle.cc`; the libevent handle of a group is passed beside the message
handle.
-/

namespace MultiMaster.NetIO

open Foundation

/-- How the calls into libevent turn out: whether a new connection can be set up, the
memory of its record, and which of the two writes are accepted. -/
structure NetOutcome where
  connected : Bool
  fresh : Int × Bool
  blockAccepted : Bool
  dataAccepted : Bool

namespace EventMessageHandle

variable {Callback Arg : Type}

def getIp (handle : EventMessageHandle Callback Arg) (hostName : CString) :
    Option CString :=
  handle.hostConfigMap.lookup hostName

/-- The port of a host in a group.  An unknown host is entered with port zero. -/
def getPort (handle : EventMessageHandle Callback Arg) (hostName groupName : CString) :
    EventMessageHandle Callback Arg × Int :=
  match handle.messGroupMap.lookup groupName with
  | none => (handle, 0)
  | some group =>
      match group.hostPortMap.lookup hostName with
      | some port => (handle, port)
      | none => ({ handle with
          messGroupMap := handle.messGroupMap.insert groupName
            { group with hostPortMap := group.hostPortMap.insert hostName 0 } }, 0)

/-- What `sendMessage` does before it turns to libevent: the encoded message and the
address it goes to, if the message can be sent. -/
def stageMessage (handle : EventMessageHandle Callback Arg) (mess : EventMessage) :
    Option (EventMessageHandle Callback Arg × EventMessage × Option (CString × Int)) :=
  if mess.willSend then do
    let checked ← handle.checkMessType mess
    if checked.1 then
      let reciveHostName ← mess.reciveHostName.cString mess.bufferStr
      let groupName ← mess.groupName.cString mess.bufferStr
      let ip := handle.getIp reciveHostName
      let (handle, port) := handle.getPort reciveHostName groupName
      match ip with
      | none => return (handle, { mess with errorNo := .invalidHost }, none)
      | some ip =>
          if port = 0 then
            return (handle, { mess with errorNo := .invalidHost }, none)
          else
            let mess ← { mess with
              sendHostName := .outside handle.localHostName }.initBufferStr
            return (handle, mess, some (ip, port))
    else
      return (handle, checked.2, none)
  else
    some (handle, { mess with errorNo := .incompleteMessage }, none)

/-- Encode a message and write it to a connection to the host it is addressed to.
The outcome of the write is not reported. -/
def sendMessage (handle : EventMessageHandle Callback Arg) (eventHandle : LibeventHandle)
    (mess : EventMessage) (outcome : NetOutcome) :
    Option (EventMessageHandle Callback Arg × LibeventHandle × EventMessage × Int) := do
  let (handle, mess, address) ← handle.stageMessage mess
  match address with
  | none => return (handle, eventHandle, mess, -1)
  | some (ip, port) =>
      let (eventHandle, connectId) ← eventHandle.getConnectionId ip port true
        outcome.connected outcome.fresh
      let (eventHandle, _) ← eventHandle.send connectId mess.bufferStr
        (toInt mess.bufferSize.toNat) outcome.blockAccepted outcome.dataAccepted
      return (handle, eventHandle, mess, 1)

/-- Decode received bytes and dispatch the message.  The second component lists the
messages handed to `try_run_callback`; `storage` is the memory of queued copies. -/
def handMessage (storage : Nat → EventMessage)
    (state : EventMessageHandle Callback Arg × List EventMessage) (bufferStr : Bytes)
    (reciveSize : Int) :
    Option ((EventMessageHandle Callback Arg × List EventMessage) × Bool) := do
  let mess := EventMessage.initMessagePtr { EventMessage.clear with
    bufferStr := bufferStr
    bufferSize := UInt32.ofNat reciveSize.toNat }
  let (handle, _, accepted) ← state.1.tryRunCallback (storage state.2.length) mess
  return ((handle, state.2 ++ [mess]), accepted)

/-- The read callback of a connection. -/
def readCallbackMessageFromLibevent (storage : Nat → EventMessage) (connectId : Int) :
    LibeventHandle.ReadCallback (EventMessageHandle Callback Arg × List EventMessage) :=
  LibeventHandle.receiveLoop connectId (handMessage storage)

/-! ## Before libevent -/

variable {handle after : EventMessageHandle Callback Arg} {mess : EventMessage}

/-- Prepare a message object, whatever it held before, to carry the fields. -/
def prepareOn (mess : EventMessage) (fields : MessageFields) : EventMessage :=
  mess.prepareSend (.outside fields.groupName) (.outside fields.messType)
    (.outside fields.reciveHostName) (.outside fields.message)
    (UInt32.ofNat fields.message.length)

/-- The port configured for a host in a group. -/
def port? (handle : EventMessageHandle Callback Arg) (hostName groupName : CString) :
    Option Int := do
  let group ← handle.messGroupMap.lookup groupName
  group.hostPortMap.lookup hostName

/-- A host has an address in a group. -/
structure Reaches (handle : EventMessageHandle Callback Arg) (groupName hostName : CString) :
    Prop where
  ip : (handle.getIp hostName).isSome
  port : ∃ port, handle.port? hostName groupName = some port ∧ port ≠ 0

theorem getPort_of_port? {hostName groupName : CString} {port : Int}
    (found : handle.port? hostName groupName = some port) :
    handle.getPort hostName groupName = (handle, port) := by
  rcases Option.bind_eq_some_iff.mp found with ⟨group, groupFound, portFound⟩
  rw [getPort, groupFound]
  simp only [portFound]

/-- A message of a configured type is staged for the address of its receiver. -/
theorem stageMessage_configured {fields : MessageFields}
    (configured : handle.Configured fields.messKey) (mess : EventMessage) :
    handle.stageMessage (prepareOn mess fields) =
      match handle.getIp fields.reciveHostName with
      | none => some ((handle.getPort fields.reciveHostName fields.groupName).1,
          { prepareOn mess fields with errorNo := .invalidHost }, none)
      | some ip =>
          if (handle.getPort fields.reciveHostName fields.groupName).2 = 0 then
            some ((handle.getPort fields.reciveHostName fields.groupName).1,
              { prepareOn mess fields with errorNo := .invalidHost }, none)
          else
            (EventMessage.initBufferStr { prepareOn mess fields with
              sendHostName := .outside
                (handle.getPort fields.reciveHostName fields.groupName).1.localHostName }).map
              fun encoded => ((handle.getPort fields.reciveHostName fields.groupName).1, encoded,
                some (ip, (handle.getPort fields.reciveHostName fields.groupName).2)) := by
  have named : (prepareOn mess fields).key? = some fields.messKey := rfl
  have hostRead : (prepareOn mess fields).reciveHostName.cString
      (prepareOn mess fields).bufferStr = some fields.reciveHostName := rfl
  have groupRead : (prepareOn mess fields).groupName.cString
      (prepareOn mess fields).bufferStr = some fields.groupName := rfl
  have sending : (prepareOn mess fields).willSend = true := rfl
  rw [stageMessage, if_pos sending, checkMessType_configured named configured]
  simp only [Option.bind_eq_bind, Option.bind_some, if_true, hostRead, groupRead,
    Option.map_eq_bind]
  cases handle.getIp fields.reciveHostName with
  | none => rfl
  | some ip => rfl

/-- Staging a message whose receiver has an address encodes its fields. -/
theorem stageMessage_prepareOn {fields : MessageFields} {ip : CString} {port : Int}
    (sender : fields.sendHostName = handle.localHostName)
    (configured : handle.Configured fields.messKey)
    (ipFound : handle.getIp fields.reciveHostName = some ip)
    (portFound : handle.getPort fields.reciveHostName fields.groupName = (handle, port))
    (valid : port ≠ 0) (fits : fields.encodedSize < 2 ^ 32) (mess : EventMessage) :
    ∃ encoded,
      handle.stageMessage (prepareOn mess fields) = some (handle, encoded, some (ip, port)) ∧
      encoded.content = fields.wire := by
  have encoded : EventMessage.initBufferStr { prepareOn mess fields with
      sendHostName := .outside handle.localHostName } =
        some { fields.prepared mess with
          bufferStr := fields.encode
          bufferSize := UInt32.ofNat fields.encodedSize } := by
    rw [← sender]
    exact EventMessage.initBufferStr_prepared fields fits mess
  refine ⟨{ fields.prepared mess with
    bufferStr := fields.encode
    bufferSize := UInt32.ofNat fields.encodedSize }, ?_, rfl⟩
  rw [stageMessage_configured configured, ipFound, portFound]
  dsimp only
  rw [if_neg valid, encoded, Option.map_some]

theorem Reaches.stageMessage_prepareOn {fields : MessageFields}
    (reaches : handle.Reaches fields.groupName fields.reciveHostName)
    (sender : fields.sendHostName = handle.localHostName)
    (configured : handle.Configured fields.messKey)
    (fits : fields.encodedSize < 2 ^ 32) (mess : EventMessage) :
    ∃ encoded address,
      handle.stageMessage (prepareOn mess fields) = some (handle, encoded, some address) ∧
      encoded.content = fields.wire := by
  rcases Option.isSome_iff_exists.mp reaches.ip with ⟨ip, ipFound⟩
  rcases reaches.port with ⟨port, portFound, valid⟩
  rcases EventMessageHandle.stageMessage_prepareOn sender configured ipFound
    (getPort_of_port? portFound) valid fits mess with ⟨encoded, staged, bytes⟩
  exact ⟨encoded, (ip, port), staged, bytes⟩

/-! ## What dispatching leaves alone -/

/-- The name of the host and all addresses are as before. -/
structure SameAddresses (handle after : EventMessageHandle Callback Arg) : Prop where
  localHostName : after.localHostName = handle.localHostName
  hostConfigMap : after.hostConfigMap = handle.hostConfigMap
  port : ∀ hostName groupName, after.port? hostName groupName = handle.port? hostName groupName

theorem SameAddresses.refl : SameAddresses handle handle := ⟨rfl, rfl, fun _ _ => rfl⟩

theorem SameAddresses.reaches {groupName hostName : CString} (same : SameAddresses handle after)
    (reaches : handle.Reaches groupName hostName) : after.Reaches groupName hostName := by
  constructor
  · rw [getIp, same.hostConfigMap]
    exact reaches.ip
  · rw [same.port]
    exact reaches.port

theorem setCallbackInfor_addresses (key : MessKey) (infor : CallbackInfor Callback Arg) :
    SameAddresses handle (handle.setCallbackInfor key infor) := by
  rw [setCallbackInfor]
  cases found : handle.messGroupMap.lookup key.1 with
  | none => exact .refl
  | some group =>
      refine ⟨rfl, rfl, ?_⟩
      intro hostName groupName
      by_cases same : groupName = key.1
      · subst same
        simp [port?, found]
      · simp [port?, AList.lookup_insert_ne same]

/-- A message with a registered callback is handed to it. -/
theorem tryRunCallback_registered {key : MessKey} {cb : Callback} {arg : Option Arg}
    (named : mess.key? = some key) (registered : handle.callback key = some (cb, arg))
    (storage : EventMessage) :
    handle.tryRunCallback storage mess = some (handle, some (cb, arg), true) := by
  cases found : handle.callbackInfor? key with
  | none => simp [callback, found] at registered
  | some infor =>
      rw [callback_of_found found] at registered
      rcases Option.map_eq_some_iff.mp registered with ⟨function, functionFound, pair⟩
      cases pair
      rw [tryRunCallback_of_found named found, functionFound]

/-- A message without a callback is queued and nothing else changes. -/
theorem tryRunCallback_unhandled {key : MessKey} (named : mess.key? = some key)
    (configured : handle.Configured key) (unhandled : handle.callback key = none)
    (storage : EventMessage) :
    ∃ after, handle.tryRunCallback storage mess = some (after, none, true) ∧
      ListChanged handle after key (handle.unprocessed key ++ [storage.copy mess]) ∧
      SameSetup handle after ∧ SameAddresses handle after := by
  rcases exists_found configured with ⟨infor, found⟩
  rw [callback_of_found found, Option.map_eq_none_iff] at unhandled
  rcases setCallbackInfor_list found (infor.unprocessedMessList ++ [storage.copy mess]) with
    ⟨changed, setup⟩
  refine ⟨_, ?_, unprocessed_of_found found ▸ changed, setup,
    setCallbackInfor_addresses _ _⟩
  rw [tryRunCallback_of_found named found, unhandled]

theorem eraseUnprocessed_addresses {key : MessKey} {position : Nat}
    (erased : handle.eraseUnprocessed key position = some after) :
    SameAddresses handle after := by
  rcases Option.bind_eq_some_iff.mp erased with ⟨infor, _, rest⟩
  split at rest
  · cases rest
    exact setCallbackInfor_addresses _ _
  · cases rest

theorem readMessageFiltered_addresses {filter : EventMessage → Bool}
    {result : EventMessage × Int}
    (read : handle.readMessageFiltered mess filter = some (after, result)) :
    SameAddresses handle after := by
  unfold readMessageFiltered at read
  split at read
  · rcases Option.bind_eq_some_iff.mp read with ⟨checked, _, checkedRead⟩
    split at checkedRead
    · rcases Option.bind_eq_some_iff.mp checkedRead with ⟨groupName, _, groupRead⟩
      rcases Option.bind_eq_some_iff.mp groupRead with ⟨messType, _, typeRead⟩
      rcases Option.bind_eq_some_iff.mp typeRead with ⟨infor, _, listRead⟩
      split at listRead
      · cases listRead
        exact .refl
      · split at listRead
        · cases listRead
          exact .refl
        · rcases Option.bind_eq_some_iff.mp listRead with ⟨found, _, foundRead⟩
          rcases Option.bind_eq_some_iff.mp foundRead with ⟨copiedType, _, copiedRead⟩
          split at copiedRead
          · rcases Option.bind_eq_some_iff.mp copiedRead with ⟨erased, erasing, done⟩
            cases done
            exact eraseUnprocessed_addresses erasing
          · cases copiedRead
    · cases checkedRead
      exact .refl
  · cases read
    exact .refl

/-- Reading a configured type does not fail. -/
theorem readMessageFiltered_succeeds {key : MessKey} (receiving : mess.willRecive = true)
    (named : mess.key? = some key) (configured : handle.Configured key)
    {filter : EventMessage → Bool} {left : EventMessage} {returned : Int}
    (read : handle.readMessageFiltered mess filter = some (after, left, returned)) :
    returned ≠ -1 := by
  rcases exists_found configured with ⟨infor, found⟩
  rw [readMessageFiltered, if_pos receiving, checkMessType_configured named configured] at read
  simp only [Option.bind_eq_bind, Option.bind_some, if_true,
    EventMessage.key?_eq_some.mp named, found] at read
  rintro rfl
  split at read
  · cases read
  · split at read
    · cases read
    · rcases Option.bind_eq_some_iff.mp read with ⟨_, _, foundRead⟩
      rcases Option.bind_eq_some_iff.mp foundRead with ⟨_, _, copiedRead⟩
      split at copiedRead
      · rcases Option.bind_eq_some_iff.mp copiedRead with ⟨_, _, done⟩
        cases done
      · cases copiedRead

end EventMessageHandle

end MultiMaster.NetIO
