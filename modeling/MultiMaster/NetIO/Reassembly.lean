import MultiMaster.NetIO.Transport

/-!
# End-to-end reassembly

Messages sent one after another with `sendMessage` over one connection reach
`try_run_callback` of the receiver whole, once and in order, however the stream is
cut: after every chunk exactly the messages whose frames have arrived have been
handed over.  An encoded message is larger than a control block, so the receiver
never holds a complete message back.
-/

namespace MultiMaster.NetIO

open Foundation

namespace EventMessageHandle

variable {Callback Arg : Type}

/-! ## The sending side -/

/-- The address of a host in a group leads to an open connection. -/
structure Route (handle : EventMessageHandle Callback Arg) (eventHandle : LibeventHandle)
    (groupName hostName : CString) (connectId : Int) (info : BevInfor) : Prop where
  ip : handle.getIp hostName = some info.ip
  port : handle.getPort hostName groupName = (handle, info.port)
  valid : info.port ≠ 0
  first : eventHandle.bevMap.entries.find?
    (fun entry => entry.2.hasAddress info.ip info.port) = some (connectId, info)
  writable : eventHandle.Writable connectId info

variable {handle : EventMessageHandle Callback Arg} {eventHandle : LibeventHandle}
variable {groupName hostName : CString} {connectId : Int} {info : BevInfor}

/-- Everything is written and nothing has to be connected. -/
def allAccepted : NetOutcome := ⟨true, (0, false), true, true⟩

theorem Route.getConnectionId_eq
    (route : handle.Route eventHandle groupName hostName connectId info)
    (outcome : NetOutcome) :
    eventHandle.getConnectionId info.ip info.port true outcome.connected outcome.fresh =
      some (eventHandle, connectId) := by
  have table := route.writable.table
  have first := route.first
  rcases eventHandle with ⟨maxBevId, singal, bevMap, listenSingal, listenIdVector⟩
  cases table
  rw [LibeventHandle.getConnectionId]
  simp only [first]
  rfl

/-- A route stays open when more is written to it. -/
theorem Route.appendOutput
    (route : handle.Route eventHandle groupName hostName connectId info) (bytes : Bytes) :
    handle.Route (eventHandle.setBevInfor connectId (info.appendOutput bytes)) groupName
      hostName connectId (info.appendOutput bytes) := by
  refine ⟨route.ip, route.port, route.valid, ?_, route.writable.appendOutput bytes⟩
  have found : (eventHandle.bevMap.insert connectId (info.appendOutput bytes)).entries.find?
      (fun entry => entry.2.hasAddress info.ip info.port) = _ :=
    OrderedMap.find?_insert route.writable.found rfl
  rw [route.first, Option.map_some, if_pos rfl] at found
  exact found

/-- Prepare and send messages one after another; libevent accepts every write. -/
def sendMessages (handle : EventMessageHandle Callback Arg) (eventHandle : LibeventHandle) :
    List (EventMessage × MessageFields) →
      Option (EventMessageHandle Callback Arg × LibeventHandle)
  | [] => some (handle, eventHandle)
  | (mess, fields) :: rest => do
      let sent ← handle.sendMessage eventHandle (prepareOn mess fields) allAccepted
      sendMessages sent.1 sent.2.1 rest

/-- The fields can be sent along a route. -/
structure Sendable (handle : EventMessageHandle Callback Arg) (groupName hostName : CString)
    (fields : MessageFields) : Prop where
  group : fields.groupName = groupName
  receiver : fields.reciveHostName = hostName
  sender : fields.sendHostName = handle.localHostName
  configured : handle.Configured fields.messKey
  small : fields.encodedSize < 2 ^ 31

/-- Sending writes one frame with the encoded message. -/
theorem sendMessage_eq {fields : MessageFields}
    (route : handle.Route eventHandle groupName hostName connectId info)
    (sendable : handle.Sendable groupName hostName fields) (mess : EventMessage) :
    ∃ encoded, handle.sendMessage eventHandle (prepareOn mess fields) allAccepted =
      some (handle, eventHandle.setBevInfor connectId
        (info.appendOutput (controlFormat.frame fields.encode)), encoded, 1) := by
  have fits : fields.encodedSize < 2 ^ 32 := by
    have := sendable.small
    omega
  have small : fields.encode.length < 2 ^ 31 := by
    rw [MessageFields.length_encode]
    exact sendable.small
  have ip : handle.getIp fields.reciveHostName = some info.ip := by
    rw [sendable.receiver]
    exact route.ip
  have port : handle.getPort fields.reciveHostName fields.groupName = (handle, info.port) := by
    rw [sendable.receiver, sendable.group]
    exact route.port
  rcases stageMessage_prepareOn sendable.sender sendable.configured ip port route.valid fits
    mess with ⟨encoded, staged, bytes⟩
  rcases Prod.mk.inj bytes with ⟨sameBytes, sameSize⟩
  have size : toInt encoded.bufferSize.toNat = (fields.encode.length : Int) := by
    rw [sameSize, EventMessage.toNat_ofNat_of_lt fits, toInt_of_lt sendable.small,
      MessageFields.length_encode]
  have connection := route.getConnectionId_eq allAccepted
  have written : eventHandle.send connectId fields.encode fields.encode.length
      allAccepted.blockAccepted allAccepted.dataAccepted = _ :=
    LibeventHandle.send_eq route.writable small
  refine ⟨encoded, ?_⟩
  rw [sendMessage, staged]
  simp only [Option.bind_eq_bind, Option.bind_some, connection, sameBytes, size, written]
  rfl

theorem sendMessages_eq {messages : List (EventMessage × MessageFields)}
    (route : handle.Route eventHandle groupName hostName connectId info)
    (sendable : ∀ message ∈ messages, handle.Sendable groupName hostName message.2) :
    ∃ sent, handle.sendMessages eventHandle messages = some (handle, sent) ∧
      sent.outputOf connectId = info.bev.output ++
        controlFormat.frames (messages.map fun message => message.2.encode) := by
  induction messages generalizing eventHandle info with
  | nil =>
      refine ⟨eventHandle, rfl, ?_⟩
      rw [LibeventHandle.outputOf, route.writable.found]
      simp
  | cons message rest ih =>
      rcases message with ⟨mess, fields⟩
      rcases sendMessage_eq route (sendable _ List.mem_cons_self) mess with ⟨encoded, sent⟩
      rw [sendMessages, sent]
      rcases ih (route.appendOutput (controlFormat.frame fields.encode))
        (fun message member => sendable message (List.mem_cons_of_mem _ member)) with
        ⟨final, finished, output⟩
      refine ⟨final, finished, ?_⟩
      rw [output, List.map_cons, HeaderFormat.frames_cons, ← List.append_assoc]
      rfl

/-! ## The receiving side -/

/-- A message of a configured type is always accepted. -/
theorem tryRunCallback_accepts {mess : EventMessage} {key : MessKey}
    (named : mess.key? = some key) (configured : handle.Configured key)
    (storage : EventMessage) :
    ∃ after ran, handle.tryRunCallback storage mess = some (after, ran, true) ∧
      SameSetup handle after := by
  rcases exists_found configured with ⟨infor, found⟩
  have ran := tryRunCallback_of_found named found storage
  have setup := (setCallbackInfor_list found
    (infor.unprocessedMessList ++ [storage.copy mess])).2
  cases function : infor.cbFunction with
  | some cb => exact ⟨handle, some (cb, infor.cbArg), by simp [ran, function], .refl⟩
  | none => exact ⟨_, none, by simp [ran, function], setup⟩

theorem handMessage_encode {fields : MessageFields} (fits : fields.encodedSize < 2 ^ 31)
    (configured : handle.Configured fields.messKey) (storage : Nat → EventMessage)
    (handed : List EventMessage) :
    ∃ after, handMessage storage (handle, handed) fields.encode fields.encode.length =
      some ((after, handed ++ [fields.received]), true) ∧ SameSetup handle after := by
  have small : fields.encodedSize < 2 ^ 32 := by omega
  rcases tryRunCallback_accepts (fields.decoded_received small).key?_eq configured
    (storage handed.length) with ⟨after, ran, accepted, setup⟩
  refine ⟨after, ?_, setup⟩
  rw [MessageFields.received] at accepted ⊢
  simp [handMessage, accepted]

/-- Encoded messages of configured types are all accepted, in order. -/
theorem acceptAll_handMessage {messages : List MessageFields}
    (small : ∀ fields ∈ messages, fields.encodedSize < 2 ^ 31)
    (configured : ∀ fields ∈ messages, handle.Configured fields.messKey)
    (storage : Nat → EventMessage) (handed : List EventMessage) :
    ∃ after, LibeventHandle.acceptAll (handMessage storage) (handle, handed)
      (messages.map MessageFields.encode) =
        some (after, handed ++ messages.map MessageFields.received) := by
  induction messages generalizing handle handed with
  | nil => exact ⟨handle, by simp [LibeventHandle.acceptAll]⟩
  | cons fields rest ih =>
      rcases handMessage_encode (small fields List.mem_cons_self)
        (configured fields List.mem_cons_self) storage handed with ⟨next, accepted, setup⟩
      rcases ih (fun other member => small other (List.mem_cons_of_mem _ member))
        (fun other member => (setup.configured _).mpr
          (configured other (List.mem_cons_of_mem _ member)))
        (handed ++ [fields.received]) with ⟨after, remaining⟩
      refine ⟨after, ?_⟩
      rw [List.map_cons, LibeventHandle.acceptAll, accepted]
      simp [remaining]

/-! ## End to end -/

/-- A prefix of the encodings is the encoding of a prefix of the messages. -/
theorem map_encode_prefix_iff {messages initial done : List MessageFields}
    (first : initial <+: messages) (second : done <+: messages) :
    initial.map MessageFields.encode <+: done.map MessageFields.encode ↔ initial <+: done := by
  constructor
  · intro shorter
    apply List.prefix_of_prefix_length_le first second
    simpa using shorter.length_le
  · exact fun shorter => shorter.map _

theorem sized_encode {messages : List MessageFields}
    (small : ∀ fields ∈ messages, fields.encodedSize < 2 ^ 31) :
    ∀ payload ∈ messages.map MessageFields.encode,
      controlFormat.width < payload.length ∧ payload.length < controlFormat.limit := by
  intro payload member
  rcases List.mem_map.mp member with ⟨fields, inside, rfl⟩
  rw [MessageFields.length_encode]
  refine ⟨?_, small fields inside⟩
  simp only [MessageFields.encodedSize, controlFormat, controlBlockSize]
  omega

/-- The read callback on chunks of a stream of encoded messages. -/
theorem received_longestArrived {eventHandle : LibeventHandle}
    {messages : List MessageFields} {chunks : List Bytes} {storage : Nat → EventMessage}
    (ready : eventHandle.Ready connectId info) (fresh : info.Fresh)
    (small : ∀ fields ∈ messages, fields.encodedSize < 2 ^ 31)
    (configured : ∀ fields ∈ messages, handle.Configured fields.messKey)
    (cut : LibeventHandle.CutPrefix chunks
      (controlFormat.frames (messages.map MessageFields.encode)))
    (below : LibeventHandle.InputBelow connectId
      (readCallbackMessageFromLibevent storage connectId) eventHandle (handle, []) chunks) :
    ∃ after reached handed,
      LibeventHandle.receiveChunks connectId
        (readCallbackMessageFromLibevent storage connectId) eventHandle (handle, []) chunks =
          some (after, reached, handed.map MessageFields.received) ∧
      handed <+: messages ∧
      ∀ initial, initial <+: messages →
        (initial <+: handed ↔
          controlFormat.frames (initial.map MessageFields.encode) <+: chunks.flatten) := by
  have accepts : ∀ front, front <+: messages → ∃ after,
      LibeventHandle.acceptAll (handMessage storage) (handle, [])
        (front.map MessageFields.encode) =
          some (after, front.map MessageFields.received) := by
    intro front among
    exact acceptAll_handMessage (fun fields member => small fields (among.subset member))
      (fun fields member => configured fields (among.subset member)) storage []
  have accepting : ∀ initial, initial <+: messages.map MessageFields.encode →
      (LibeventHandle.acceptAll (handMessage storage) (handle, []) initial).isSome := by
    intro initial shorter
    rcases List.prefix_map_iff.mp shorter with ⟨front, among, rfl⟩
    rcases accepts front among with ⟨after, accepted⟩
    rw [accepted]
    rfl
  have sizes := sized_encode small
  have sized : Receiver.Sized controlFormat (messages.map MessageFields.encode) :=
    fun payload member => ⟨Nat.zero_lt_of_lt (sizes payload member).1,
      (sizes payload member).2⟩
  rcases LibeventHandle.progress_run ready fresh sized accepting cut below with
    ⟨done, rest, pending, after, reached, final, progress⟩
  rcases List.map_eq_append_iff.mp progress.split with ⟨handed, later, rfl, rfl, rfl⟩
  rcases accepts handed (List.prefix_append _ _) with ⟨dispatched, accepted⟩
  rw [progress.accepted] at accepted
  cases accepted
  have large : ∀ payload ∈ later.map MessageFields.encode,
      controlFormat.width < payload.length := by
    intro payload member
    apply (sizes payload _).1
    rw [List.map_append]
    exact List.mem_append_right _ member
  have longest : controlFormat.LongestArrived
      (handed.map MessageFields.encode ++ later.map MessageFields.encode)
      (handed.map MessageFields.encode)
      (controlFormat.frames (handed.map MessageFields.encode) ++ pending) :=
    progress.standing.longestArrived large
  refine ⟨after, dispatched, handed, progress.reached, List.prefix_append _ _, ?_⟩
  intro initial among
  rw [← map_encode_prefix_iff among (List.prefix_append _ _), progress.bytes]
  apply longest.2
  rw [← List.map_append]
  exact among.map _

/-- Sending a list of messages writes the frames of their encodings, one after another.
After any chunks of this stream, the read callback has returned each time it ran and the
messages handed to `try_run_callback` are the decoded messages of the longest prefix of that
list whose frames have arrived. -/
theorem reassembly_exact {sender receiver : EventMessageHandle Callback Arg}
    {senderEvent receiverEvent : LibeventHandle} {sendId reciveId : Int}
    {senderInfo receiverInfo : BevInfor} {messages : List (EventMessage × MessageFields)}
    (route : sender.Route senderEvent groupName hostName sendId senderInfo)
    (unsent : senderInfo.bev.output = [])
    (sendable : ∀ message ∈ messages, sender.Sendable groupName hostName message.2)
    (ready : receiverEvent.Ready reciveId receiverInfo) (fresh : receiverInfo.Fresh)
    (configured : ∀ message ∈ messages, receiver.Configured message.2.messKey)
    (storage : Nat → EventMessage) :
    ∃ sent, sender.sendMessages senderEvent messages = some (sender, sent) ∧
      sent.outputOf sendId =
        controlFormat.frames (messages.map fun message => message.2.encode) ∧
      ∀ chunks, LibeventHandle.CutPrefix chunks (sent.outputOf sendId) →
        LibeventHandle.InputBelow reciveId (readCallbackMessageFromLibevent storage reciveId)
          receiverEvent (receiver, []) chunks →
        ∃ after handle handed,
          LibeventHandle.receiveChunks reciveId
            (readCallbackMessageFromLibevent storage reciveId) receiverEvent (receiver, [])
            chunks = some (after, handle, handed.map MessageFields.received) ∧
          handed <+: messages.map Prod.snd ∧
          ∀ initial, initial <+: messages.map Prod.snd →
            (initial <+: handed ↔
              controlFormat.frames (initial.map MessageFields.encode) <+:
                chunks.flatten) := by
  rcases sendMessages_eq route sendable with ⟨sent, finished, output⟩
  rw [unsent, List.nil_append] at output
  refine ⟨sent, finished, output, ?_⟩
  have stream : sent.outputOf sendId =
      controlFormat.frames ((messages.map Prod.snd).map MessageFields.encode) := by
    rw [output, List.map_map]
    rfl
  rw [stream]
  intro chunks cut below
  apply received_longestArrived ready fresh _ _ cut below
  · intro fields member
    rcases List.mem_map.mp member with ⟨message, inside, rfl⟩
    exact (sendable message inside).small
  · intro fields member
    rcases List.mem_map.mp member with ⟨message, inside, rfl⟩
    exact configured message inside

/-- A handle that knows one peer in the group of the lock table. -/
def lockPeer (localHostName peerName : CString) : EventMessageHandle Unit Unit where
  localHostName := localHostName
  hostConfigMap := (∅ : AList _).insert peerName (.ofString "127.0.0.1")
  messGroupMap := (∅ : AList _).insert replyKey.1
    { hostPortMap := (∅ : AList _).insert peerName 9000
      messCallbackMap := (∅ : AList _).insert replyKey.2 ⟨none, none, []⟩ }

/-- A reply of the lock server to `host1`. -/
def replyFields : MessageFields :=
  ⟨replyKey.1, replyKey.2, .ofString "server", .ofString "host1", [7]⟩

/-- The frames of two replies. -/
def replyStream : Bytes := controlFormat.frames [replyFields.encode, replyFields.encode]

/-- A part of the first control block, the rest of it and more than the first message, and
what is left. -/
def replyChunks : List Bytes :=
  [replyStream.take 2, (replyStream.drop 2).take 100, replyStream.drop 102]

/-- Two replies over a new connection, whose frames arrive in pieces. -/
theorem reassembly_exact_twoReplies :
    ∃ sent, (lockPeer (.ofString "server") (.ofString "host1")).sendMessages
        LibeventHandle.oneConnection [(.clear, replyFields), (.clear, replyFields)] =
          some (lockPeer (.ofString "server") (.ofString "host1"), sent) ∧
      sent.outputOf 0 = replyStream ∧ replyChunks.flatten = replyStream ∧
      ∃ after handle, LibeventHandle.receiveChunks 0
        (readCallbackMessageFromLibevent (fun _ => .clear) 0) LibeventHandle.oneConnection
        (lockPeer (.ofString "host1") (.ofString "server"), []) replyChunks =
          some (after, handle, [replyFields.received, replyFields.received]) := by
  have route : (lockPeer (.ofString "server") (.ofString "host1")).Route
      LibeventHandle.oneConnection replyKey.1 (.ofString "host1") 0
      LibeventHandle.newConnection :=
    ⟨by decide, rfl, by decide, rfl, LibeventHandle.oneConnection_writable⟩
  have reply : (lockPeer (.ofString "server") (.ofString "host1")).Sendable replyKey.1
      (.ofString "host1") replyFields :=
    ⟨rfl, rfl, rfl, by rw [Configured]; decide, by decide⟩
  have sendable : ∀ message ∈ [(EventMessage.clear, replyFields), (.clear, replyFields)],
      (lockPeer (.ofString "server") (.ofString "host1")).Sendable replyKey.1
        (.ofString "host1") message.2 := by simp [reply]
  have known : (lockPeer (.ofString "host1") (.ofString "server")).Configured
      replyFields.messKey := by
    rw [Configured]
    decide
  have configured : ∀ message ∈ [(EventMessage.clear, replyFields), (.clear, replyFields)],
      (lockPeer (.ofString "host1") (.ofString "server")).Configured message.2.messKey := by
    simp [known]
  rcases reassembly_exact route rfl sendable LibeventHandle.oneConnection_ready
    LibeventHandle.newConnection_fresh configured (fun _ => .clear) with
    ⟨sent, finished, output, exact⟩
  have stream : sent.outputOf 0 = replyStream := output
  have whole : replyChunks.flatten = replyStream := by decide +kernel
  have cut : LibeventHandle.CutPrefix replyChunks (sent.outputOf 0) :=
    ⟨by decide +kernel, by rw [stream, whole]⟩
  rcases exact replyChunks cut (by rw [LibeventHandle.InputBelow]; decide +kernel) with
    ⟨after, handle, handed, received, among, arrived⟩
  have both : [replyFields, replyFields] <+: handed := by
    apply (arrived [replyFields, replyFields] (List.prefix_refl _)).mpr
    rw [whole]
    exact List.prefix_refl _
  rw [among.eq_of_length_le both.length_le] at received
  exact ⟨sent, finished, stream, whole, after, handle, received⟩

end EventMessageHandle

end MultiMaster.NetIO
