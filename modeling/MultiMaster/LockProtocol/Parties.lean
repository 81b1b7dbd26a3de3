import MultiMaster.LockProtocol.Messages

/-!
# Client and server of the lock protocol

A client sends a request to the lock server and polls its unprocessed messages for a
reply about the page it asked for.  The server answers a request in the callback that
receives it and sends the reply to the host that the request names as its sender.
The definitions follow `remote_page_lock_client.cc` and `remote_page_lock_manager.cc`.
-/

namespace MultiMaster.LockProtocol

open Foundation NetIO LockTable

def remoteLockGroupName : CString := .ofString "centralized_lock"

def remoteLockRequestMessType : CString := .ofString "PageLockRequest"

def remoteLockReplyMessType : CString := .ofString "PageLockReply"

def requestKey : MessKey := (remoteLockGroupName, remoteLockRequestMessType)

def replyKey : MessKey := (remoteLockGroupName, remoteLockReplyMessType)

variable {Callback Arg : Type}

/-! ## The client -/

/-- The first half of `request_page_lock`: the request is prepared and sent.  Without an
address in the result the call returns -1. -/
def requestPageLock (handle : EventMessageHandle Callback Arg) (lockServerHost : CString)
    (request : PageLockRequest) (padding : UInt32) :
    Option (EventMessageHandle Callback Arg × EventMessage × Option (CString × Int)) :=
  handle.stageMessage (EventMessage.clear.prepareSend (.outside remoteLockGroupName)
    (.outside remoteLockRequestMessType) (.outside lockServerHost)
    (.outside (requestMemory request padding)) (UInt32.ofNat requestSize))

/-- Accepts replies about a page.  The struct is read where the message's payload
points to. -/
def pageLockReplyFilter (page : UInt32 × UInt32) (mess : EventMessage) : Bool :=
  match mess.message.data mess.bufferStr replySize with
  | none => false
  | some memory => wordAt memory 0 = page.1 ∧ wordAt memory 4 = page.2

inductive WaitResult where
  | failed
  | waiting
  | returned (reply : PageLockReply)

/-- One round of the loop in `wait_for_lock_reply`: the call returns -1, sleeps and tries
again, or returns 1 with a reply. -/
def waitForLockReply (handle : EventMessageHandle Callback Arg) (page : UInt32 × UInt32) :
    Option (EventMessageHandle Callback Arg × WaitResult) := do
  let replyMsg := EventMessage.clear.prepareRecive (.outside remoteLockGroupName)
    (.outside remoteLockReplyMessType)
  let (handle, replyMsg, returnVal) ← handle.readMessageFiltered replyMsg
    (pageLockReplyFilter page)
  if returnVal = -1 then
    return (handle, .failed)
  else if returnVal = 1 then
    let memory ← replyMsg.message.data replyMsg.bufferStr replySize
    let reply ← replyOf memory
    return (handle, .returned reply)
  else
    return (handle, .waiting)

/-! ## The server -/

/-- What the callback has done: the request it read, the reply it computed and the
message it sent. -/
structure Answer (Callback Arg : Type) where
  handle : EventMessageHandle Callback Arg
  table : PageLockHash
  asker : HostName
  request : PageLockRequest
  reply : PageLockReply
  sent : EventMessage

/-- The callback for lock requests.  The source asserts that the reply can be sent. -/
def lockRequestCallback (messHandle : EventMessageHandle Callback Arg) (table : PageLockHash)
    (mess : EventMessage) : Option (Answer Callback Arg) := do
  let asker ← mess.sendHostName.cString mess.bufferStr
  let memory ← mess.message.data mess.bufferStr requestSize
  let request ← requestOf memory
  let (table, reply, _) := checkLockRequest table asker request
  let groupName ← mess.groupName.cString mess.bufferStr
  let (messHandle, sent, address) ← messHandle.stageMessage
    (EventMessage.clear.prepareSend (.outside groupName) (.outside remoteLockReplyMessType)
      (.outside asker) (.outside (replyMemory reply)) (UInt32.ofNat replySize))
  if address.isSome then
    return ⟨messHandle, table, asker, request, reply, sent⟩
  else
    none

/-! ## What is sent and received -/

/-- The fields of a request of a host. -/
def requestFields (lockServerHost host : CString) (request : PageLockRequest)
    (padding : UInt32) : MessageFields :=
  ⟨remoteLockGroupName, remoteLockRequestMessType, host, lockServerHost,
    requestMemory request padding⟩

/-- The fields of the reply to a host. -/
def replyFields (lockServerHost host : CString) (reply : PageLockReply) : MessageFields :=
  ⟨remoteLockGroupName, remoteLockReplyMessType, lockServerHost, host, replyMemory reply⟩

/-- The names of server and host leave room for the sizes of messages. -/
def ShortNames (lockServerHost host : CString) : Prop :=
  lockServerHost.length + host.length < 2 ^ 31

variable {lockServerHost host : CString} {handle : EventMessageHandle Callback Arg}

theorem requestFields_fits (short : ShortNames lockServerHost host) (request : PageLockRequest)
    (padding : UInt32) :
    (requestFields lockServerHost host request padding).encodedSize < 2 ^ 32 := by
  have group : remoteLockGroupName.length = 16 := by decide
  have type : remoteLockRequestMessType.length = 15 := by decide
  rw [ShortNames] at short
  simp only [MessageFields.encodedSize, requestFields, group, type, length_requestMemory,
    requestSize]
  omega

theorem replyFields_fits (short : ShortNames lockServerHost host) (reply : PageLockReply) :
    (replyFields lockServerHost host reply).encodedSize < 2 ^ 32 := by
  have group : remoteLockGroupName.length = 16 := by decide
  have type : remoteLockReplyMessType.length = 13 := by decide
  rw [ShortNames] at short
  simp only [MessageFields.encodedSize, replyFields, group, type, length_replyMemory, replySize]
  omega

/-- A client that knows the server sends the encoded request. -/
theorem requestPageLock_eq (name : handle.localHostName = host)
    (configured : handle.Configured requestKey)
    (reaches : handle.Reaches remoteLockGroupName lockServerHost)
    (short : ShortNames lockServerHost host) (request : PageLockRequest) (padding : UInt32) :
    ∃ mess address,
      requestPageLock handle lockServerHost request padding =
        some (handle, mess, some address) ∧
      mess.content = (requestFields lockServerHost host request padding).wire := by
  have sender : (requestFields lockServerHost host request padding).sendHostName =
      handle.localHostName := name.symm
  rcases reaches.stageMessage_prepareOn sender configured
    (requestFields_fits short request padding) .clear with ⟨encoded, address, staged, bytes⟩
  refine ⟨encoded, address, ?_, bytes⟩
  rw [EventMessageHandle.prepareOn] at staged
  simp only [requestFields, length_requestMemory] at staged
  exact staged

/-- The callback answers a request by the reply that `check_lock_request` computes, and
sends it to the host that asked. -/
theorem lockRequestCallback_eq (name : handle.localHostName = lockServerHost)
    (configured : handle.Configured replyKey)
    (reaches : handle.Reaches remoteLockGroupName host)
    (short : ShortNames lockServerHost host) (table : PageLockHash)
    (request : PageLockRequest) (padding : UInt32) :
    ∃ sent,
      lockRequestCallback handle table
          (requestFields lockServerHost host request padding).received =
        some ⟨handle, (checkLockRequest table host request).1, host, request,
          (checkLockRequest table host request).2.1, sent⟩ ∧
      sent.content =
        (replyFields lockServerHost host (checkLockRequest table host request).2.1).wire := by
  have stores := MessageFields.stores_received (requestFields_fits short request padding)
  have asker := stores.sendHostName.cString_eq
  have group := stores.groupName.cString_eq
  have payload := stores.message.data_eq
  have sender : (replyFields lockServerHost host
      (checkLockRequest table host request).2.1).sendHostName = handle.localHostName := name.symm
  rcases reaches.stageMessage_prepareOn sender configured
    (replyFields_fits short _) .clear with ⟨sent, address, staged, bytes⟩
  simp only [requestFields, length_requestMemory] at asker group payload
  simp only [EventMessageHandle.prepareOn, replyFields, length_replyMemory] at staged
  refine ⟨sent, ?_, bytes⟩
  simp only [lockRequestCallback, requestFields, asker, group, payload,
    requestOf_requestMemory, staged, Option.bind_eq_bind, Option.bind_some,
    Option.isSome_some, if_true, Option.pure_def]

/-- The filter compares the page of the reply that a message stores. -/
theorem pageLockReplyFilter_eq {mess : EventMessage} {reply : PageLockReply}
    (stores : mess.Stores (replyFields lockServerHost host reply)) (page : UInt32 × UInt32) :
    pageLockReplyFilter page mess = decide ((reply.spaceId, reply.pageNo) = page) := by
  have payload := stores.message.data_eq
  simp only [replyFields, length_replyMemory] at payload
  simp only [pageLockReplyFilter, payload, wordAt_replyMemory_space, wordAt_replyMemory_page,
    Prod.ext_iff]

/-- A message in memory carries the reply to a host. -/
structure Holds (lockServerHost host : CString) (mess : EventMessage) (reply : PageLockReply) :
    Prop where
  bytes : mess.content = (replyFields lockServerHost host reply).wire
  stores : mess.Stores (replyFields lockServerHost host reply)

theorem holds_copy {source : EventMessage} {reply : PageLockReply}
    (short : ShortNames lockServerHost host)
    (bytes : source.content = (replyFields lockServerHost host reply).wire)
    (target : EventMessage) : Holds lockServerHost host (target.copy source) reply :=
  ⟨EventMessage.content_copy.trans bytes,
    MessageFields.stores_copy (replyFields_fits short reply) bytes target⟩

/-- The reply a message holds is what the client copies out of it. -/
theorem Holds.replyOf_eq {mess : EventMessage} {reply : PageLockReply}
    (holds : Holds lockServerHost host mess reply) :
    ∃ memory, mess.message.data mess.bufferStr replySize = some memory ∧
      replyOf memory = some reply := by
  have payload := holds.stores.message.data_eq
  simp only [replyFields, length_replyMemory] at payload
  exact ⟨replyMemory reply, payload, replyOf_replyMemory reply⟩

/-- A message holds one reply only. -/
theorem Holds.reply_unique {mess : EventMessage} {first second : PageLockReply}
    (holdsFirst : Holds lockServerHost host mess first)
    (holdsSecond : Holds lockServerHost host mess second) : first = second := by
  rcases holdsFirst.replyOf_eq with ⟨memory, data, decoded⟩
  rcases holdsSecond.replyOf_eq with ⟨sameMemory, sameData, sameDecoded⟩
  cases Option.some.inj (data.symm.trans sameData)
  exact Option.some.inj (decoded.symm.trans sameDecoded)

/-- What one round of waiting does: the first queued reply about the page is taken, or
there is none. -/
inductive WaitEffect (lockServerHost host : CString) (page : UInt32 × UInt32)
    (handle after : EventMessageHandle Callback Arg) : WaitResult → Prop where
  | waiting (rejected : ∀ mess ∈ handle.unprocessed replyKey,
        pageLockReplyFilter page mess = false)
      (lists : EventMessageHandle.SameLists handle after) :
      WaitEffect lockServerHost host page handle after .waiting
  | returned (front : List EventMessage) (mess : EventMessage) (back : List EventMessage)
      (reply : PageLockReply) (list : handle.unprocessed replyKey = front ++ mess :: back)
      (rejected : ∀ earlier ∈ front, pageLockReplyFilter page earlier = false)
      (accepted : pageLockReplyFilter page mess = true)
      (holds : Holds lockServerHost host mess reply)
      (lists : EventMessageHandle.ListChanged handle after replyKey (front ++ back)) :
      WaitEffect lockServerHost host page handle after (.returned reply)

theorem waitForLockReply_effect (short : ShortNames lockServerHost host)
    (named : handle.QueuesNamed) (configured : handle.Configured replyKey)
    (holding : ∀ mess ∈ handle.unprocessed replyKey,
      ∃ reply, Holds lockServerHost host mess reply)
    (page : UInt32 × UInt32) :
    ∃ after result, waitForLockReply handle page = some (after, result) ∧
      WaitEffect lockServerHost host page handle after result ∧
      EventMessageHandle.SameSetup handle after ∧
      EventMessageHandle.SameAddresses handle after := by
  let replyMsg := EventMessage.clear.prepareRecive (.outside remoteLockGroupName)
    (.outside remoteLockReplyMessType)
  have names : replyMsg.key? = some replyKey := rfl
  rcases EventMessageHandle.readMessageFiltered_effect named (fun _ => ⟨replyKey, names⟩)
    (pageLockReplyFilter page) with ⟨after, returned, left, read, effect, setup⟩
  have addresses := EventMessageHandle.readMessageFiltered_addresses read
  have succeeded := EventMessageHandle.readMessageFiltered_succeeds rfl names configured read
  rcases effect with ⟨key, front, mess, back, keyNamed, list, rejected, accepted, result, lists⟩ |
    ⟨key, _, keyNamed, rejected, result, lists⟩ | ⟨_, result, _⟩
  · cases Option.some.inj (names.symm.trans keyNamed)
    cases result
    rcases holding mess (by simp [list]) with ⟨reply, holds⟩
    rcases (holds_copy short holds.bytes replyMsg).replyOf_eq with ⟨memory, data, decoded⟩
    refine ⟨after, .returned reply, ?_,
      .returned front mess back reply list rejected accepted holds lists, setup, addresses⟩
    simp only [waitForLockReply]
    rw [read]
    simp [data, decoded, replyMsg]
  · cases Option.some.inj (names.symm.trans keyNamed)
    cases result
    refine ⟨after, .waiting, ?_, .waiting rejected lists, setup, addresses⟩
    simp only [waitForLockReply]
    rw [read]
    rfl
  · cases result
    exact absurd rfl succeeded

end MultiMaster.LockProtocol
