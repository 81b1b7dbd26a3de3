import MultiMaster.LockProtocol.System
import MultiMaster.NetIO.WiredTables

/-!
# The lock protocol over connections

The hosts and the lock server as processes with a connection table each.  A process sends
through its libevent handle, which connects where there is no connection yet; the process
that listens at the address accepts; bytes of a connection arrive in pieces of any size and
run the read callback of the process that receives them, which answers requests while it
reads.

Steps of the system are the start of a call, the acceptance of a connection, the arrival of
bytes and one round of waiting of an unfinished call.  Libevent accepts every write, while
an attempt to connect may fail.
-/

namespace MultiMaster.LockProtocol

open Foundation NetIO LockTable

/-- A process: its message handle and the libevent handle of the lock group. -/
structure Party where
  messages : LockHandle
  net : LibeventHandle

structure WireSystem where
  parties : HostName → Party
  table : PageLockHash
  calls : List (HostName × PageLockRequest)
  links : List (Link HostName)

/-- What can be seen of a step. -/
inductive WireEvent where
  | sent (host : HostName) (request : PageLockRequest)
  | served (host : HostName) (request : PageLockRequest) (reply : PageLockReply)
  | queued
  | waiting
  | returned (host : HostName) (request : PageLockRequest) (reply : PageLockReply)
  | failed (host : HostName) (request : PageLockRequest)
  deriving DecidableEq

namespace WireSystem

/-- The outcome of an attempt to connect and the memory of the new record. -/
abbrev Connecting := Bool × Int × Bool

/-- Every write is accepted. -/
def outcomeOf (connecting : Connecting) : NetOutcome :=
  ⟨connecting.1, connecting.2, true, true⟩

/-- `request_page_lock` until it waits.  A negative result makes it return -1. -/
def requestPageLock (party : Party) (lockServerHost : CString) (request : PageLockRequest)
    (padding : UInt32) (connecting : Connecting) : Option (Party × Int) := do
  let (messages, net, _, returned) ← party.messages.sendMessage party.net
    (EventMessage.clear.prepareSend (.outside remoteLockGroupName)
      (.outside remoteLockRequestMessType) (.outside lockServerHost)
      (.outside (requestMemory request padding)) (UInt32.ofNat requestSize))
    (outcomeOf connecting)
  return (⟨messages, net⟩, returned)

/-- `lock_request_callback`.  The source asserts that the reply could be sent. -/
def lockRequestCallback (party : Party) (table : PageLockHash) (mess : EventMessage)
    (connecting : Connecting) : Option (Party × PageLockHash × WireEvent) := do
  let asker ← mess.sendHostName.cString mess.bufferStr
  let memory ← mess.message.data mess.bufferStr requestSize
  let request ← requestOf memory
  let (table, reply, _) := checkLockRequest table asker request
  let groupName ← mess.groupName.cString mess.bufferStr
  let (messages, net, _, returned) ← party.messages.sendMessage party.net
    (EventMessage.clear.prepareSend (.outside groupName) (.outside remoteLockReplyMessType)
      (.outside asker) (.outside (replyMemory reply)) (UInt32.ofNat replySize))
    (outcomeOf connecting)
  if returned < 0 then
    none
  else
    return (⟨messages, net⟩, table, .served asker request reply)

/-- What a read callback has done so far.  The lock table belongs to the process that
registers the callback. -/
structure Reading where
  messages : LockHandle
  table : PageLockHash
  events : List WireEvent

/-- One round of `read_callback_message_from_libevent`: the message is handed to its callback
or queued.  `storage` is the memory of queued copies. -/
def handleMessage (storage : Nat → EventMessage) (connecting : Nat → Connecting) :
    LibeventHandle.Handler Reading :=
  fun net reading bufferStr reciveSize => do
    let mess := EventMessage.initMessagePtr { EventMessage.clear with
      bufferStr := bufferStr
      bufferSize := UInt32.ofNat reciveSize.toNat }
    let (messages, callback, accepted) ←
      reading.messages.tryRunCallback (storage reading.events.length) mess
    match callback with
    | some (.lockRequestCallback, _) =>
        let (party, table, event) ← lockRequestCallback ⟨messages, net⟩ reading.table mess
          (connecting reading.events.length)
        return (party.net, ⟨party.messages, table, reading.events ++ [event]⟩, accepted)
    | none =>
        let happened := if accepted then [WireEvent.queued] else []
        return (net, ⟨messages, reading.table, reading.events ++ happened⟩, accepted)

inductive Input where
  | request (host : HostName) (request : PageLockRequest) (padding : UInt32)
      (connecting : Connecting)
  | accept (opener : HostName) (openerId : Nat) (accepter : HostName) (peer : Peer)
      (fresh : Int × Bool)
  | arrive (position count : Nat) (storage : Nat → EventMessage)
      (connecting : Nat → Connecting)
  | poll (host : HostName) (page : UInt32 × UInt32)

/-- Replace a process. -/
def setParty (system : WireSystem) (host : HostName) (party : Party) : WireSystem :=
  { system with parties := Function.update system.parties host party }

/-- A host starts a call. -/
def request (lockServerHost : HostName) (system : WireSystem) (host : HostName)
    (lockRequest : PageLockRequest) (padding : UInt32) (connecting : Connecting) :
    Option (WireSystem × List WireEvent) := do
  let (party, returned) ← requestPageLock (system.parties host) lockServerHost lockRequest
    padding connecting
  if returned < 0 then
    return (system.setParty host party, [.failed host lockRequest])
  else
    return ({ system.setParty host party with calls := system.calls ++ [(host, lockRequest)] },
      [.sent host lockRequest])

/-- A connection that a process has opened is accepted by another.  A peer that is taken for
a duplicate gets no record. -/
def accept (system : WireSystem) (opener : HostName) (openerId : Nat) (accepter : HostName)
    (peer : Peer) (fresh : Int × Bool) : Option (WireSystem × List WireEvent) := do
  let party := system.parties accepter
  let (net, connectId) ← party.net.connlistenerCb peer.addr fresh
  let accepted := system.setParty accepter { party with net := net }
  if connectId < 0 then
    return (accepted, [])
  else
    return ({ accepted with
      links := system.links ++ [⟨opener, openerId, accepter, connectId.toNat, 0⟩] }, [])

/-- The next bytes of a connection arrive. -/
def arrive (system : WireSystem) (position count : Nat) (storage : Nat → EventMessage)
    (connecting : Nat → Connecting) : Option (WireSystem × List WireEvent) := do
  let link ← system.links[position]?
  let sender ← (system.parties link.opener).net.bevMap.lookup link.openerId
  let party := system.parties link.accepter
  let (net, reading) ← party.net.arrive link.accepterId
    (LibeventHandle.replyLoop link.accepterId (handleMessage storage connecting))
    ⟨party.messages, system.table, []⟩ ((sender.bev.output.drop link.carried).take count)
  return ({ system.setParty link.accepter ⟨reading.messages, net⟩ with
    table := reading.table
    links := system.links.set position { link with carried := link.carried + count } },
    reading.events)

/-- A call of a host about a page. -/
def isAbout (host : HostName) (page : UInt32 × UInt32) (call : HostName × PageLockRequest) :
    Bool :=
  call.1 = host ∧ call.2.page = page

/-- The unfinished call of a host about a page waits one round. -/
def poll (system : WireSystem) (host : HostName) (page : UInt32 × UInt32) :
    Option (WireSystem × List WireEvent) := do
  let call ← system.calls.find? (isAbout host page)
  let party := system.parties host
  let (messages, result) ← waitForLockReply party.messages page
  let waited := system.setParty host { party with messages := messages }
  match result with
  | .failed =>
      return ({ waited with calls := system.calls.eraseP (isAbout host page) },
        [.failed call.1 call.2])
  | .waiting => return (waited, [.waiting])
  | .returned reply =>
      return ({ waited with calls := system.calls.eraseP (isAbout host page) },
        [.returned call.1 call.2 reply])

def step (lockServerHost : HostName) (system : WireSystem) :
    Input → Option (WireSystem × List WireEvent)
  | .request host lockRequest padding connecting =>
      system.request lockServerHost host lockRequest padding connecting
  | .accept opener openerId accepter peer fresh =>
      system.accept opener openerId accepter peer fresh
  | .arrive position count storage connecting => system.arrive position count storage connecting
  | .poll host page => system.poll host page

/-- The system as a machine.  A step that the source does not define is answered by
`none`. -/
def machine (lockServerHost : HostName) : Machine WireSystem Input (Option (List WireEvent)) where
  step system input :=
    match step lockServerHost system input with
    | none => (system, none)
    | some (after, events) => (after, some events)

end WireSystem

end MultiMaster.LockProtocol
