import MultiMaster.Foundation.Exchange
import MultiMaster.LockProtocol.Parties

/-!
# Hosts, lock server and network

Any number of hosts request page locks from one server.  The network delivers every
sent message once to the host it is addressed to, in any order.  Steps of the system
are the start of a call, the delivery of a message, which runs the server's callback or
queues a reply at its host, and one round of waiting of an unfinished call.

Calls are numbered.  The numbers stand beside messages in the network and beside the
queued messages of a host and influence nothing.
-/

namespace MultiMaster.LockProtocol

open Foundation NetIO LockTable

/-- The callbacks that are registered in this system. -/
inductive LockCallback where
  | lockRequestCallback
  deriving DecidableEq

abbrev LockHandle := EventMessageHandle LockCallback Unit

/-- A message in flight: the call it belongs to, the host it is addressed to and its
bytes. -/
structure Transit where
  ticket : Nat
  host : HostName
  bytes : Bytes

structure LockSystem where
  server : LockHandle
  table : PageLockHash
  clients : HostName → LockHandle
  calls : List (Call HostName PageLockRequest)
  network : List Transit
  /-- Tickets of the calls that the queued replies of a host were computed for. -/
  arrived : HostName → List Nat
  next : Nat

/-- A reply is about the page of the request. -/
theorem checkLockRequest_page (table : PageLockHash) (host : HostName)
    (request : PageLockRequest) :
    ((checkLockRequest table host request).2.1.spaceId,
      (checkLockRequest table host request).2.1.pageNo) = request.page := by
  have answer := server_step table ⟨host, request⟩
  simp only [server, Prod.mk.injEq] at answer
  rw [answer.2]
  rfl

/-- The lock table as a service: it is asked and answers about a page. -/
def lockService : Service PageLockHash HostName (UInt32 × UInt32) PageLockRequest
    PageLockReply where
  answer := ⟨fun table question =>
    ((checkLockRequest table question.1 question.2).1,
      (checkLockRequest table question.1 question.2).2.1)⟩
  asked := PageLockRequest.page
  answered reply := (reply.spaceId, reply.pageNo)
  faithful := checkLockRequest_page

namespace LockSystem

inductive Input where
  | request (host : HostName) (request : PageLockRequest) (padding : UInt32)
  | deliver (position : Nat) (storage : EventMessage)
  | poll (host : HostName) (page : UInt32 × UInt32)

abbrev LockEvent := Exchange.Event HostName PageLockRequest PageLockReply

/-- What came of a step: an event, a call that returned -1, or nothing that the source
defines, such as a failed assertion or a message nobody expects. -/
inductive Outcome where
  | event (event : LockEvent)
  | failed
  | undefined

/-- The bytes that a staged message puts into the network. -/
def transit (ticket : Nat) (host : HostName) (mess : EventMessage) : Transit :=
  ⟨ticket, host, mess.bufferStr.take mess.bufferSize.toNat⟩

/-- The message object made of received bytes. -/
def decode (bytes : Bytes) : EventMessage :=
  EventMessage.initMessagePtr { EventMessage.clear with
    bufferStr := bytes
    bufferSize := UInt32.ofNat bytes.length }

/-- A host starts a call. -/
def request (lockServerHost : HostName) (system : LockSystem) (host : HostName)
    (lockRequest : PageLockRequest) (padding : UInt32) : LockSystem × Outcome :=
  match requestPageLock (system.clients host) lockServerHost lockRequest padding with
  | none => (system, .undefined)
  | some (handle, _, none) =>
      ({ system with clients := Function.update system.clients host handle }, .failed)
  | some (handle, mess, some _) =>
      let call : Call HostName PageLockRequest := ⟨system.next, host, lockRequest⟩
      ({ system with
        clients := Function.update system.clients host handle
        calls := system.calls ++ [call]
        network := system.network ++ [transit call.ticket lockServerHost mess]
        next := system.next + 1 }, .event (.sent call))

/-- The server receives a message and runs its callback. -/
def serve (system : LockSystem) (position ticket : Nat) (storage mess : EventMessage) :
    LockSystem × Outcome :=
  match system.server.tryRunCallback storage mess with
  | some (handle, some (.lockRequestCallback, _), _) =>
      match lockRequestCallback handle system.table mess with
      | none => (system, .undefined)
      | some answer =>
          ({ system with
            server := answer.handle
            table := answer.table
            network := system.network.eraseIdx position ++
              [transit ticket answer.asker answer.sent] },
            .event (.served ⟨ticket, answer.asker, answer.request⟩ answer.reply))
  | _ => (system, .undefined)

/-- A host receives a message, which no callback handles. -/
def arrive (system : LockSystem) (position ticket : Nat) (host : HostName)
    (storage mess : EventMessage) : LockSystem × Outcome :=
  match (system.clients host).tryRunCallback storage mess with
  | some (handle, none, true) =>
      ({ system with
        clients := Function.update system.clients host handle
        network := system.network.eraseIdx position
        arrived := Function.update system.arrived host (system.arrived host ++ [ticket]) },
        .event (.queued ticket))
  | _ => (system, .undefined)

def deliver (lockServerHost : HostName) (system : LockSystem) (position : Nat)
    (storage : EventMessage) : LockSystem × Outcome :=
  match system.network[position]? with
  | none => (system, .undefined)
  | some message =>
      if message.host = lockServerHost then
        system.serve position message.ticket storage (decode message.bytes)
      else
        system.arrive position message.ticket message.host storage (decode message.bytes)

/-- The unfinished call of a host about a page waits one round. -/
def poll (system : LockSystem) (host : HostName) (page : UInt32 × UInt32) :
    LockSystem × Outcome :=
  match system.calls.find? (Exchange.isAbout lockService host page) with
  | none => (system, .undefined)
  | some call =>
      match waitForLockReply (system.clients host) page with
      | none => (system, .undefined)
      | some (handle, .failed) =>
          ({ system with
            clients := Function.update system.clients host handle
            calls := system.calls.eraseP (Exchange.isAbout lockService host page) }, .failed)
      | some (handle, .waiting) =>
          ({ system with clients := Function.update system.clients host handle },
            .event (.waiting call.ticket))
      | some (handle, .returned reply) =>
          -- The position of the message that the filter finds.
          let position := ((system.clients host).unprocessed replyKey).findIdx
            (pageLockReplyFilter page)
          match (system.arrived host)[position]? with
          | none => (system, .undefined)
          | some consumed =>
              ({ system with
                clients := Function.update system.clients host handle
                calls := system.calls.eraseP (Exchange.isAbout lockService host page)
                arrived := Function.update system.arrived host
                  ((system.arrived host).eraseIdx position) },
                .event (.returned call consumed reply))

def step (lockServerHost : HostName) (system : LockSystem) : Input → LockSystem × Outcome
  | .request host lockRequest padding => system.request lockServerHost host lockRequest padding
  | .deliver position storage => system.deliver lockServerHost position storage
  | .poll host page => system.poll host page

/-- The system as a machine. -/
def machine (lockServerHost : HostName) : Machine LockSystem Input Outcome where
  step := step lockServerHost

end LockSystem

end MultiMaster.LockProtocol
