import MultiMaster.LockTable.Core
import MultiMaster.NetIO.Transport

/-!
# Messages of the lock protocol

Requests and replies travel as the memory of their structs.  A request has 24 bytes,
the last four of which are padding; a reply has twelve.  The definitions follow
`lock_common.h`, `remote_page_lock_client.cc` and `remote_page_lock_manager.cc`.
-/

namespace MultiMaster.LockProtocol

open Foundation NetIO LockTable

/-! ## Structs in memory -/

/-- The four-byte word at an offset. -/
def wordAt (memory : Bytes) (offset : Nat) : UInt32 :=
  UInt32.ofNat (leValue (slice memory offset 4))

/-- The enumerator with a numeric value. -/
def lockTypeOf : Nat → Option PageLockType
  | 0 => some .rLock
  | 1 => some .wLock
  | 2 => some .unlock
  | _ => none

def replyTypeValue : PageReplyType → Nat
  | .lockSuccess => 0
  | .lockFail => 1
  | .unlockSuccess => 2
  | .unlockFail => 3

def replyTypeOf : Nat → Option PageReplyType
  | 0 => some .lockSuccess
  | 1 => some .lockFail
  | 2 => some .unlockSuccess
  | 3 => some .unlockFail
  | _ => none

/-- `sizeof(PageLockRequest)`. -/
def requestSize : Nat := 24

/-- `sizeof(PageLockReply)`. -/
def replySize : Nat := 12

/-- The memory of a request.  Nobody sets the padding. -/
def requestMemory (request : PageLockRequest) (padding : UInt32) : Bytes :=
  leBytes 4 request.spaceId.toNat ++ leBytes 4 request.pageNo.toNat ++
    leBytes 8 request.versionNo.toNat ++ leBytes 4 request.lockType.value ++
    leBytes 4 padding.toNat

def replyMemory (reply : PageLockReply) : Bytes :=
  leWords [reply.spaceId.toNat, reply.pageNo.toNat, replyTypeValue reply.replyType]

/-- The request in memory.  A lock type that is no enumerator is not read. -/
def requestOf (memory : Bytes) : Option PageLockRequest := do
  let lockType ← lockTypeOf (wordAt memory 16).toNat
  return ⟨wordAt memory 0, wordAt memory 4, UInt64.ofNat (leValue (slice memory 8 8)), lockType⟩

def replyOf (memory : Bytes) : Option PageLockReply := do
  let replyType ← replyTypeOf (wordAt memory 8).toNat
  return ⟨wordAt memory 0, wordAt memory 4, replyType⟩

@[simp] theorem length_requestMemory (request : PageLockRequest) (padding : UInt32) :
    (requestMemory request padding).length = requestSize := by
  simp [requestMemory, requestSize]

@[simp] theorem length_replyMemory (reply : PageLockReply) :
    (replyMemory reply).length = replySize := by
  simp [replyMemory, replySize]

/-- A word is read back from between what stands before and behind it. -/
theorem wordAt_append (front back : Bytes) (value : Nat) :
    wordAt (front ++ leBytes 4 value ++ back) front.length = UInt32.ofNat value := by
  have found := slice_append front (leBytes 4 value) back
  rw [length_leBytes] at found
  rw [wordAt, found, leValue_leBytes]
  apply UInt32.toNat_inj.mp
  simp

theorem requestOf_requestMemory (request : PageLockRequest) (padding : UInt32) :
    requestOf (requestMemory request padding) = some request := by
  have split : requestMemory request padding = leBytes 4 request.spaceId.toNat ++
      (leBytes 4 request.pageNo.toNat ++ (leBytes 8 request.versionNo.toNat ++
        (leBytes 4 request.lockType.value ++ leBytes 4 padding.toNat))) := by
    simp only [requestMemory, List.append_assoc]
  have space : wordAt (requestMemory request padding) 0 = request.spaceId := by
    rw [split]
    exact (wordAt_append [] _ _).trans UInt32.ofNat_toNat
  have page : wordAt (requestMemory request padding) 4 = request.pageNo := by
    have found := wordAt_append (leBytes 4 request.spaceId.toNat)
      (leBytes 8 request.versionNo.toNat ++ leBytes 4 request.lockType.value ++
        leBytes 4 padding.toNat) request.pageNo.toNat
    simpa [requestMemory] using found
  have version : UInt64.ofNat (leValue (slice (requestMemory request padding) 8 8)) =
      request.versionNo := by
    have found := slice_append
      (leBytes 4 request.spaceId.toNat ++ leBytes 4 request.pageNo.toNat)
      (leBytes 8 request.versionNo.toNat)
      (leBytes 4 request.lockType.value ++ leBytes 4 padding.toNat)
    have here : slice (requestMemory request padding) 8 8 =
        leBytes 8 request.versionNo.toNat := by
      simpa [requestMemory] using found
    rw [here, leValue_leBytes]
    apply UInt64.toNat_inj.mp
    simp
  have lockType : wordAt (requestMemory request padding) 16 =
      UInt32.ofNat request.lockType.value := by
    have found := wordAt_append (leBytes 4 request.spaceId.toNat ++
      leBytes 4 request.pageNo.toNat ++ leBytes 8 request.versionNo.toNat)
      (leBytes 4 padding.toNat) request.lockType.value
    simpa [requestMemory] using found
  have known : lockTypeOf (UInt32.ofNat request.lockType.value).toNat =
      some request.lockType := by
    cases request.lockType <;> rfl
  rw [requestOf, lockType, known, space, page, version]
  rfl

theorem wordAt_leWords (values : List Nat) (index : Nat) (inside : index < values.length) :
    wordAt (leWords values) (4 * index) = UInt32.ofNat values[index] := by
  have found := slice_leWords values [] index inside
  rw [List.append_nil] at found
  rw [wordAt, found, leValue_leBytes]
  apply UInt32.toNat_inj.mp
  simp

theorem wordAt_replyMemory_space (reply : PageLockReply) :
    wordAt (replyMemory reply) 0 = reply.spaceId :=
  (wordAt_leWords _ 0 (by simp)).trans UInt32.ofNat_toNat

theorem wordAt_replyMemory_page (reply : PageLockReply) :
    wordAt (replyMemory reply) 4 = reply.pageNo :=
  (wordAt_leWords _ 1 (by simp)).trans UInt32.ofNat_toNat

theorem replyOf_replyMemory (reply : PageLockReply) :
    replyOf (replyMemory reply) = some reply := by
  have type : wordAt (replyMemory reply) 8 = UInt32.ofNat (replyTypeValue reply.replyType) :=
    wordAt_leWords _ 2 (by simp)
  have known : replyTypeOf (UInt32.ofNat (replyTypeValue reply.replyType)).toNat =
      some reply.replyType := by
    cases reply.replyType <;> rfl
  rw [replyOf, type, known, wordAt_replyMemory_space, wordAt_replyMemory_page]
  rfl

end MultiMaster.LockProtocol
