import Mathlib.Data.List.AList
import MultiMaster.Foundation.Machine
import MultiMaster.NetIO.Codec

/-!
# Dispatching received messages

An `EventMessageHandle` knows, for each configured group and message type, a
callback and the list of messages that arrived while none was registered.  The
definitions follow `event_mess_handle.cc`.

Callbacks and their arguments are opaque values: running a callback is reported
as a result.  A computation returns `none` where the source reads through a bad
pointer or erases from the wrong list.
-/

namespace MultiMaster.NetIO

open Foundation

/-- A group name with a message type name. -/
abbrev MessKey := CString × CString

structure CallbackInfor (Callback Arg : Type) where
  cbFunction : Option Callback
  cbArg : Option Arg
  unprocessedMessList : List EventMessage

structure GroupInfor (Callback Arg : Type) where
  hostPortMap : AList fun _ : CString => Int
  messCallbackMap : AList fun _ : CString => CallbackInfor Callback Arg

structure EventMessageHandle (Callback Arg : Type) where
  localHostName : CString
  hostConfigMap : AList fun _ : CString => CString
  messGroupMap : AList fun _ : CString => GroupInfor Callback Arg

namespace EventMessageHandle

variable {Callback Arg : Type}

/-- The entry of a group and type, `mess_group_map[g]->mess_callback_map[t]`. -/
def callbackInfor? (handle : EventMessageHandle Callback Arg) (key : MessKey) :
    Option (CallbackInfor Callback Arg) := do
  let group ← handle.messGroupMap.lookup key.1
  group.messCallbackMap.lookup key.2

/-- Assign to the entry of a group and type that exists. -/
def setCallbackInfor (handle : EventMessageHandle Callback Arg) (key : MessKey)
    (infor : CallbackInfor Callback Arg) : EventMessageHandle Callback Arg :=
  match handle.messGroupMap.lookup key.1 with
  | none => handle
  | some group => { handle with
      messGroupMap := handle.messGroupMap.insert key.1
        { group with messCallbackMap := group.messCallbackMap.insert key.2 infor } }

/-- Are group and type of a message configured?  A failed check leaves its error
number in the message. -/
def checkMessType (handle : EventMessageHandle Callback Arg) (mess : EventMessage) :
    Option (Bool × EventMessage) := do
  let groupName ← mess.groupName.cString mess.bufferStr
  match handle.messGroupMap.lookup groupName with
  | none => return (false, { mess with errorNo := .groupNotFound })
  | some group =>
      let messType ← mess.messType.cString mess.bufferStr
      match group.messCallbackMap.lookup messType with
      | none => return (false, { mess with errorNo := .messTypeNotFound })
      | some _ => return (true, mess)

def registerReciveHandler (handle : EventMessageHandle Callback Arg)
    (groupName messType : CString) (cb : Option Callback) (arg : Option Arg) :
    Option (EventMessageHandle Callback Arg × Bool) := do
  let checked ← handle.checkMessType { EventMessage.clear with
    groupName := .outside groupName
    messType := .outside messType }
  if checked.1 then
    let infor ← handle.callbackInfor? (groupName, messType)
    return (handle.setCallbackInfor (groupName, messType)
      { infor with cbFunction := cb, cbArg := arg }, true)
  else
    return (handle, false)

/-- Hand a message to its callback, or keep a copy of it.  The result names the
callback that was run.  `storage` is the raw memory the copy is constructed in. -/
def tryRunCallback (handle : EventMessageHandle Callback Arg)
    (storage mess : EventMessage) :
    Option (EventMessageHandle Callback Arg × Option (Callback × Option Arg) × Bool) := do
  let checked ← handle.checkMessType mess
  if checked.1 then
    let groupName ← mess.groupName.cString mess.bufferStr
    let messType ← mess.messType.cString mess.bufferStr
    let infor ← handle.callbackInfor? (groupName, messType)
    match infor.cbFunction with
    | some cb => return (handle, some (cb, infor.cbArg), true)
    | none =>
        return (handle.setCallbackInfor (groupName, messType)
          { infor with
            unprocessedMessList := infor.unprocessedMessList ++ [storage.copy mess] },
          none, true)
  else
    return (handle, none, false)

/-- Erase one entry of an unprocessed list. -/
def eraseUnprocessed (handle : EventMessageHandle Callback Arg) (key : MessKey)
    (position : Nat) : Option (EventMessageHandle Callback Arg) := do
  let infor ← handle.callbackInfor? key
  if position < infor.unprocessedMessList.length then
    return handle.setCallbackInfor key { infor with
      unprocessedMessList := infor.unprocessedMessList.eraseIdx position }
  else
    none

/-- Oldest unprocessed message of the type the caller's message names: the handle,
the caller's message and the return value afterwards. -/
def readMessage (handle : EventMessageHandle Callback Arg) (mess : EventMessage) :
    Option (EventMessageHandle Callback Arg × EventMessage × Int) :=
  if mess.willRecive then do
    let checked ← handle.checkMessType mess
    if checked.1 then
      let groupName ← mess.groupName.cString mess.bufferStr
      let messType ← mess.messType.cString mess.bufferStr
      let infor ← handle.callbackInfor? (groupName, messType)
      match infor.unprocessedMessList with
      | [] => return (handle, { mess with errorNo := .noneUnprocessedMessage }, 0)
      | front :: _ =>
          -- The copy overwrites the type name by which the list is looked up next.
          let copied := mess.copy front
          let copiedType ← copied.messType.cString copied.bufferStr
          let erased ← handle.eraseUnprocessed (groupName, copiedType) 0
          return (erased, copied, 1)
    else
      return (handle, checked.2, -1)
  else
    some (handle, { mess with errorNo := .incompleteMessage }, -1)

/-- Oldest unprocessed message that a filter accepts. -/
def readMessageFiltered (handle : EventMessageHandle Callback Arg)
    (mess : EventMessage) (filter : EventMessage → Bool) :
    Option (EventMessageHandle Callback Arg × EventMessage × Int) :=
  if mess.willRecive then do
    let checked ← handle.checkMessType mess
    if checked.1 then
      let groupName ← mess.groupName.cString mess.bufferStr
      let messType ← mess.messType.cString mess.bufferStr
      let infor ← handle.callbackInfor? (groupName, messType)
      match infor.unprocessedMessList with
      | [] => return (handle, { mess with errorNo := .noneUnprocessedMessage }, 0)
      | _ :: _ =>
          match infor.unprocessedMessList.findIdx? filter with
          | none => return (handle, { mess with errorNo := .noneRequestedMessage }, 0)
          | some iter =>
              let found ← infor.unprocessedMessList[iter]?
              let copied := mess.copy found
              let copiedType ← copied.messType.cString copied.bufferStr
              -- The iterator is only valid for the list it was taken from.
              if copiedType = messType then
                let erased ← handle.eraseUnprocessed (groupName, copiedType) iter
                return (erased, copied, 1)
              else
                none
    else
      return (handle, checked.2, -1)
  else
    some (handle, { mess with errorNo := .incompleteMessage }, -1)

def getUnprocessedMessageCount (handle : EventMessageHandle Callback Arg)
    (groupName messType : CString) : Option UInt32 := do
  let checked ← handle.checkMessType { EventMessage.clear with
    groupName := .outside groupName
    messType := .outside messType }
  if checked.1 then
    let infor ← handle.callbackInfor? (groupName, messType)
    return UInt32.ofNat infor.unprocessedMessList.length
  else
    return 0

/-! ## The entry of a key -/

/-- The unprocessed list of a key, empty where the key is not configured. -/
def unprocessed (handle : EventMessageHandle Callback Arg) (key : MessKey) :
    List EventMessage :=
  match handle.callbackInfor? key with
  | none => []
  | some infor => infor.unprocessedMessList

/-- The callback registered for a key, with its argument. -/
def callback (handle : EventMessageHandle Callback Arg) (key : MessKey) :
    Option (Callback × Option Arg) :=
  match handle.callbackInfor? key with
  | none => none
  | some infor => infor.cbFunction.map fun cb => (cb, infor.cbArg)

/-- The group and type of the key are configured. -/
def Configured (handle : EventMessageHandle Callback Arg) (key : MessKey) : Prop :=
  (handle.callbackInfor? key).isSome

theorem unprocessed_of_found {handle : EventMessageHandle Callback Arg} {key : MessKey}
    {infor : CallbackInfor Callback Arg} (found : handle.callbackInfor? key = some infor) :
    handle.unprocessed key = infor.unprocessedMessList := by
  rw [unprocessed, found]

theorem callback_of_found {handle : EventMessageHandle Callback Arg} {key : MessKey}
    {infor : CallbackInfor Callback Arg} (found : handle.callbackInfor? key = some infor) :
    handle.callback key = infor.cbFunction.map fun cb => (cb, infor.cbArg) := by
  rw [callback, found]

/-- Assigning to an entry changes that entry only. -/
theorem callbackInfor?_setCallbackInfor {handle : EventMessageHandle Callback Arg}
    {key : MessKey} (configured : handle.Configured key)
    (infor : CallbackInfor Callback Arg) (other : MessKey) :
    (handle.setCallbackInfor key infor).callbackInfor? other =
      if other = key then some infor else handle.callbackInfor? other := by
  rcases key with ⟨groupName, messType⟩
  rcases other with ⟨otherGroup, otherType⟩
  simp only [Configured, callbackInfor?] at configured
  cases found : handle.messGroupMap.lookup groupName with
  | none => simp [found] at configured
  | some group =>
      simp only [setCallbackInfor, callbackInfor?, found, Prod.mk.injEq]
      by_cases sameGroup : otherGroup = groupName
      · subst otherGroup
        rw [AList.lookup_insert]
        by_cases sameType : otherType = messType
        · subst otherType
          simp
        · simp [sameType, found]
      · rw [AList.lookup_insert_ne sameGroup]
        simp [sameGroup]

end EventMessageHandle

/-! ## Interleaved operations -/

/-- The operations of a handle, each taken as one atomic step. -/
inductive HandleOp (Callback Arg : Type) where
  | arrive (storage mess : EventMessage)
  | register (groupName messType : CString) (cb : Option Callback) (arg : Option Arg)
  | read (mess : EventMessage)
  | readFiltered (mess : EventMessage) (filter : EventMessage → Bool)

/-- What an operation reports: the callback a message was passed to, that it was
queued or rejected, or the return value of a call with the caller's message. -/
inductive OpResult (Callback Arg : Type) where
  | handled (cb : Callback) (arg : Option Arg) (mess : EventMessage)
  | queued
  | rejected
  | registered (ok : Bool)
  | read (returned : Int) (mess : EventMessage)

namespace EventMessageHandle

variable {Callback Arg : Type}

def runOp (handle : EventMessageHandle Callback Arg) :
    HandleOp Callback Arg →
      Option (EventMessageHandle Callback Arg × OpResult Callback Arg)
  | .arrive storage mess => do
      let ran ← handle.tryRunCallback storage mess
      match ran with
      | (after, some (cb, arg), _) => return (after, .handled cb arg mess)
      | (after, none, true) => return (after, .queued)
      | (after, none, false) => return (after, .rejected)
  | .register groupName messType cb arg => do
      let registered ← handle.registerReciveHandler groupName messType cb arg
      return (registered.1, .registered registered.2)
  | .read mess => do
      let result ← handle.readMessage mess
      return (result.1, .read result.2.2 result.2.1)
  | .readFiltered mess filter => do
      let result ← handle.readMessageFiltered mess filter
      return (result.1, .read result.2.2 result.2.1)

/-- The handle as a machine.  An undefined operation is answered by `none`. -/
def dispatcher (Callback Arg : Type) :
    Machine (EventMessageHandle Callback Arg) (HandleOp Callback Arg)
      (Option (OpResult Callback Arg)) where
  step handle op :=
    match handle.runOp op with
    | none => (handle, none)
    | some (after, result) => (after, some result)

end EventMessageHandle

end MultiMaster.NetIO
