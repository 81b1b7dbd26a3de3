import MultiMaster.Foundation.Assignments
import MultiMaster.NetIO.Transport
import MultiMaster.Packet.AnyJson

/-!
# Configuration

`init_handle` reads two documents: which hosts there are and which of them the process runs
on, and the message groups with the ports of the hosts and the message types.  The
definitions follow `read_config` and `init_group_infor_map` in `event_mess_handle.cc` and the
accessors of `document.h`.

Documents are taken as parsed.  A computation returns `none` where an assertion of a document
fails.
-/

namespace MultiMaster.Packet

open Foundation

/-! ## Access to documents -/

def JsonElements.toList : JsonElements → List Json
  | .nil => []
  | .cons first rest => first :: rest.toList

/-- `FindMember`: the first member of a name. -/
def JsonMembers.find? (name : Bytes) : JsonMembers → Option Json
  | .nil => none
  | .cons key first rest => if name = key then some first else rest.find? name

namespace Json

/-- `operator[]` with a name. -/
def member (name : String) : Json → Option Json
  | .object members => members.find? (literal name)
  | .scalar _ | .uint _ | .string _ | .array _ => none

/-- `GetString` as the source uses it, up to the first terminator. -/
def getString : Json → Option CString
  | .string value => some (CString.read value)
  | .scalar _ | .uint _ | .array _ | .object _ => none

def getBool : Json → Option Bool
  | .scalar (.bool value) => some value
  | .scalar _ | .uint _ | .string _ | .array _ | .object _ => none

/-- `GetInt`.  A number from 2^31 on is not an `int`. -/
def getInt : Json → Option Int
  | .scalar (.int value) => some value
  | .uint value => if value.toNat < 2 ^ 31 then some value.toNat else none
  | .scalar _ | .string _ | .array _ | .object _ => none

def getArray : Json → Option (List Json)
  | .array elements => some elements.toList
  | .scalar _ | .uint _ | .string _ | .object _ => none

end Json

end MultiMaster.Packet

namespace MultiMaster.NetIO

open Foundation Packet

/-- The documents that `init_handle` reads. -/
structure ConfigFiles where
  hostConfig : Json
  messConfig : Json

/-- What `new GroupInfor` creates beside the maps of the group: the object, numbered in the
order of creation, and its libevent handle with the port that it listens at. -/
structure GroupObject where
  object : Nat
  localPort : Int
  handle : LibeventHandle

/-- What a group object listens with. -/
def GroupObject.listening (group : GroupObject) : Int × LibeventHandle :=
  (group.localPort, group.handle)

/-- An `EventMessageHandle` with the objects of its groups. -/
structure ProcessHandle (Callback Arg : Type) where
  thisFree : Bool
  messages : EventMessageHandle Callback Arg
  objects : AList fun _ : CString => GroupObject
  created : Nat

namespace ProcessHandle

variable {Callback Arg : Type}

/-- The constructor. -/
def fresh : ProcessHandle Callback Arg where
  thisFree := true
  messages := ⟨.ofString "", ∅, ∅⟩
  objects := ∅
  created := 0

/-! ## The source -/

/-- One round of the loop in `read_config`. -/
def enterHost (messages : EventMessageHandle Callback Arg) (host : Json) :
    Option (EventMessageHandle Callback Arg) := do
  let hostName ← (← host.member "name").getString
  let hostIp ← (← host.member "ip").getString
  let isLocal ← (← host.member "is_local").getBool
  return { messages with
    localHostName := if isLocal then hostName else messages.localHostName
    hostConfigMap := messages.hostConfigMap.insert hostName hostIp }

def enterPort (hostPortMap : AList fun _ : CString => Int) (hostItem : Json) :
    Option (AList fun _ : CString => Int) := do
  let hostName ← (← hostItem.member "name").getString
  let port ← (← hostItem.member "port").getInt
  return hostPortMap.insert hostName port

def enterMessType (messCallbackMap : AList fun _ : CString => CallbackInfor Callback Arg)
    (messType : Json) : Option (AList fun _ : CString => CallbackInfor Callback Arg) := do
  let name ← (← messType.member "name").getString
  return messCallbackMap.insert name ⟨none, none, []⟩

/-- `host_port_map[local_host_name]`.  A missing host is entered with port zero. -/
def takeLocalPort (hostPortMap : AList fun _ : CString => Int) (localHostName : CString) :
    (AList fun _ : CString => Int) × Int :=
  match hostPortMap.lookup localHostName with
  | some port => (hostPortMap, port)
  | none => (hostPortMap.insert localHostName 0, 0)

/-- One round of the loop in `init_group_infor_map`. -/
def initGroupInfor (handle : ProcessHandle Callback Arg) (group : Json) :
    Option (ProcessHandle Callback Arg) := do
  let groupName ← (← group.member "group_name").getString
  let hostItems ← (← group.member "hosts").getArray
  let hostPortMap ← hostItems.foldlM enterPort ∅
  let (hostPortMap, localPort) := takeLocalPort hostPortMap handle.messages.localHostName
  let messTypes ← (← group.member "mess_type").getArray
  let messCallbackMap ← messTypes.foldlM enterMessType ∅
  return { handle with
    messages := { handle.messages with
      messGroupMap := handle.messages.messGroupMap.insert groupName
        ⟨hostPortMap, messCallbackMap⟩ }
    objects := handle.objects.insert groupName ⟨handle.created, localPort, .initHandle⟩
    created := handle.created + 1 }

def initGroupInforMap (handle : ProcessHandle Callback Arg) (messConfigDoc : Json) :
    Option (ProcessHandle Callback Arg) := do
  (← messConfigDoc.getArray).foldlM initGroupInfor handle

def readConfig (handle : ProcessHandle Callback Arg) (files : ConfigFiles) :
    Option (ProcessHandle Callback Arg) := do
  let messages ← (← files.hostConfig.getArray).foldlM enterHost handle.messages
  initGroupInforMap { handle with messages := messages } files.messConfig

/-- A handle that is in use stays as it is. -/
def initHandle (handle : ProcessHandle Callback Arg) (files : ConfigFiles) :
    Option (ProcessHandle Callback Arg) :=
  if handle.thisFree then
    readConfig { handle with thisFree := false } files
  else
    some handle

end ProcessHandle

/-! ## What the documents say -/

/-- A host of the host document. -/
structure HostEntry where
  name : CString
  ip : CString
  isLocal : Bool

/-- A group of the message document. -/
structure GroupEntry where
  name : CString
  ports : List (CString × Int)
  types : List CString

/-- The entries of both documents, in their order. -/
structure Configuration where
  hosts : List HostEntry
  groups : List GroupEntry

def hostFields? (host : Json) : Option HostEntry := do
  return ⟨← (← host.member "name").getString, ← (← host.member "ip").getString,
    ← (← host.member "is_local").getBool⟩

def portFields? (hostItem : Json) : Option (CString × Int) := do
  return (← (← hostItem.member "name").getString, ← (← hostItem.member "port").getInt)

def typeName? (messType : Json) : Option CString := do
  (← messType.member "name").getString

def groupFields? (group : Json) : Option GroupEntry := do
  return ⟨← (← group.member "group_name").getString,
    ← (← (← group.member "hosts").getArray).mapM portFields?,
    ← (← (← group.member "mess_type").getArray).mapM typeName?⟩

/-- The entries of documents that have the form that `read_config` expects. -/
def ConfigFiles.configuration? (files : ConfigFiles) : Option Configuration := do
  return ⟨← (← files.hostConfig.getArray).mapM hostFields?,
    ← (← files.messConfig.getArray).mapM groupFields?⟩

namespace GroupEntry

/-- The port that the group gives a host. -/
def port? (group : GroupEntry) (host : CString) : Option Int := lastEntry group.ports host

/-- The port that a process on a host listens at. -/
def localPort (group : GroupEntry) (host : CString) : Int := (group.port? host).getD 0

end GroupEntry

namespace Configuration

/-- The last host that is marked as local. -/
def localHost? (configuration : Configuration) : Option CString :=
  (configuration.hosts.reverse.find? HostEntry.isLocal).map HostEntry.name

/-- The address of a host. -/
def ip? (configuration : Configuration) (host : CString) : Option CString :=
  lastEntry (configuration.hosts.map fun entry => (entry.name, entry.ip)) host

/-- The last group of a name. -/
def group? (configuration : Configuration) (name : CString) : Option GroupEntry :=
  lastEntry (configuration.groups.map fun entry => (entry.name, entry)) name

end Configuration

/-! ## Reading follows the entries -/

section Entering

variable {Callback Arg : Type}

namespace EventMessageHandle

def putHost (messages : EventMessageHandle Callback Arg) (entry : HostEntry) :
    EventMessageHandle Callback Arg :=
  { messages with
    localHostName := if entry.isLocal then entry.name else messages.localHostName
    hostConfigMap := messages.hostConfigMap.insert entry.name entry.ip }

/-- The maps of a group on a host. -/
def inforOf (localHostName : CString) (entry : GroupEntry) : GroupInfor Callback Arg :=
  ⟨(ProcessHandle.takeLocalPort (assign ∅ entry.ports) localHostName).1,
    assign ∅ (entry.types.map fun type => (type, ⟨none, none, []⟩))⟩

theorem enterHost_eq (messages : EventMessageHandle Callback Arg) (host : Json) :
    ProcessHandle.enterHost messages host = (hostFields? host).map messages.putHost := by
  simp only [ProcessHandle.enterHost, hostFields?, Option.bind_eq_bind, Option.map_eq_bind,
    Option.bind_assoc, Option.pure_def, Option.bind_some]
  rfl

end EventMessageHandle

namespace ProcessHandle

open EventMessageHandle

def putGroup (handle : ProcessHandle Callback Arg) (entry : GroupEntry) :
    ProcessHandle Callback Arg :=
  { handle with
    messages := { handle.messages with
      messGroupMap := handle.messages.messGroupMap.insert entry.name
        (inforOf handle.messages.localHostName entry) }
    objects := handle.objects.insert entry.name
      ⟨handle.created, entry.localPort handle.messages.localHostName, .initHandle⟩
    created := handle.created + 1 }

/-- A handle that the entries of both documents are put into. -/
def configure (handle : ProcessHandle Callback Arg) (configuration : Configuration) :
    ProcessHandle Callback Arg :=
  configuration.groups.foldl putGroup
    { handle with messages := configuration.hosts.foldl putHost handle.messages }

theorem takeLocalPort_snd (entry : GroupEntry) (localHostName : CString) :
    (takeLocalPort (assign ∅ entry.ports) localHostName).2 = entry.localPort localHostName := by
  rw [takeLocalPort, lookup_assign_empty, GroupEntry.localPort, GroupEntry.port?]
  cases lastEntry entry.ports localHostName with
  | none => rfl
  | some port => rfl

theorem foldlM_enterPort (hostItems : List Json) :
    (hostItems.foldlM enterPort ∅ : Option (AList fun _ : CString => Int)) =
      (hostItems.mapM portFields?).map (assign ∅) := by
  refine foldlM_read ?_ hostItems ∅
  intro hostPortMap hostItem
  simp only [enterPort, portFields?, Option.bind_eq_bind, Option.map_eq_bind, Option.bind_assoc,
    Option.pure_def, Option.bind_some]
  rfl

theorem foldlM_enterMessType (messTypes : List Json) :
    (messTypes.foldlM enterMessType ∅ :
        Option (AList fun _ : CString => CallbackInfor Callback Arg)) =
      (messTypes.mapM typeName?).map fun types =>
        assign ∅ (types.map fun type => (type, ⟨none, none, []⟩)) := by
  simp only [assign, List.foldl_map]
  refine foldlM_read ?_ messTypes ∅
  intro messCallbackMap messType
  simp only [enterMessType, typeName?, Option.bind_eq_bind, Option.map_eq_bind,
    Option.bind_assoc, Option.pure_def]
  rfl

theorem initGroupInfor_eq (handle : ProcessHandle Callback Arg) (group : Json) :
    handle.initGroupInfor group = (groupFields? group).map handle.putGroup := by
  simp only [initGroupInfor, groupFields?, foldlM_enterPort, foldlM_enterMessType,
    Option.bind_eq_bind, Option.map_eq_bind, Option.bind_assoc, Option.pure_def,
    Option.bind_some, Function.comp_apply]
  simp only [putGroup, ← takeLocalPort_snd]
  rfl

/-- Both documents are read before anything is entered. -/
theorem readConfig_eq (handle : ProcessHandle Callback Arg) (files : ConfigFiles) :
    handle.readConfig files = files.configuration?.map handle.configure := by
  simp only [readConfig, initGroupInforMap, ConfigFiles.configuration?, foldlM_read enterHost_eq,
    foldlM_read initGroupInfor_eq, Option.bind_eq_bind, Option.map_eq_bind, Option.bind_assoc,
    Option.pure_def, Option.bind_some, Function.comp_apply]
  rfl

/-! ## A configured handle -/

variable (handle : ProcessHandle Callback Arg) (configuration : Configuration)

theorem foldl_putHost (messages : EventMessageHandle Callback Arg) (hosts : List HostEntry) :
    hosts.foldl putHost messages = { messages with
      localHostName :=
        ((hosts.reverse.find? HostEntry.isLocal).map HostEntry.name).getD messages.localHostName
      hostConfigMap :=
        assign messages.hostConfigMap (hosts.map fun entry => (entry.name, entry.ip)) } := by
  induction hosts using List.reverseRecOn with
  | nil => rfl
  | append_singleton hosts entry ih =>
      rw [List.foldl_append, ih, List.reverse_append, List.reverse_singleton,
        List.singleton_append, List.find?_cons, List.map_append, List.map_singleton,
        assign_concat]
      cases isLocal : entry.isLocal with
      | true => simp only [List.foldl_cons, List.foldl_nil, putHost, isLocal]; rfl
      | false => simp only [List.foldl_cons, List.foldl_nil, putHost, isLocal]; rfl

theorem messages_foldl_putGroup (groups : List GroupEntry) :
    (groups.foldl putGroup handle).messages = { handle.messages with
      messGroupMap := assign handle.messages.messGroupMap
        (groups.map fun entry => (entry.name, inforOf handle.messages.localHostName entry)) } := by
  induction groups using List.reverseRecOn with
  | nil => rfl
  | append_singleton groups entry ih =>
      rw [List.foldl_append, List.map_append, List.map_singleton, assign_concat]
      simp only [List.foldl_cons, List.foldl_nil, putGroup, ih]

/-- The process runs on the last local host, or on the host from before. -/
theorem configure_localHostName : (handle.configure configuration).messages.localHostName =
    configuration.localHost?.getD handle.messages.localHostName := by
  rw [configure, messages_foldl_putGroup, foldl_putHost]
  rfl

theorem configure_getIp (host : CString) : (handle.configure configuration).messages.getIp host =
    (configuration.ip? host).or (handle.messages.getIp host) := by
  rw [configure, messages_foldl_putGroup, foldl_putHost]
  exact lookup_assign _ _ _

/-- A group is that of its last entry. -/
theorem configure_messGroupMap (name : CString) :
    (handle.configure configuration).messages.messGroupMap.lookup name =
      ((configuration.group? name).map
        (inforOf (handle.configure configuration).messages.localHostName)).or
        (handle.messages.messGroupMap.lookup name) := by
  rw [configure, messages_foldl_putGroup, foldl_putHost]
  dsimp only
  rw [lookup_assign, lastEntry_map]
  rfl

theorem objects_foldl_putGroup (groups : List GroupEntry) (name : CString) :
    ((groups.foldl putGroup handle).objects.lookup name).map GroupObject.listening =
      ((lastEntry (groups.map fun entry => (entry.name, entry)) name).map fun entry =>
        (entry.localPort handle.messages.localHostName, LibeventHandle.initHandle)).or
        ((handle.objects.lookup name).map GroupObject.listening) := by
  induction groups using List.reverseRecOn with
  | nil => rfl
  | append_singleton groups entry ih =>
      rw [List.foldl_append, List.map_append, List.map_singleton, lastEntry_concat]
      simp only [List.foldl_cons, List.foldl_nil, putGroup, messages_foldl_putGroup]
      by_cases same : name = entry.name
      · rw [if_pos same, same, AList.lookup_insert]
        rfl
      · rw [if_neg same, AList.lookup_insert_ne same, ih]

/-- A group listens at the port of the local host in its last entry. -/
theorem configure_objects (name : CString) :
    ((handle.configure configuration).objects.lookup name).map GroupObject.listening =
      ((configuration.group? name).map fun entry =>
        (entry.localPort (handle.configure configuration).messages.localHostName,
          LibeventHandle.initHandle)).or
        ((handle.objects.lookup name).map GroupObject.listening) := by
  rw [configure_localHostName, configure, objects_foldl_putGroup, foldl_putHost]
  rfl

/-! ### Entries of a group -/

variable (localHostName : CString) (entry : GroupEntry)

/-- The ports of a group are those of the entries.  The local host has port zero where it
has no entry. -/
theorem lookup_hostPortMap (host : CString) :
    (inforOf localHostName entry : GroupInfor Callback Arg).hostPortMap.lookup host =
      (entry.port? host).or (if host = localHostName then some 0 else none) := by
  rw [inforOf, takeLocalPort, lookup_assign_empty]
  cases found : lastEntry entry.ports localHostName with
  | none =>
      by_cases same : host = localHostName
      · rw [same, AList.lookup_insert, GroupEntry.port?, found, if_pos rfl]
        rfl
      · rw [AList.lookup_insert_ne same, lookup_assign_empty, if_neg same, Option.or_none]
        rfl
  | some port =>
      rw [lookup_assign_empty]
      by_cases same : host = localHostName
      · rw [same, GroupEntry.port?, found]
        rfl
      · rw [if_neg same, Option.or_none]
        rfl

/-- The types of a group have no callback and no messages at first. -/
theorem lookup_messCallbackMap (type : CString) :
    (inforOf localHostName entry : GroupInfor Callback Arg).messCallbackMap.lookup type =
      if type ∈ entry.types then some ⟨none, none, []⟩ else none := by
  rw [inforOf, lookup_assign_empty]
  induction entry.types using List.reverseRecOn with
  | nil => rfl
  | append_singleton types last ih =>
      rw [List.map_append, List.map_singleton, lastEntry_concat, ih]
      by_cases same : type = last
      · rw [if_pos same, if_pos (List.mem_append_right _ (List.mem_singleton.mpr same))]
      · rw [if_neg same]
        by_cases member : type ∈ types
        · rw [if_pos member, if_pos (List.mem_append_left _ member)]
        · rw [if_neg member, if_neg]
          intro later
          rcases List.mem_append.mp later with before | isLast
          · exact member before
          · exact same (List.mem_singleton.mp isLast)

end ProcessHandle

end Entering

/-! ## The first configuration of a handle -/

section First

variable {Callback Arg : Type}

theorem EventMessageHandle.registerReciveHandler_addresses
    {handle after : EventMessageHandle Callback Arg} {groupName messType : CString}
    {cb : Option Callback} {arg : Option Arg} {ok : Bool}
    (done : handle.registerReciveHandler groupName messType cb arg = some (after, ok)) :
    SameAddresses handle after := by
  rcases Option.bind_eq_some_iff.mp done with ⟨checked, _, rest⟩
  split at rest
  · rcases Option.bind_eq_some_iff.mp rest with ⟨infor, _, registered⟩
    cases registered
    exact setCallbackInfor_addresses _ _
  · cases rest
    exact .refl

/-- The host that a process takes itself to run on. -/
def Configuration.localHost (configuration : Configuration) : CString :=
  configuration.localHost?.getD (.ofString "")

theorem EventMessageHandle.configured_of_callback {handle : EventMessageHandle Callback Arg}
    {key : MessKey} {registered : Callback × Option Arg}
    (found : handle.callback key = some registered) : handle.Configured key := by
  rw [callback] at found
  rw [Configured]
  cases entry : handle.callbackInfor? key with
  | none =>
      rw [entry] at found
      cases found
  | some infor => rfl

/-- A handle that `init_handle` has set up from an unused one. -/
def Configuration.handle (configuration : Configuration) : ProcessHandle Callback Arg :=
  ProcessHandle.configure { ProcessHandle.fresh with thisFree := false } configuration

theorem initHandle_fresh (files : ConfigFiles) :
    (ProcessHandle.fresh : ProcessHandle Callback Arg).initHandle files =
      files.configuration?.map Configuration.handle := by
  rw [ProcessHandle.initHandle, ProcessHandle.fresh, if_pos rfl, ProcessHandle.readConfig_eq]
  rfl

/-- A message handle has the names, addresses and types of a configuration, and no
messages. -/
structure Configuration.Describes (configuration : Configuration)
    (messages : EventMessageHandle Callback Arg) : Prop where
  name : messages.localHostName = configuration.localHost
  ip : ∀ host, messages.getIp host = configuration.ip? host
  port : ∀ host groupName, messages.port? host groupName =
    (configuration.group? groupName).bind fun group =>
      (group.port? host).or (if host = configuration.localHost then some 0 else none)
  types : ∀ key : MessKey, messages.Configured key ↔
    ∃ group, configuration.group? key.1 = some group ∧ key.2 ∈ group.types
  empty : ∀ key, messages.unprocessed key = []

namespace Configuration

variable (configuration : Configuration)

theorem handle_localHostName :
    (configuration.handle : ProcessHandle Callback Arg).messages.localHostName =
      configuration.localHost :=
  ProcessHandle.configure_localHostName _ configuration

theorem handle_messGroupMap (name : CString) :
    (configuration.handle : ProcessHandle Callback Arg).messages.messGroupMap.lookup name =
      (configuration.group? name).map
        (EventMessageHandle.inforOf configuration.localHost) := by
  rw [handle, ProcessHandle.configure_messGroupMap, ← handle, handle_localHostName]
  exact Option.or_none

theorem handle_callbackInfor (key : MessKey) :
    (configuration.handle : ProcessHandle Callback Arg).messages.callbackInfor? key =
      (configuration.group? key.1).bind fun group =>
        if key.2 ∈ group.types then some ⟨none, none, []⟩ else none := by
  rw [EventMessageHandle.callbackInfor?, handle_messGroupMap]
  cases configuration.group? key.1 with
  | none => rfl
  | some group => exact ProcessHandle.lookup_messCallbackMap _ group key.2

/-- An entry of a configured handle has no callback and no messages. -/
theorem handle_idle : (configuration.handle : ProcessHandle Callback Arg).messages.Idle := by
  intro key
  rw [EventMessageHandle.callback, EventMessageHandle.unprocessed, handle_callbackInfor]
  cases configuration.group? key.1 with
  | none => exact ⟨rfl, rfl⟩
  | some group =>
      by_cases member : key.2 ∈ group.types
      · rw [Option.bind_some, if_pos member]
        exact ⟨rfl, rfl⟩
      · rw [Option.bind_some, if_neg member]
        exact ⟨rfl, rfl⟩

theorem handle_describes :
    configuration.Describes (configuration.handle : ProcessHandle Callback Arg).messages := by
  refine ⟨handle_localHostName configuration, ?_, ?_, ?_,
    fun key => (handle_idle configuration key).2⟩
  · intro host
    rw [handle, ProcessHandle.configure_getIp]
    exact Option.or_none
  · intro host groupName
    rw [EventMessageHandle.port?, handle_messGroupMap]
    cases configuration.group? groupName with
    | none => rfl
    | some group => exact ProcessHandle.lookup_hostPortMap _ group host
  · intro key
    rw [EventMessageHandle.Configured, handle_callbackInfor]
    cases configuration.group? key.1 with
    | none => simp
    | some group =>
        by_cases member : key.2 ∈ group.types
        · simp [member]
        · simp [member]

/-- Every group listens with a libevent handle of its own that has no connections. -/
theorem handle_listening (name : CString) :
    ((configuration.handle : ProcessHandle Callback Arg).objects.lookup name).map
        GroupObject.listening =
      (configuration.group? name).map fun group =>
        (group.localPort configuration.localHost, LibeventHandle.initHandle) := by
  rw [handle, ProcessHandle.configure_objects, ← handle, handle_localHostName]
  exact Option.or_none

variable {configuration} {messages after : EventMessageHandle Callback Arg}

/-- Registering a callback keeps names, addresses and types. -/
theorem Describes.register (describes : configuration.Describes messages)
    {groupName messType : CString} {cb : Option Callback} {arg : Option Arg} {ok : Bool}
    (done : messages.registerReciveHandler groupName messType cb arg = some (after, ok)) :
    configuration.Describes after := by
  rcases messages.registerReciveHandler_effect groupName messType cb arg with
    ⟨changed, answer, registered, lists, configured, _⟩
  rw [done] at registered
  cases registered
  have addresses : EventMessageHandle.SameAddresses messages after :=
    EventMessageHandle.registerReciveHandler_addresses done
  refine ⟨addresses.localHostName.trans describes.name, ?_, ?_, ?_, ?_⟩
  · intro host
    rw [← describes.ip host, EventMessageHandle.getIp, addresses.hostConfigMap]
    rfl
  · intro host name
    rw [addresses.port, describes.port]
  · intro key
    rw [configured, describes.types]
  · intro key
    rw [lists, describes.empty]

end Configuration

end First

end MultiMaster.NetIO
