import MultiMaster.Foundation.Channels
import MultiMaster.NetIO.ReplyingReceive

/-!
# Connection tables wired together

Every party has a table of connections.  A party sends to the first connection of an
address.  The party that listens at the address accepts the connection as a record of its
own table, and the bytes of the one record's output arrive in the input of the other.

The messages in flight are the channels of all this: what stands in the outputs and inputs
of the tables are the frames of the messages that were sent and not yet taken.
-/

namespace MultiMaster.NetIO

open Foundation

/-- Who sent a message, whom it is for, and its bytes. -/
structure Post (Name Message : Type) where
  source : Message → Name
  target : Message → Name
  bytes : Message → Bytes

/-- A connection: the record of the party that opened it, the record of the party that
accepted it, and how many of the bytes that the former has written have arrived. -/
structure Link (Name : Type) where
  opener : Name
  openerId : Nat
  accepter : Name
  accepterId : Nat
  carried : Nat
  deriving DecidableEq

variable {Name Message : Type} [DecidableEq Name]

/-- A record of a party. -/
abbrev RecordKey (Name : Type) := Name × Nat

namespace Link

def channel (link : Link Name) : RecordKey Name := (link.opener, link.openerId)

def ending (link : Link Name) : RecordKey Name := (link.accepter, link.accepterId)

end Link

/-- Messages in flight, each with the record it was written to. -/
abbrev Flying (Name Message : Type) := List (Option (RecordKey Name) × Message)

/-- The frames of `rest` are what has arrived and was not taken, with what has not arrived
yet. -/
structure Carries (sender receiver : BevInfor) (carried : Nat) (rest : List Bytes)
    (pending : Bytes) : Prop where
  within : carried ≤ sender.bev.output.length
  stream : pending ++ sender.bev.output.drop carried = controlFormat.frames rest
  countable : receiver.Countable
  aligned : Receiver.Aligned controlFormat receiver.view rest pending
  low : receiver.view.LowMatches

/-- The bytes of the messages on a channel. -/
def waiting (post : Post Name Message) (flying : Flying Name Message) (key : RecordKey Name) :
    List Bytes :=
  (onChannel key flying).map post.bytes

/-- The records of a connection and what stands between them. -/
structure Linked (post : Post Name Message) (listens : Name → Address)
    (record : RecordKey Name → Option BevInfor) (flying : Flying Name Message)
    (link : Link Name) (sender receiver : BevInfor) (pending : Bytes) : Prop where
  sends : record link.channel = some sender
  receives : record link.ending = some receiver
  opened : sender.isListen = false
  accepted : receiver.isListen = true
  address : sender.address = listens link.accepter
  carries : Carries sender receiver link.carried (waiting post flying link.channel) pending

/-- A message was written to the first connection of its sender to the address it is for. -/
structure SentOn (post : Post Name Message) (parties : List Name) (listens : Name → Address)
    (record : RecordKey Name → Option BevInfor) (key : RecordKey Name) (message : Message) :
    Prop where
  among : key.1 ∈ parties
  source : post.source message = key.1
  first : ∀ earlier info, earlier < key.2 → record (key.1, earlier) = some info →
    info.address ≠ listens (post.target message)

/-- The tables of all parties, the connections between them and the messages in flight
belong together. -/
structure Wiring (post : Post Name Message) (parties : List Name) (listens : Name → Address)
    (record : RecordKey Name → Option BevInfor) (links : List (Link Name))
    (flying : Flying Name Message) : Prop where
  free : ∀ key info, record key = some info → info.readSingal = 0
  ports : ∀ key info, record key = some info → 0 ≤ info.port ∧ info.port < 65536
  accepted : ∀ key info, record key = some info → info.isListen = true →
    ∀ party ∈ parties, info.address ≠ listens party
  sized : ∀ entry ∈ flying,
    0 < (post.bytes entry.2).length ∧ (post.bytes entry.2).length < 2 ^ 31
  addressed : ∀ key message, (some key, message) ∈ flying →
    post.target message ∈ parties ∧ ∃ info, record key = some info ∧ info.isListen = false ∧
      info.address = listens (post.target message)
  unlinked : ∀ key info, record key = some info → (∀ link ∈ links, link.channel ≠ key) →
    info.bev.output = controlFormat.frames (waiting post flying key)
  linked : ∀ link ∈ links, link.accepter ∈ parties ∧ ∃ sender receiver pending,
    Linked post listens record flying link sender receiver pending
  channels : (links.map Link.channel).Nodup
  endings : (links.map Link.ending).Nodup
  senders : ∀ key message, (some key, message) ∈ flying →
    SentOn post parties listens record key message

variable {post : Post Name Message} {parties : List Name} {listens : Name → Address}
variable {record : RecordKey Name → Option BevInfor} {links : List (Link Name)}
variable {flying : Flying Name Message} {key : RecordKey Name} {info : BevInfor}
variable {message : Message} {link : Link Name}

/-! ## Receivers -/

/-- More payloads may be due behind those that are. -/
theorem aligned_append {receiver : Receiver} {rest : List Bytes} {pending : Bytes}
    (aligned : Receiver.Aligned controlFormat receiver rest pending) (more : List Bytes) :
    Receiver.Aligned controlFormat receiver (rest ++ more) pending := by
  cases aligned with
  | header expected => exact .header expected
  | payload expected => exact .payload expected

namespace Carries

variable {sender receiver : BevInfor} {carried : Nat} {rest : List Bytes} {pending : Bytes}

/-- What has arrived of a stream is a beginning of it. -/
theorem within_frames (carries : Carries sender receiver carried rest pending) :
    pending <+: controlFormat.frames rest :=
  ⟨_, carries.stream⟩

/-- Another frame is written. -/
theorem write (carries : Carries sender receiver carried rest pending) (payload : Bytes) :
    Carries (sender.appendOutput (controlFormat.frame payload)) receiver carried
      (rest ++ [payload]) pending := by
  refine ⟨?_, ?_, carries.countable, aligned_append carries.aligned _, carries.low⟩
  · rw [BevInfor.appendOutput, List.length_append]
    exact Nat.le_add_right_of_le carries.within
  · rw [BevInfor.appendOutput, List.drop_append_of_le_length carries.within, ← List.append_assoc,
      carries.stream]
    simp

/-- Bytes that were written arrive. -/
theorem arrive (carries : Carries sender receiver carried rest pending) {count : Nat}
    (present : carried + count ≤ sender.bev.output.length)
    (fits : receiver.bev.input.length + count < 2 ^ 31) :
    Carries sender (LibeventHandle.grown receiver ((sender.bev.output.drop carried).take count))
      (carried + count) rest (pending ++ (sender.bev.output.drop carried).take count) := by
  have length : ((sender.bev.output.drop carried).take count).length = count := by
    rw [List.length_take, List.length_drop]
    omega
  refine ⟨present, ?_, LibeventHandle.countable_grown carries.countable (by rw [length]; exact fits),
    carries.aligned.arrive _, carries.low⟩
  rw [List.append_assoc, ← carries.stream, ← List.drop_drop, List.take_append_drop]

end Carries

/-! ## Adding and writing records -/

/-- What holds of a new entry and of all others holds of the entries after an update. -/
theorem forall_update {property : RecordKey Name → BevInfor → Prop}
    (new : property key info)
    (old : ∀ other known, record other = some known → property other known) :
    ∀ other known, Function.update record key (some info) other = some known →
      property other known := by
  intro other known found
  by_cases same : other = key
  · subst same
    rw [Function.update_self] at found
    cases found
    exact new
  · rw [Function.update_of_ne same] at found
    exact old other known found

/-- A record that changes was not of the address, or is of another table, or comes later. -/
theorem SentOn.update {other : RecordKey Name}
    (sent : SentOn post parties listens record other message)
    (harmless : key.1 = other.1 → key.2 < other.2 →
      info.address ≠ listens (post.target message)) :
    SentOn post parties listens (Function.update record key (some info)) other message := by
  refine ⟨sent.among, sent.source, ?_⟩
  intro earlier known before found
  by_cases same : (other.1, earlier) = key
  · subst same
    rw [Function.update_self] at found
    cases found
    exact harmless rfl before
  · rw [Function.update_of_ne same] at found
    exact sent.first earlier known before found

namespace Wiring

theorem nothing_on (wiring : Wiring post parties listens record links flying)
    (absent : record key = none) : onChannel key flying = [] := by
  apply List.eq_nil_iff_forall_not_mem.mpr
  intro message member
  rcases (wiring.addressed key message (mem_onChannel.mp member)).2 with ⟨info, found, _⟩
  rw [absent] at found
  cases found

/-- One more message is in flight. -/
theorem sized_concat (wiring : Wiring post parties listens record links flying)
    (sized : 0 < (post.bytes message).length ∧ (post.bytes message).length < 2 ^ 31)
    (tag : Option (RecordKey Name)) :
    ∀ entry ∈ flying ++ [(tag, message)],
      0 < (post.bytes entry.2).length ∧ (post.bytes entry.2).length < 2 ^ 31 := by
  intro entry member
  rcases List.mem_append.mp member with old | new
  · exact wiring.sized entry old
  · rw [List.mem_singleton.mp new]
    exact sized

/-- A message that is not put on a connection is lost. -/
theorem lose (wiring : Wiring post parties listens record links flying)
    (sized : 0 < (post.bytes message).length ∧ (post.bytes message).length < 2 ^ 31) :
    Wiring post parties listens record links (flying ++ [(none, message)]) := by
  have same : ∀ key, waiting post (flying ++ [(none, message)]) key = waiting post flying key := by
    intro key
    rw [waiting, onChannel_concat, if_neg (by simp), List.append_nil]
    rfl
  refine ⟨wiring.free, wiring.ports, wiring.accepted, wiring.sized_concat sized none, ?_, ?_, ?_,
    wiring.channels, wiring.endings, ?_⟩
  · intro key other member
    rcases List.mem_append.mp member with old | new
    · exact wiring.addressed key other old
    · cases List.mem_singleton.mp new
  · intro key info found alone
    rw [same]
    exact wiring.unlinked key info found alone
  · intro link member
    rcases wiring.linked link member with ⟨among, sender, receiver, pending, linked⟩
    refine ⟨among, sender, receiver, pending, linked.sends, linked.receives, linked.opened,
      linked.accepted, linked.address, ?_⟩
    rw [same]
    exact linked.carries
  · intro key other member
    rcases List.mem_append.mp member with old | new
    · exact wiring.senders key other old
    · cases List.mem_singleton.mp new

/-- A record without output is added behind those of its table. -/
theorem add (wiring : Wiring post parties listens record links flying)
    (absent : record key = none)
    (behind : ∀ index known, record (key.1, index) = some known → index < key.2) (free : info.readSingal = 0)
    (ports : 0 ≤ info.port ∧ info.port < 65536)
    (accepted : info.isListen = true → ∀ party ∈ parties, info.address ≠ listens party)
    (blank : info.bev.output = []) :
    Wiring post parties listens (Function.update record key (some info)) links flying := by
  have kept : ∀ other known, record other = some known →
      Function.update record key (some info) other = some known := by
    intro other known found
    rw [Function.update_of_ne, found]
    rintro rfl
    rw [absent] at found
    cases found
  refine ⟨forall_update free wiring.free, forall_update ports wiring.ports,
    forall_update accepted wiring.accepted, wiring.sized, ?_, forall_update ?_ wiring.unlinked,
    ?_, wiring.channels, wiring.endings, ?_⟩
  · intro other message member
    rcases wiring.addressed other message member with ⟨among, known, found, sending, address⟩
    exact ⟨among, known, kept other known found, sending, address⟩
  · intro alone
    rw [waiting, wiring.nothing_on absent, blank]
    rfl
  · intro link member
    rcases wiring.linked link member with ⟨among, sender, receiver, pending, linked⟩
    exact ⟨among, sender, receiver, pending, kept _ _ linked.sends, kept _ _ linked.receives,
      linked.opened, linked.accepted, linked.address, linked.carries⟩
  · intro other message member
    apply (wiring.senders other message member).update
    intro same before
    rcases (wiring.addressed other message member).2 with ⟨known, found, _⟩
    have after := behind other.2 known (by rw [same]; exact found)
    exact absurd before (Nat.lt_asymm after)

/-- A record that a connection ends at is not one that a connection begins at. -/
theorem ending_ne_channel (wiring : Wiring post parties listens record links flying)
    {other : Link Name} (member : link ∈ links) (among : other ∈ links) :
    link.ending ≠ other.channel := by
  rcases (wiring.linked link member).2 with ⟨_, receiver, _, linked⟩
  rcases (wiring.linked other among).2 with ⟨sender, _, _, otherLinked⟩
  intro same
  have receives := linked.receives
  rw [same, otherLinked.sends] at receives
  cases receives
  have listening := linked.accepted
  rw [otherLinked.opened] at listening
  cases listening

/-- Messages are only written to connections that the party has opened. -/
theorem opened_of_address (wiring : Wiring post parties listens record links flying)
    (found : record key = some info) {party : Name} (member : party ∈ parties)
    (address : info.address = listens party) : info.isListen = false := by
  cases listening : info.isListen with
  | false => rfl
  | true => exact absurd address (wiring.accepted key info found listening party member)

/-- A message is written to a connection of the address it is for. -/
theorem write (wiring : Wiring post parties listens record links flying)
    (found : record key = some info) (address : info.address = listens (post.target message))
    (target : post.target message ∈ parties)
    (sent : SentOn post parties listens record key message)
    (sized : 0 < (post.bytes message).length ∧ (post.bytes message).length < 2 ^ 31) :
    Wiring post parties listens
      (Function.update record key
        (some (info.appendOutput (controlFormat.frame (post.bytes message)))))
      links (flying ++ [(some key, message)]) := by
  have opened := wiring.opened_of_address found target address
  have here : waiting post (flying ++ [(some key, message)]) key =
      waiting post flying key ++ [post.bytes message] := by
    rw [waiting, onChannel_concat, if_pos rfl, List.map_append]
    rfl
  have elsewhere : ∀ other, other ≠ key →
      waiting post (flying ++ [(some key, message)]) other = waiting post flying other := by
    intro other different
    rw [waiting, onChannel_concat, if_neg (fun same => different (Option.some.inj same).symm),
      List.append_nil]
    rfl
  have free := wiring.free key info found
  have ports := wiring.ports key info found
  have accepted := wiring.accepted key info found
  refine ⟨forall_update free wiring.free, forall_update ports wiring.ports,
    forall_update accepted wiring.accepted, wiring.sized_concat sized (some key), ?_, ?_, ?_,
    wiring.channels, wiring.endings, ?_⟩
  · have present : ∀ other content, (some other, content) ∈ flying ++ [(some key, message)] →
        post.target content ∈ parties ∧ ∃ known, record other = some known ∧
          known.isListen = false ∧ known.address = listens (post.target content) := by
      intro other content member
      rcases List.mem_append.mp member with old | new
      · exact wiring.addressed other content old
      · cases List.mem_singleton.mp new
        exact ⟨target, info, found, opened, address⟩
    intro other content member
    rcases present other content member with ⟨among, known, there, sending, sameAddress⟩
    refine ⟨among, ?_⟩
    by_cases same : other = key
    · subst same
      cases there.symm.trans found
      exact ⟨_, Function.update_self _ _ _, sending, sameAddress⟩
    · exact ⟨known, (Function.update_of_ne same _ _).trans there, sending, sameAddress⟩
  · intro other known present alone
    by_cases same : other = key
    · subst same
      rw [Function.update_self] at present
      cases present
      rw [here]
      simp [BevInfor.appendOutput, wiring.unlinked other info found alone]
    · rw [Function.update_of_ne same] at present
      rw [elsewhere other same]
      exact wiring.unlinked other known present alone
  · intro link member
    rcases wiring.linked link member with ⟨among, sender, receiver, pending, linked⟩
    have apart : link.ending ≠ key := by
      rintro rfl
      have listening := linked.accepted
      cases linked.receives.symm.trans found
      rw [opened] at listening
      cases listening
    have receives : ∀ new, Function.update record key new link.ending = some receiver :=
      fun new => (Function.update_of_ne apart new record).trans linked.receives
    refine ⟨among, ?_⟩
    by_cases same : link.channel = key
    · subst same
      cases linked.sends.symm.trans found
      refine ⟨_, receiver, pending, Function.update_self _ _ _, receives _, opened,
        linked.accepted, linked.address, ?_⟩
      rw [here]
      exact linked.carries.write _
    · refine ⟨sender, receiver, pending, (Function.update_of_ne same _ _).trans linked.sends,
        receives _, linked.opened, linked.accepted, linked.address, ?_⟩
      rw [elsewhere _ same]
      exact linked.carries
  · intro other content member
    have before : SentOn post parties listens record other content := by
      rcases List.mem_append.mp member with old | new
      · exact wiring.senders other content old
      · cases List.mem_singleton.mp new
        exact sent
    apply before.update
    intro same earlier
    have there : record (other.1, key.2) = some info := by
      rw [← same]
      exact found
    exact before.first key.2 info earlier there

end Wiring

/-! ## Connections -/

/-- Replacing an element by one that a function does not tell from it. -/
theorem map_set_same {First Second : Type} {list : List First} {position : Nat}
    {old new : First} {view : First → Second} (there : list[position]? = some old)
    (same : view new = view old) : (list.set position new).map view = list.map view := by
  rcases List.getElem?_eq_some_iff.mp there with ⟨inside, rfl⟩
  rw [List.map_set, same]
  have inner : position < (list.map view).length := by rw [List.length_map]; exact inside
  rw [← List.getElem_map view (h := inner), List.set_getElem_self]

/-- Elements at different positions differ in what occurs once. -/
theorem view_ne_of_nodup {First Second : Type} {list : List First} {left right : Nat}
    {first second : First} {view : First → Second} (once : (list.map view).Nodup)
    (here : list[left]? = some first) (there : list[right]? = some second)
    (different : left ≠ right) : view first ≠ view second := by
  intro same
  have inside : left < (list.map view).length := by
    rw [List.length_map]
    exact (List.getElem?_eq_some_iff.mp here).1
  apply different
  apply (List.getElem?_inj inside once).mp
  rw [List.getElem?_map, List.getElem?_map, here, there, Option.map_some, Option.map_some, same]

namespace Wiring

/-- A party accepts a connection that was opened to it. -/
theorem accept (wiring : Wiring post parties listens record links flying)
    {opener accepter : Name} {openerId accepterId : Nat} {sender : BevInfor}
    (found : record (opener, openerId) = some sender) (opened : sender.isListen = false)
    (address : sender.address = listens accepter) (member : accepter ∈ parties)
    (unlinked : ∀ link ∈ links, link.channel ≠ (opener, openerId))
    (absent : record (accepter, accepterId) = none)
    (behind : ∀ index known, record (accepter, index) = some known → index < accepterId)
    {ip : CString} {port : Int}
    {fresh : Int × Bool} (ports : 0 ≤ port ∧ port < 65536) (uncached : fresh.2 = false)
    (other : ∀ party ∈ parties, (ip, port) ≠ listens party) :
    Wiring post parties listens
      (Function.update record (accepter, accepterId) (some (freshRecord ip port true fresh)))
      (links ++ [⟨opener, openerId, accepter, accepterId, 0⟩]) flying := by
  have added : Wiring post parties listens
      (Function.update record (accepter, accepterId) (some (freshRecord ip port true fresh)))
      links flying := wiring.add absent behind rfl ports (fun _ => other) rfl
  have apart : (opener, openerId) ≠ (accepter, accepterId) := by
    intro same
    rw [same, absent] at found
    cases found
  refine ⟨added.free, added.ports, added.accepted, added.sized, added.addressed, ?_, ?_, ?_, ?_,
    added.senders⟩
  · intro key info present alone
    exact added.unlinked key info present fun link among =>
      alone link (List.mem_append_left _ among)
  · intro link among
    rcases List.mem_append.mp among with old | new
    · exact added.linked link old
    · rw [List.mem_singleton.mp new]
      have stream := wiring.unlinked _ _ found unlinked
      have blank : (freshRecord ip port true fresh).Fresh := ⟨uncached, rfl, rfl⟩
      refine ⟨member, sender, _, [], (Function.update_of_ne apart _ _).trans found,
        Function.update_self _ _ _, opened, rfl, address, Nat.zero_le _, ?_, blank.countable, ?_, ?_⟩
      · rw [List.drop_zero, List.nil_append]
        exact stream
      · rw [blank.view_eq]
        exact .header rfl
      · rw [blank.view_eq]
        rfl
  · rw [List.map_append, List.nodup_append]
    refine ⟨wiring.channels, List.nodup_singleton _, ?_⟩
    intro key there other here
    rcases List.mem_map.mp there with ⟨link, among, rfl⟩
    rw [List.map_singleton, List.mem_singleton] at here
    rw [here]
    exact unlinked link among
  · rw [List.map_append, List.nodup_append]
    refine ⟨wiring.endings, List.nodup_singleton _, ?_⟩
    intro key there other here
    rcases List.mem_map.mp there with ⟨link, among, rfl⟩
    rw [List.map_singleton, List.mem_singleton] at here
    rw [here]
    rcases (wiring.linked link among).2 with ⟨_, receiver, _, linked⟩
    intro same
    have receives := linked.receives
    rw [same] at receives
    rw [Link.ending, absent] at receives
    cases receives

/-- The receiving end of a connection moves on: bytes arrive, or are taken out of the input
together with the messages they are the frames of. -/
theorem receive (wiring : Wiring post parties listens record links flying) {position : Nat}
    (there : links[position]? = some link) {sender receiver reached : BevInfor}
    {pending : Bytes} {later : Flying Name Message} {carried : Nat} {remaining : Bytes}
    (linked : Linked post listens record flying link sender receiver pending)
    (kept : receiver.SameSending reached) (free : reached.readSingal = 0)
    (fewer : ∀ entry ∈ later, entry ∈ flying)
    (others : ∀ key, key ≠ link.channel → onChannel key later = onChannel key flying)
    (carries : Carries sender reached carried (waiting post later link.channel) remaining) :
    Wiring post parties listens (Function.update record link.ending (some reached))
      (links.set position { link with carried := carried }) later := by
  have member := List.mem_of_getElem? there
  have inside := (List.getElem?_eq_some_iff.mp there).1
  have sameChannels : (links.set position { link with carried := carried }).map Link.channel =
      links.map Link.channel := map_set_same there rfl
  have sameEndings : (links.set position { link with carried := carried }).map Link.ending =
      links.map Link.ending := map_set_same there rfl
  have port : reached.port = receiver.port := congrArg Prod.snd kept.address
  have ports := wiring.ports _ _ linked.receives
  have accepted := wiring.accepted _ _ linked.receives
  rw [← port] at ports
  rw [← kept.isListen, ← kept.address] at accepted
  have elsewhere : ∀ key, key ≠ link.channel → waiting post later key = waiting post flying key :=
    fun key different => congrArg (List.map post.bytes) (others key different)
  refine ⟨forall_update free wiring.free, forall_update ports wiring.ports,
    forall_update accepted wiring.accepted, fun entry among => wiring.sized entry (fewer entry among),
    ?_, ?_, ?_, ?_, ?_, ?_⟩
  · intro key message among
    rcases wiring.addressed key message (fewer _ among) with ⟨target, info, found, opened, address⟩
    have apart : key ≠ link.ending := by
      rintro rfl
      cases found.symm.trans linked.receives
      rw [linked.accepted] at opened
      cases opened
    exact ⟨target, info, (Function.update_of_ne apart _ _).trans found, opened, address⟩
  · have alone : ∀ key, (∀ other ∈ links.set position { link with carried := carried },
        other.channel ≠ key) → ∀ other ∈ links, other.channel ≠ key := by
      intro key alone other among same
      have present : key ∈ links.map Link.channel := List.mem_map.mpr ⟨other, among, same⟩
      rw [← sameChannels] at present
      rcases List.mem_map.mp present with ⟨changed, amongChanged, sameChanged⟩
      exact alone changed amongChanged sameChanged
    apply forall_update
    · intro only
      rw [kept.output, elsewhere _ (wiring.ending_ne_channel member member)]
      exact wiring.unlinked _ _ linked.receives (alone _ only)
    · intro key info found only
      rw [elsewhere key (alone key only link member).symm]
      exact wiring.unlinked key info found (alone key only)
  · intro other among
    rcases List.mem_iff_getElem?.mp among with ⟨index, present⟩
    by_cases here : index = position
    · subst here
      rw [List.getElem?_set_self inside] at present
      cases present
      refine ⟨(wiring.linked link member).1, sender, reached, remaining,
        (Function.update_of_ne (wiring.ending_ne_channel member member).symm _ _).trans linked.sends,
        Function.update_self _ _ _, linked.opened, kept.isListen.trans linked.accepted,
        linked.address, carries⟩
    · rw [List.getElem?_set_ne (Ne.symm here)] at present
      have amongOld := List.mem_of_getElem? present
      rcases wiring.linked other amongOld with ⟨target, first, second, left, otherLinked⟩
      have channel := view_ne_of_nodup wiring.channels present there here
      have ending := view_ne_of_nodup wiring.endings present there here
      refine ⟨target, first, second, left,
        (Function.update_of_ne (wiring.ending_ne_channel member amongOld).symm _ _).trans
          otherLinked.sends,
        (Function.update_of_ne ending _ _).trans otherLinked.receives, otherLinked.opened,
        otherLinked.accepted, otherLinked.address, ?_⟩
      rw [elsewhere _ channel]
      exact otherLinked.carries
  · rw [sameChannels]
    exact wiring.channels
  · rw [sameEndings]
    exact wiring.endings
  · intro key message among
    have sent := wiring.senders key message (fewer _ among)
    apply sent.update
    intro same before
    have there : record (key.1, link.ending.2) = some receiver := by
      rw [← same]
      exact linked.receives
    rw [kept.address]
    exact sent.first link.ending.2 receiver before there

/-- Messages of one sender for one party are on one connection. -/
theorem same_channel (wiring : Wiring post parties listens record links flying)
    {other : RecordKey Name} {content : Message} (member : (some key, message) ∈ flying)
    (among : (some other, content) ∈ flying) (source : post.source message = post.source content)
    (target : post.target message = post.target content) : key = other := by
  have sent := wiring.senders key message member
  have sentOther := wiring.senders other content among
  rcases (wiring.addressed key message member).2 with ⟨info, found, _, address⟩
  rcases (wiring.addressed other content among).2 with ⟨known, there, _, otherAddress⟩
  have table : key.1 = other.1 := sent.source.symm.trans (source.trans sentOther.source)
  rcases Nat.lt_trichotomy key.2 other.2 with before | same | behind
  · have present : record (other.1, key.2) = some info := by
      rw [← table]
      exact found
    exact absurd (address.trans (congrArg listens target))
      (sentOther.first key.2 info before present)
  · exact Prod.ext table same
  · have present : record (key.1, other.2) = some known := by
      rw [table]
      exact there
    exact absurd (otherAddress.trans (congrArg listens target.symm))
      (sent.first other.2 known behind present)

end Wiring

end MultiMaster.NetIO
