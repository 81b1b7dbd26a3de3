import MultiMaster.NetIO.Endpoints
import MultiMaster.NetIO.Wiring

/-!
# Parties wired by their libevent handles

Sending, accepting and receiving on the libevent handles of several parties keep the wiring
of their tables.  A read callback takes messages from one connection, in the order in which
they were sent on it, and may send further messages before it takes the next one.
-/

namespace MultiMaster.NetIO

open Foundation

variable {Name Message : Type} [DecidableEq Name]

/-- The records in the tables of all parties. -/
def recordOf (nets : Name → LibeventHandle) (key : RecordKey Name) : Option BevInfor :=
  (nets key.1).bevMap.lookup (key.2 : Int)

/-- The handles of all parties between two calls, with the connections between them and the
messages in flight. -/
structure Wired (post : Post Name Message) (parties : List Name) (listens : Name → Address)
    (nets : Name → LibeventHandle) (links : List (Link Name)) (flying : Flying Name Message) :
    Prop where
  shown : ∀ name, ∃ records, Shows (nets name) records
  wiring : Wiring post parties listens (recordOf nets) links flying

variable {post : Post Name Message} {parties : List Name} {listens : Name → Address}
variable {nets : Name → LibeventHandle} {links : List (Link Name)}
variable {flying : Flying Name Message} {name : Name} {net : LibeventHandle}
variable {records : List BevInfor} {position : Nat} {info : BevInfor} {link : Link Name}

theorem shown_update {after : List BevInfor} (shown : ∀ name, ∃ records, Shows (nets name) records)
    (showing : Shows net after) (name : Name) :
    ∀ other, ∃ records, Shows (Function.update nets name net other) records := by
  intro other
  by_cases same : other = name
  · subst same
    exact ⟨after, by rw [Function.update_self]; exact showing⟩
  · rw [Function.update_of_ne same]
    exact shown other

/-- Changing one entry of one table. -/
theorem recordOf_update {after : List BevInfor} (before : Shows (nets name) records)
    (showing : Shows net after)
    (changed : ∀ index, after[index]? = if index = position then some info else records[index]?) :
    recordOf (Function.update nets name net) =
      Function.update (recordOf nets) (name, position) (some info) := by
  funext key
  rcases key with ⟨other, index⟩
  by_cases same : other = name
  · subst same
    rw [recordOf, Function.update_self, showing.lookup_eq, changed]
    by_cases here : index = position
    · rw [if_pos here, here, Function.update_self]
    · rw [if_neg here, Function.update_of_ne (fun equal => here (congrArg Prod.snd equal)),
        recordOf, before.lookup_eq]
  · rw [recordOf, Function.update_of_ne same,
      Function.update_of_ne (fun equal => same (congrArg Prod.fst equal)), recordOf]

theorem recordOf_same (before : Shows (nets name) records) (showing : Shows net records) :
    recordOf (Function.update nets name net) = recordOf nets := by
  funext key
  rcases key with ⟨other, index⟩
  by_cases same : other = name
  · subst same
    rw [recordOf, Function.update_self, showing.lookup_eq, recordOf, before.lookup_eq]
  · rw [recordOf, Function.update_of_ne same, recordOf]

theorem getElem?_set_ite {list : List BevInfor} (inside : position < list.length)
    (index : Nat) :
    (list.set position info)[index]? = if index = position then some info else list[index]? := by
  by_cases here : index = position
  · rw [if_pos here, here, List.getElem?_set_self inside]
  · rw [if_neg here, List.getElem?_set_ne (Ne.symm here)]

theorem getElem?_concat_ite (list : List BevInfor) (info : BevInfor) (index : Nat) :
    (list ++ [info])[index]? = if index = list.length then some info else list[index]? := by
  by_cases here : index = list.length
  · rw [if_pos here, here, List.getElem?_concat_length]
  · rw [if_neg here]
    by_cases before : index < list.length
    · rw [List.getElem?_append_left before]
    · rw [List.getElem?_eq_none (by simp; omega), List.getElem?_eq_none (by omega)]

omit [DecidableEq Name] in
/-- The records of a table stand before the next one. -/
theorem behind_records (showing : Shows (nets name) records) (index : Nat) (known : BevInfor)
    (found : recordOf nets (name, index) = some known) : index < records.length := by
  rw [recordOf, showing.lookup_eq] at found
  exact (List.getElem?_eq_some_iff.mp found).1

/-- The records of accepted connections stay as they are, but for one that is read. -/
def KeepsAccepted (read : Option (RecordKey Name)) (before after : Name → LibeventHandle) : Prop :=
  ∀ key info, read ≠ some key → recordOf before key = some info → info.isListen = true →
    recordOf after key = some info

omit [DecidableEq Name] in
theorem KeepsAccepted.refl (read : Option (RecordKey Name)) (nets : Name → LibeventHandle) :
    KeepsAccepted read nets nets := fun _ _ _ found _ => found

omit [DecidableEq Name] in
theorem KeepsAccepted.trans {read : Option (RecordKey Name)} {middle after : Name → LibeventHandle}
    (first : KeepsAccepted read nets middle) (second : KeepsAccepted read middle after) :
    KeepsAccepted read nets after := fun key info apart found listening =>
  second key info apart (first key info apart found listening) listening

omit [DecidableEq Name] in
/-- What leaves all records alone leaves all but one alone. -/
theorem KeepsAccepted.weaken {after : Name → LibeventHandle}
    (keeps : KeepsAccepted none nets after) (read : Option (RecordKey Name)) :
    KeepsAccepted read nets after := fun key info _ found listening =>
  keeps key info (Option.some_ne_none key).symm found listening

/-- Changing an entry that is read, or that is not of an accepted connection. -/
theorem keepsAccepted_update {read : Option (RecordKey Name)} {after : Name → LibeventHandle}
    {key : RecordKey Name} {entry : Option BevInfor}
    (changed : recordOf after = Function.update (recordOf nets) key entry)
    (apart : read = some key ∨ ∀ known, recordOf nets key = some known → known.isListen = false) :
    KeepsAccepted read nets after := by
  intro other known different found listening
  have away : other ≠ key := by
    rintro rfl
    rcases apart with same | opened
    · exact different same
    · rw [opened known found] at listening
      cases listening
  rw [changed, Function.update_of_ne away, found]

/-- The input is too short to receive from it. -/
def Waits (receiver : Receiver) : Prop :=
  receiver.input.length ≤ controlBlockSize ∨
    ∃ size, receiver.expected = some size ∧ receiver.input.length < size

theorem waits_of_starved {receiver : Receiver} (starved : receiver.Starved controlFormat) :
    Waits receiver := by
  rw [Receiver.Starved] at starved
  cases expected : receiver.expected with
  | none =>
      rw [expected] at starved
      exact .inl starved
  | some size =>
      rw [expected] at starved
      rcases starved.2 with short | few
      · exact .inr ⟨size, expected, short⟩
      · exact .inl few

/-- A receiver that is not woken waits for the rest of a payload. -/
theorem waits_of_asleep {receiver : Receiver} {input : Bytes} (low : receiver.LowMatches)
    (asleep : ¬receiver.low ≤ input.length) : Waits { receiver with input := input } := by
  rw [Receiver.LowMatches] at low
  cases expected : receiver.expected with
  | none =>
      rw [expected, Option.getD_none] at low
      exact absurd (low ▸ Nat.zero_le _) asleep
  | some size =>
      rw [expected, Option.getD_some] at low
      exact .inr ⟨size, rfl, low ▸ Nat.not_le.mp asleep⟩

/-- The receiving end of a connection waits for more input. -/
def Settled (nets : Name → LibeventHandle) (link : Link Name) : Prop :=
  ∃ receiver, recordOf nets link.ending = some receiver ∧ Waits receiver.view

namespace Wired

theorem initial (post : Post Name Message) (parties : List Name) (listens : Name → Address)
    (fresh : ∀ name, nets name = LibeventHandle.initHandle) :
    Wired post parties listens nets [] [] := by
  have absent : ∀ key, recordOf nets key = none := by
    intro key
    rw [recordOf, fresh]
    rfl
  refine ⟨fun name => ⟨[], by rw [fresh]; exact Shows.initial⟩, ?_, ?_, ?_, by simp, by simp, ?_,
    by simp, by simp, by simp, by simp⟩
  · intro key info found
    rw [absent] at found
    cases found
  · intro key info found
    rw [absent] at found
    cases found
  · intro key info found
    rw [absent] at found
    cases found
  · intro key info found
    rw [absent] at found
    cases found

/-- A connection waits as long as nothing is received from it. -/
theorem settled (wired : Wired post parties listens nets links flying) (member : link ∈ links)
    {read : Option (RecordKey Name)} {after : Name → LibeventHandle}
    (keeps : KeepsAccepted read nets after) (apart : read ≠ some link.ending)
    (settled : Settled nets link) : Settled after link := by
  rcases (wired.wiring.linked link member).2 with ⟨_, receiver, _, linked⟩
  rcases settled with ⟨known, found, waits⟩
  cases found.symm.trans linked.receives
  exact ⟨receiver, keeps _ _ apart linked.receives linked.accepted, waits⟩

/-- All connections wait after one was received from until it waits. -/
theorem settled_set (wired : Wired post parties listens nets links flying)
    (there : links[position]? = some link) {after : Name → LibeventHandle}
    (keeps : KeepsAccepted (some link.ending) nets after)
    (every : ∀ other ∈ links, Settled nets other) (own : Settled after link) (carried : Nat) :
    ∀ other ∈ links.set position { link with carried := carried }, Settled after other := by
  intro other member
  rcases List.mem_iff_getElem?.mp member with ⟨index, present⟩
  by_cases here : index = position
  · subst here
    rw [List.getElem?_set_self (List.getElem?_eq_some_iff.mp there).1] at present
    cases present
    exact own
  · rw [List.getElem?_set_ne (Ne.symm here)] at present
    have old := List.mem_of_getElem? present
    have apart := view_ne_of_nodup wired.wiring.endings present there here
    exact wired.settled old keeps (fun same => apart (Option.some.inj same).symm)
      (every other old)

theorem unread_of_shows (wired : Wired post parties listens nets links flying)
    (showing : Shows (nets name) records) : Unread records := by
  intro info member
  rcases List.mem_iff_getElem?.mp member with ⟨position, found⟩
  apply wired.wiring.free (name, position) info
  rw [recordOf, showing.lookup_eq, found]

/-- A message that is sent to a party is in flight, on the connection to that party if there
is one.  The records of accepted connections are not changed. -/
theorem dispatchEffect (wired : Wired post parties listens nets links flying)
    (showing : Shows (nets name) records) (among : name ∈ parties) {message : Message}
    (source : post.source message = name) (target : post.target message ∈ parties)
    (sized : 0 < (post.bytes message).length ∧ (post.bytes message).length < 2 ^ 31)
    (ports : 0 ≤ (listens (post.target message)).2 ∧ (listens (post.target message)).2 < 65536)
    {after : List BevInfor} {connected : Bool} {channel : Option Nat}
    (effect : DispatchEffect records (listens (post.target message)).1
      (listens (post.target message)).2 (post.bytes message) connected after channel)
    (shown : Shows net after) :
    Wired post parties listens (Function.update nets name net) links
        (flying ++ [(channel.map fun position => (name, position), message)]) ∧
      KeepsAccepted none nets (Function.update nets name net) ∧
      (channel = none → connected = false) := by
  cases effect with
  | lost missing unconnected =>
      have same := recordOf_same showing shown
      refine ⟨⟨shown_update wired.shown shown name, ?_⟩, ?_, fun _ => unconnected⟩
      · rw [same]
        exact wired.wiring.lose sized
      · intro key info _ found _
        rw [same, found]
  | known first found =>
      rename_i position info
      have inside := (List.getElem?_eq_some_iff.mp found).1
      have changed := recordOf_update showing shown (getElem?_set_ite inside)
      have present : recordOf nets (name, position) = some info := by
        rw [recordOf, showing.lookup_eq, found]
      rcases List.findIdx?_eq_some_iff_getElem.mp first with ⟨_, matching, unmatched⟩
      have address : info.address = listens (post.target message) := by
        rcases List.getElem?_eq_some_iff.mp found with ⟨_, rfl⟩
        exact of_decide_eq_true matching
      have sent : SentOn post parties listens (recordOf nets) (name, position) message := by
        refine ⟨among, source, ?_⟩
        intro earlier known before there
        rw [recordOf, showing.lookup_eq] at there
        rcases List.getElem?_eq_some_iff.mp there with ⟨_, rfl⟩
        simpa using unmatched earlier before
      refine ⟨⟨shown_update wired.shown shown name, ?_⟩,
        keepsAccepted_update changed (.inr ?_), by simp⟩
      · rw [changed]
        exact wired.wiring.write present address target sent sized
      · intro known there
        cases present.symm.trans there
        exact wired.wiring.opened_of_address present target address
  | opened fresh missing =>
      have changed := recordOf_update showing shown (getElem?_concat_ite records _)
      have absent : recordOf nets (name, records.length) = none := by
        rw [recordOf, showing.lookup_eq, List.getElem?_eq_none (Nat.le_refl _)]
      have added : Wiring post parties listens (Function.update (recordOf nets)
          (name, records.length) (some (freshRecord (listens (post.target message)).1
            (listens (post.target message)).2 false fresh))) links flying :=
        wired.wiring.add absent (behind_records showing) rfl ports
          (fun listening => by cases listening) rfl
      have sent : SentOn post parties listens (Function.update (recordOf nets)
          (name, records.length) (some (freshRecord (listens (post.target message)).1
            (listens (post.target message)).2 false fresh))) (name, records.length) message := by
        refine ⟨among, source, ?_⟩
        intro earlier known before there
        rw [Function.update_of_ne (fun same => (Nat.ne_of_lt before) (congrArg Prod.snd same)),
          recordOf, showing.lookup_eq] at there
        have unmatched := List.findIdx?_eq_none_iff.mp missing known (List.mem_of_getElem? there)
        simpa using unmatched
      have written := added.write (Function.update_self _ _ _) rfl target sent sized
      rw [Function.update_idem] at written
      refine ⟨⟨shown_update wired.shown shown name, ?_⟩,
        keepsAccepted_update changed (.inr ?_), by simp⟩
      · rw [changed]
        exact written
      · intro known there
        rw [absent] at there
        cases there

/-- The peer that connects is not taken for a duplicate. -/
theorem connlistenerCb_eq (wired : Wired post parties listens nets links flying)
    (showing : Shows (nets name) records) (peer : Peer) (fresh : Int × Bool) :
    ∃ after, (nets name).connlistenerCb peer.addr fresh = some (after, (records.length : Int)) ∧
      Shows after (records ++
        [freshRecord (inetNtoa peer.addr.sinAddr) peer.addr.sinPort.toNat true fresh]) := by
  have outside := toInt_ntohl_port peer.valid
  have unknown : firstOf (inetNtoa peer.addr.sinAddr,
      toInt (ntohl peer.addr.sinPort.toUInt32).toNat) records = none := by
    rw [firstOf, List.findIdx?_eq_none_iff]
    intro info member
    rcases List.mem_iff_getElem?.mp member with ⟨position, found⟩
    have bounds := wired.wiring.ports (name, position) info (by
      rw [recordOf, showing.lookup_eq, found])
    rw [decide_eq_false_iff_not]
    intro same
    have samePort : info.port = _ := congrArg Prod.snd same
    omega
  have searched := showing.getConnectionId_search (inetNtoa peer.addr.sinAddr)
    (toInt (ntohl peer.addr.sinPort.toUInt32).toNat) false fresh
  rw [unknown] at searched
  rcases showing.addBuffereventListen_eq (inetNtoa peer.addr.sinAddr)
    peer.addr.sinPort.toNat fresh with ⟨after, listened, shown⟩
  refine ⟨after, ?_, shown⟩
  rw [LibeventHandle.connlistenerCb, searched]
  exact listened

/-- A party accepts a connection that another has opened to it. -/
theorem accept (wired : Wired post parties listens nets links flying) {opener accepter : Name}
    {openerId : Nat} {sender : BevInfor}
    (found : recordOf nets (opener, openerId) = some sender) (opened : sender.isListen = false)
    (address : sender.address = listens accepter) (member : accepter ∈ parties)
    (unlinked : ∀ link ∈ links, link.channel ≠ (opener, openerId)) (peer : Peer)
    {fresh : Int × Bool} (uncached : fresh.2 = false)
    (other : ∀ party ∈ parties,
      (inetNtoa peer.addr.sinAddr, (peer.addr.sinPort.toNat : Int)) ≠ listens party) :
    ∃ (after : LibeventHandle) (accepterId : Nat),
      (nets accepter).connlistenerCb peer.addr fresh = some (after, (accepterId : Int)) ∧
      Wired post parties listens (Function.update nets accepter after)
        (links ++ [⟨opener, openerId, accepter, accepterId, 0⟩]) flying ∧
      KeepsAccepted none nets (Function.update nets accepter after) ∧
      Settled (Function.update nets accepter after)
        ⟨opener, openerId, accepter, accepterId, 0⟩ := by
  rcases wired.shown accepter with ⟨records, showing⟩
  rcases wired.connlistenerCb_eq showing peer fresh with ⟨after, accepted, shown⟩
  have changed := recordOf_update showing shown (getElem?_concat_ite records _)
  have absent : recordOf nets (accepter, records.length) = none := by
    rw [recordOf, showing.lookup_eq, List.getElem?_eq_none (Nat.le_refl _)]
  have small := peer.addr.sinPort.toNat_lt
  refine ⟨after, records.length, accepted, ⟨shown_update wired.shown shown accepter, ?_⟩,
    keepsAccepted_update changed (.inr ?_), ?_⟩
  · rw [changed]
    exact wired.wiring.accept found opened address member unlinked absent
      (behind_records showing) ⟨Int.natCast_nonneg _, by exact_mod_cast small⟩ uncached other
  · intro known there
    rw [absent] at there
    cases there
  · refine ⟨freshRecord (inetNtoa peer.addr.sinAddr) peer.addr.sinPort.toNat true fresh, ?_,
      .inl (Nat.zero_le _)⟩
    rw [changed]
    exact Function.update_self _ _ _

/-! ## Receiving -/

variable {after : LibeventHandle}

/-- The receiving end of a connection is changed in the table of its party. -/
theorem receive (wired : Wired post parties listens (Function.update nets link.accepter net) links
      flying)
    (there : links[position]? = some link) {sender receiver reached : BevInfor}
    {pending remaining : Bytes} {later : Flying Name Message} {carried : Nat}
    (linked : Linked post listens (recordOf (Function.update nets link.accepter net)) flying link
      sender receiver pending)
    (showing : Shows net records) (shown : Shows after (records.set link.accepterId reached))
    (kept : receiver.SameSending reached) (free : reached.readSingal = 0)
    (fewer : ∀ entry ∈ later, entry ∈ flying)
    (others : ∀ key, key ≠ link.channel → onChannel key later = onChannel key flying)
    (carries : Carries sender reached carried (waiting post later link.channel) remaining) :
    Wired post parties listens (Function.update nets link.accepter after)
        (links.set position { link with carried := carried }) later ∧
      KeepsAccepted (some link.ending) (Function.update nets link.accepter net)
        (Function.update nets link.accepter after) := by
  have before : Shows (Function.update nets link.accepter net link.accepter) records := by
    rw [Function.update_self]
    exact showing
  have present := linked.receives
  rw [recordOf, Link.ending, before.lookup_eq] at present
  have inside := (List.getElem?_eq_some_iff.mp present).1
  have changed := recordOf_update before shown (getElem?_set_ite inside)
  have received := wired.wiring.receive there linked kept free fewer others carries
  have tables := shown_update wired.shown shown link.accepter
  rw [Function.update_idem] at changed tables
  refine ⟨⟨tables, ?_⟩, keepsAccepted_update changed (.inl rfl)⟩
  rw [changed]
  exact received

end Wired

/-- A waiting receiver of a stream that has arrived as a whole is due no payload larger than a
control block. -/
theorem rest_eq_nil_of_waits {receiver : Receiver} {rest : List Bytes}
    (aligned : Receiver.Aligned controlFormat receiver rest (controlFormat.frames rest))
    (waits : Waits receiver) (large : ∀ payload ∈ rest, controlBlockSize < payload.length) :
    rest = [] := by
  cases rest with
  | nil => rfl
  | cons payload later =>
      have more := large payload List.mem_cons_self
      rw [HeaderFormat.frames_cons] at aligned
      generalize streamed : controlFormat.frame payload ++ controlFormat.frames later = pending
        at aligned
      cases aligned with
      | header expected =>
          have length := congrArg List.length streamed
          rw [List.length_append, HeaderFormat.length_frame] at length
          rcases waits with few | ⟨size, waiting, _⟩
          · omega
          · rw [expected] at waiting
            cases waiting
      | payload expected =>
          rw [HeaderFormat.frame, List.append_assoc] at streamed
          have length := congrArg List.length (List.append_cancel_left streamed)
          rw [List.length_append] at length
          rcases waits with few | ⟨size, waiting, short⟩
          · omega
          · cases expected.symm.trans waiting
            omega

/-- No two parties listen at one address. -/
def Distinct (parties : List Name) (listens : Name → Address) : Prop :=
  ∀ first ∈ parties, ∀ second ∈ parties, listens first = listens second → first = second

/-- No message of the same sender for the same party was sent earlier. -/
def Foremost (post : Post Name Message) (front : Flying Name Message) (message : Message) : Prop :=
  ∀ key other, (some key, other) ∈ front → post.source other = post.source message →
    post.target other ≠ post.target message

/-- What an attempt to receive from a connection does: it waits for more input, or takes the
oldest message of the connection, which is for the party that receives it. -/
inductive Attempt (post : Post Name Message) (parties : List Name) (listens : Name → Address)
    (nets : Name → LibeventHandle) (links : List (Link Name)) (flying : Flying Name Message)
    (link : Link Name) (net : LibeventHandle) : LibeventHandle × Bytes × Int → Prop where
  | waiting {after : LibeventHandle} {data : Bytes}
      (wired : Wired post parties listens (Function.update nets link.accepter after) links flying)
      (kept : KeepsAccepted (some link.ending) (Function.update nets link.accepter net)
        (Function.update nets link.accepter after))
      (settled : Settled (Function.update nets link.accepter after) link) :
      Attempt post parties listens nets links flying link net (after, data, 0)
  | taken {after : LibeventHandle} {message : Message} {front back : Flying Name Message}
      (split : flying = front ++ (some link.channel, message) :: back)
      (turn : Foremost post front message) (target : post.target message = link.accepter)
      (wired : Wired post parties listens (Function.update nets link.accepter after) links
        (front ++ back))
      (kept : KeepsAccepted (some link.ending) (Function.update nets link.accepter net)
        (Function.update nets link.accepter after))
      (shorter : after.inputLength link.accepterId < net.inputLength link.accepterId)
      (positive : 0 < (post.bytes message).length) :
      Attempt post parties listens nets links flying link net
        (after, post.bytes message, (post.bytes message).length)

namespace Wired

/-- The receiving record of a connection, as it stands in the table of its party. -/
theorem exists_receiver
    (wired : Wired post parties listens (Function.update nets link.accepter net) links flying)
    (member : link ∈ links) :
    link.accepter ∈ parties ∧ ∃ records sender receiver pending, Shows net records ∧
      records[link.accepterId]? = some receiver ∧
      Linked post listens (recordOf (Function.update nets link.accepter net)) flying link sender
        receiver pending := by
  rcases wired.wiring.linked link member with ⟨among, sender, receiver, pending, linked⟩
  rcases wired.shown link.accepter with ⟨records, shown⟩
  have present := linked.receives
  rw [recordOf, Link.ending, shown.lookup_eq] at present
  rw [Function.update_self] at shown
  exact ⟨among, records, sender, receiver, pending, shown, present, linked⟩

theorem sized_waiting (wired : Wired post parties listens nets links flying)
    (key : RecordKey Name) : Receiver.Sized controlFormat (waiting post flying key) := by
  intro payload member
  rcases List.mem_map.mp member with ⟨message, among, rfl⟩
  exact wired.wiring.sized _ (mem_onChannel.mp among)

/-- A connection whose bytes have all arrived holds no message back. -/
theorem nothing_on (wired : Wired post parties listens nets links flying) (member : link ∈ links)
    (settled : Settled nets link) {sender : BevInfor}
    (sends : recordOf nets link.channel = some sender)
    (arrived : link.carried = sender.bev.output.length)
    (large : ∀ message ∈ onChannel link.channel flying,
      controlBlockSize < (post.bytes message).length) :
    onChannel link.channel flying = [] := by
  rcases (wired.wiring.linked link member).2 with ⟨known, receiver, pending, linked⟩
  cases linked.sends.symm.trans sends
  rcases settled with ⟨reached, found, waits⟩
  cases found.symm.trans linked.receives
  have stream := linked.carries.stream
  rw [arrived, List.drop_length, List.append_nil] at stream
  have aligned := linked.carries.aligned
  rw [stream] at aligned
  have empty := rest_eq_nil_of_waits aligned waits (by
    intro payload due
    rcases List.mem_map.mp due with ⟨message, among, rfl⟩
    exact large message among)
  exact List.map_eq_nil_iff.mp empty

/-- Messages on a connection are for the party that has accepted it. -/
theorem target_of_channel (wired : Wired post parties listens nets links flying)
    (distinct : Distinct parties listens) (member : link ∈ links) {message : Message}
    (flies : (some link.channel, message) ∈ flying) : post.target message = link.accepter := by
  rcases wired.wiring.linked link member with ⟨among, sender, _, _, linked⟩
  rcases wired.wiring.addressed _ _ flies with ⟨target, info, found, _, address⟩
  cases found.symm.trans linked.sends
  exact distinct _ target _ among (address.symm.trans linked.address)

theorem attempt (distinct : Distinct parties listens)
    (wired : Wired post parties listens (Function.update nets link.accepter net) links flying)
    (member : link ∈ links) (available : 0 < net.inputLength link.accepterId) :
    ∃ result, net.reciveStrNoWait link.accepterId [] = some result ∧
      Attempt post parties listens nets links flying link net result := by
  rcases List.mem_iff_getElem?.mp member with ⟨position, there⟩
  rcases wired.exists_receiver member with
    ⟨among, records, sender, receiver, pending, showing, found, linked⟩
  have carries := linked.carries
  have length : net.inputLength link.accepterId = receiver.bev.input.length := by
    rw [LibeventHandle.inputLength, showing.lookup_eq, found]
  have here : Shows (Function.update nets link.accepter net link.accepter) records := by
    rw [Function.update_self]
    exact showing
  have unread := wired.unread_of_shows here
  have keptLinks : links.set position { link with carried := link.carried } = links := by
    rcases List.getElem?_eq_some_iff.mp there with ⟨inside, rfl⟩
    exact List.set_getElem_self inside
  rcases showing.reciveStrNoWait_received unread found carries.countable carries.aligned
    carries.low carries.within_frames (wired.sized_waiting link.channel)
    (List.ne_nil_of_length_pos (length ▸ available)) with ⟨result, received, outcome⟩
  refine ⟨result, received, ?_⟩
  cases outcome with
  | waiting shown kept countable read aligned low starved =>
      rcases wired.receive there linked showing shown kept read
        (fun entry old => old) (fun key _ => rfl)
        ⟨carries.within, carries.stream, countable, aligned, low⟩ with ⟨after, keeps⟩
      rw [keptLinks] at after
      refine .waiting after keeps ⟨_, ?_, waits_of_starved starved⟩
      rw [recordOf, Link.ending, Function.update_self, shown.lookup_eq,
        List.getElem?_set_self (List.getElem?_eq_some_iff.mp found).1]
  | taken shown kept countable read first consumed shorter view =>
      rename_i payload remaining later reached
      rcases List.map_eq_cons_iff.mp first with ⟨message, messages, oldest, rfl, rfl⟩
      rcases onChannel_take oldest with ⟨front, back, rfl, before, rest, others⟩
      have rest' : waiting post (front ++ back) link.channel = messages.map post.bytes :=
        congrArg (List.map post.bytes) rest
      have stream := carries.stream
      rw [first, consumed, HeaderFormat.frames_cons, List.append_assoc] at stream
      have fewer : ∀ entry ∈ front ++ back,
          entry ∈ front ++ (some link.channel, message) :: back := by
        intro entry old
        rcases List.mem_append.mp old with left | right
        · exact List.mem_append_left _ left
        · exact List.mem_append_right _ (List.mem_cons_of_mem _ right)
      rcases wired.receive there linked showing shown kept read fewer others (by
        rw [rest']
        refine ⟨carries.within, List.append_cancel_left stream, countable, ?_, ?_⟩
        · rw [view]
          exact .header rfl
        · rw [view]
          rfl) with ⟨after, keeps⟩
      rw [keptLinks] at after
      have flies : (some link.channel, message) ∈ front ++ (some link.channel, message) :: back :=
        List.mem_append_right _ List.mem_cons_self
      have turn : Foremost post front message := by
        intro key other earlier source target
        have same := wired.wiring.same_channel (List.mem_append_left _ earlier) flies source target
        have due := mem_onChannel.mpr (same ▸ earlier)
        rw [before] at due
        cases due
      refine .taken rfl turn (wired.target_of_channel distinct member flies) after keeps ?_
        (wired.wiring.sized _ flies).1
      have left : reached.bev.input = remaining := congrArg Receiver.input view
      rw [length, LibeventHandle.inputLength, shown.lookup_eq,
        List.getElem?_set_self (List.getElem?_eq_some_iff.mp found).1]
      simp only [left]
      exact shorter

end Wired

variable {State : Type}

/-- A handler that takes a message out of those in flight and may send more, in step with a
relation between what it has done so far and the messages in flight.  It leaves the
connections that were accepted alone. -/
def Handles (post : Post Name Message) (parties : List Name) (listens : Name → Address)
    (nets : Name → LibeventHandle) (links : List (Link Name)) (link : Link Name)
    (handler : LibeventHandle.Handler State) (related : State → Flying Name Message → Prop) :
    Prop :=
  ∀ net state front message back, post.target message = link.accepter →
    Foremost post front message → related state (front ++ (some link.channel, message) :: back) →
    Wired post parties listens (Function.update nets link.accepter net) links (front ++ back) →
    ∃ after next more,
      handler net state (post.bytes message) (post.bytes message).length =
        some (after, next, true) ∧
      related next (front ++ back ++ more) ∧
      Wired post parties listens (Function.update nets link.accepter after) links
        (front ++ back ++ more) ∧
      KeepsAccepted none (Function.update nets link.accepter net)
        (Function.update nets link.accepter after)

namespace Wired

/-- What sends leaves the input of an accepted connection alone. -/
theorem inputLength_kept {after : LibeventHandle}
    (wired : Wired post parties listens (Function.update nets link.accepter net) links flying)
    (member : link ∈ links)
    (keeps : KeepsAccepted none (Function.update nets link.accepter net)
      (Function.update nets link.accepter after)) :
    after.inputLength link.accepterId = net.inputLength link.accepterId := by
  rcases (wired.wiring.linked link member).2 with ⟨_, receiver, _, linked⟩
  have later := keeps _ _ (Option.some_ne_none _).symm linked.receives linked.accepted
  have before := linked.receives
  rw [recordOf, Link.ending, Function.update_self] at before later
  rw [LibeventHandle.inputLength, LibeventHandle.inputLength, before, later]

/-- A read callback takes messages from its connection until it waits for more input or has
emptied it. -/
theorem replyLoop (distinct : Distinct parties listens) {handler : LibeventHandle.Handler State}
    {related : State → Flying Name Message → Prop}
    (handles : Handles post parties listens nets links link handler related)
    (member : link ∈ links) {fuel : Nat} {state : State}
    (wired : Wired post parties listens (Function.update nets link.accepter net) links flying)
    (holds : related state flying) (enough : net.inputLength link.accepterId < fuel) :
    ∃ after next complete later,
      LibeventHandle.replyLoop link.accepterId handler fuel net state =
        some (after, next, complete) ∧
      Wired post parties listens (Function.update nets link.accepter after) links later ∧
      related next later ∧ Settled (Function.update nets link.accepter after) link ∧
      KeepsAccepted (some link.ending) (Function.update nets link.accepter net)
        (Function.update nets link.accepter after) := by
  induction fuel generalizing net state flying with
  | zero => exact absurd enough (Nat.not_lt_zero _)
  | succ fuel ih =>
      rcases wired.exists_receiver member with
        ⟨among, records, sender, receiver, pending, showing, found, linked⟩
      have here : Shows (Function.update nets link.accepter net link.accepter) records := by
        rw [Function.update_self]
        exact showing
      have ready := showing.recordAt found (wired.unread_of_shows here)
      have counted := LibeventHandle.getReciveBufferLength_ready ready
      rw [toInt_of_lt linked.carries.countable.input] at counted
      have same := showing.setBevInfor_same found
      have length : (net.setBevInfor link.accepterId receiver).inputLength link.accepterId =
          receiver.bev.input.length := by
        rw [LibeventHandle.inputLength, same.lookup_eq, found]
      have before : net.inputLength link.accepterId = receiver.bev.input.length := by
        rw [LibeventHandle.inputLength, showing.lookup_eq, found]
      -- Counting the input puts the record back as it was.
      have unchanged := recordOf_same here same
      rw [Function.update_idem] at unchanged
      have counting : Wired post parties listens (Function.update nets link.accepter
          (net.setBevInfor link.accepterId receiver)) links flying := by
        have tables := shown_update wired.shown same link.accepter
        rw [Function.update_idem] at tables
        refine ⟨tables, ?_⟩
        rw [unchanged]
        exact wired.wiring
      have keepsCounting : KeepsAccepted (some link.ending)
          (Function.update nets link.accepter net) (Function.update nets link.accepter
            (net.setBevInfor link.accepterId receiver)) := by
        intro key info _ present _
        rw [unchanged, present]
      rw [LibeventHandle.replyLoop, counted]
      simp only [Option.bind_eq_bind, Option.bind_some]
      by_cases empty : receiver.bev.input = []
      · have idle : ¬0 < (receiver.bev.input.length : Int) := by simp [empty]
        rw [if_neg idle]
        refine ⟨_, _, _, _, rfl, counting, holds, ⟨receiver, ?_, .inl ?_⟩, keepsCounting⟩
        · rw [recordOf, Link.ending, Function.update_self, same.lookup_eq, found]
        · simp [BevInfor.view, empty]
      · have positive := List.length_pos_of_ne_nil empty
        rw [if_pos (by exact_mod_cast positive)]
        rcases counting.attempt distinct member (length ▸ positive) with
          ⟨result, received, outcome⟩
        rw [received]
        simp only [Option.bind_some]
        cases outcome with
        | waiting after keeps settled =>
            rw [if_pos (Int.le_refl 0)]
            exact ⟨_, _, _, _, rfl, after, holds, settled, keepsCounting.trans keeps⟩
        | taken split turn target after keeps shorter nonempty =>
            rename_i taken message front back
            subst split
            rcases handles taken state front message back target turn holds after with
              ⟨later, next, more, handled, holdsNext, wiredNext, kept⟩
            have some : ¬((post.bytes message).length : Int) ≤ 0 := by omega
            dsimp only
            rw [if_neg some, handled]
            simp only [Option.bind_some, if_true]
            have still := after.inputLength_kept member kept
            rcases ih wiredNext holdsNext (by omega) with
              ⟨last, reached, complete, remaining, looped, wiredLast, holdsLast, settled, keepsLast⟩
            refine ⟨last, reached, complete, remaining, looped, wiredLast, holdsLast, settled, ?_⟩
            exact ((keepsCounting.trans keeps).trans (kept.weaken _)).trans keepsLast

/-- Bytes of a connection arrive and the read callback runs when enough have. -/
theorem arrive (distinct : Distinct parties listens) {handler : LibeventHandle.Handler State}
    {related : State → Flying Name Message → Prop} {count : Nat} {sender : BevInfor}
    (wired : Wired post parties listens nets links flying)
    (there : links[position]? = some link)
    (handles : Handles post parties listens nets
      (links.set position { link with carried := link.carried + count })
      { link with carried := link.carried + count } handler related)
    (sends : recordOf nets link.channel = some sender)
    (present : link.carried + count ≤ sender.bev.output.length)
    (fits : (nets link.accepter).inputLength link.accepterId + count < 2 ^ 31)
    {state : State} (holds : related state flying) :
    ∃ after next later,
      (nets link.accepter).arrive link.accepterId
          (LibeventHandle.replyLoop link.accepterId handler) state
          ((sender.bev.output.drop link.carried).take count) = some (after, next) ∧
      Wired post parties listens (Function.update nets link.accepter after)
        (links.set position { link with carried := link.carried + count }) later ∧
      related next later ∧
      Settled (Function.update nets link.accepter after) link ∧
      KeepsAccepted (some link.ending) nets (Function.update nets link.accepter after) := by
  have member := List.mem_of_getElem? there
  have inside := (List.getElem?_eq_some_iff.mp there).1
  have same : Function.update nets link.accepter (nets link.accepter) = nets :=
    Function.update_eq_self _ _
  rw [← same] at wired
  rcases wired.exists_receiver member with
    ⟨among, records, known, receiver, pending, showing, found, linked⟩
  have sending := linked.sends
  rw [same] at sending
  cases sending.symm.trans sends
  let chunk := (sender.bev.output.drop link.carried).take count
  have length : (nets link.accepter).inputLength link.accepterId = receiver.bev.input.length := by
    rw [LibeventHandle.inputLength, showing.lookup_eq, found]
  have here : Shows (Function.update nets link.accepter (nets link.accepter) link.accepter)
      records := by
    rw [Function.update_self]
    exact showing
  have ready := showing.recordAt found (wired.unread_of_shows here)
  have within := (List.getElem?_eq_some_iff.mp found).1
  have shown : Shows ((nets link.accepter).setBevInfor link.accepterId
      (LibeventHandle.grown receiver chunk))
      (records.set link.accepterId (LibeventHandle.grown receiver chunk)) :=
    showing.setBevInfor within (showing.writable receiver (List.mem_of_getElem? found))
  rcases wired.receive there linked showing shown ⟨rfl, rfl, rfl, rfl⟩ ready.read
    (fun entry old => old) (fun key _ => rfl) (linked.carries.arrive present (length ▸ fits)) with
    ⟨arrived, keeps⟩
  rw [same] at keeps
  by_cases woken : receiver.bev.readLow ≤ (receiver.bev.input ++ chunk).length
  · have grownLength : ((nets link.accepter).setBevInfor link.accepterId
        (LibeventHandle.grown receiver chunk)).inputLength link.accepterId =
          (receiver.bev.input ++ chunk).length := by
      rw [LibeventHandle.inputLength, shown.lookup_eq, List.getElem?_set_self within]
      rfl
    have moved : { link with carried := link.carried + count } ∈
        links.set position { link with carried := link.carried + count } :=
      List.mem_iff_getElem?.mpr ⟨position, List.getElem?_set_self inside⟩
    have enough : ((nets link.accepter).setBevInfor link.accepterId
        (LibeventHandle.grown receiver chunk)).inputLength link.accepterId <
          (receiver.bev.input ++ chunk).length + 1 := by
      rw [grownLength]
      exact Nat.lt_succ_self _
    rcases replyLoop distinct handles moved arrived holds enough with
      ⟨after, next, complete, later, looped, wiredNext, holdsNext, settled, kept⟩
    refine ⟨after, next, later, ?_, wiredNext, holdsNext, settled, keeps.trans kept⟩
    rw [LibeventHandle.arrive_woken ready _ state woken]
    exact congrArg (Option.map _) looped
  · refine ⟨_, state, flying, LibeventHandle.arrive_asleep ready _ state woken, arrived, holds,
      ⟨LibeventHandle.grown receiver chunk, ?_, waits_of_asleep linked.carries.low woken⟩, keeps⟩
    rw [recordOf, Link.ending, Function.update_self, shown.lookup_eq,
      List.getElem?_set_self within]

end Wired

end MultiMaster.NetIO
