import MultiMaster.NetIO.Delivery

/-!
# Framing and the cutting of the stream

Payloads written with `send` on one connection are received by a peer that calls
`recive_str_NoWait` as long as there is input.  How the stream is cut into chunks
matters in one case: `recive_str_NoWait` does not look at four or fewer bytes of
input, also when it waits for a payload no larger than that.
-/

namespace MultiMaster.NetIO

open Foundation

/-! ## The sending side -/

namespace BevInfor

variable {info : BevInfor}

/-- A record after more bytes were written. -/
def appendOutput (info : BevInfor) (bytes : Bytes) : BevInfor :=
  { info with bev := { info.bev with output := info.bev.output ++ bytes } }

theorem writeBufferOnce_eq (free : info.writeSingal = 0) {payload : Bytes}
    (small : payload.length < 2 ^ 31) :
    info.writeBufferOnce payload payload.length true true =
      some (info.appendOutput (controlFormat.frame payload), true) := by
  rcases info with ⟨ip, port, bev, isListen, blockSize, cacheBlock, readSingal, writeSingal⟩
  cases free
  have whole : payload.take payload.length = payload := List.take_length
  rw [writeBufferOnce]
  simp only [toSize_natCast small, whole, Bufferevent.write, if_true, rwWLock,
    Option.bind_eq_bind]
  simp [appendOutput, HeaderFormat.frame, controlFormat, rwWUnlock]

end BevInfor

namespace LibeventHandle

variable {handle : LibeventHandle} {connectId : Int} {info : BevInfor}

/-- The connection exists and can be written to. -/
structure Writable (handle : LibeventHandle) (connectId : Int) (info : BevInfor) : Prop where
  valid : 0 ≤ connectId
  table : handle.bevMapRwLockSingal = 0
  found : handle.bevMap.lookup connectId = some info
  write : info.writeSingal = 0

/-- The bytes written to a connection so far. -/
def outputOf (handle : LibeventHandle) (connectId : Int) : Bytes :=
  match handle.bevMap.lookup connectId with
  | none => []
  | some info => info.bev.output

theorem Writable.appendOutput (writable : handle.Writable connectId info) (bytes : Bytes) :
    (handle.setBevInfor connectId (info.appendOutput bytes)).Writable connectId
      (info.appendOutput bytes) :=
  ⟨writable.valid, writable.table, OrderedMap.lookup_insert, writable.write⟩

/-- `send` appends one frame to the output. -/
theorem send_eq (writable : handle.Writable connectId info) {payload : Bytes}
    (small : payload.length < 2 ^ 31) :
    handle.send connectId payload payload.length true true =
      some (handle.setBevInfor connectId
        (info.appendOutput (controlFormat.frame payload)), true) := by
  rcases handle with ⟨maxBevId, singal, bevMap, listenSingal, listenIdVector⟩
  cases writable.table
  rw [send, if_neg (Int.not_lt.mpr writable.valid), writable.found]
  simp only [BevInfor.writeBufferOnce_eq writable.write small]
  rfl

/-- Send payloads one after another; libevent accepts every write. -/
def sendAll (handle : LibeventHandle) (connectId : Int) :
    List Bytes → Option LibeventHandle
  | [] => some handle
  | payload :: rest => do
      let sent ← handle.send connectId payload payload.length true true
      sent.1.sendAll connectId rest

theorem sendAll_eq (writable : handle.Writable connectId info) {payloads : List Bytes}
    (small : ∀ payload ∈ payloads, payload.length < 2 ^ 31) :
    ∃ sent, handle.sendAll connectId payloads = some sent ∧
      sent.outputOf connectId = info.bev.output ++ controlFormat.frames payloads := by
  induction payloads generalizing handle info with
  | nil =>
      refine ⟨handle, rfl, ?_⟩
      rw [outputOf, writable.found]
      simp
  | cons payload rest ih =>
      rw [sendAll, send_eq writable (small payload (by simp))]
      rcases ih (writable.appendOutput (controlFormat.frame payload))
        (fun other member => small other (List.mem_cons_of_mem _ member)) with
        ⟨sent, finished, output⟩
      refine ⟨sent, finished, ?_⟩
      rw [output, HeaderFormat.frames_cons, ← List.append_assoc]
      rfl

/-! ## A receiver that collects payloads -/

/-- Keep every payload. -/
def collect (received : List Bytes) (payload : Bytes) (_ : Int) :
    Option (List Bytes × Bool) :=
  some (received ++ [payload], true)

@[simp] theorem acceptAll_collect (received payloads : List Bytes) :
    acceptAll collect received payloads = some (received ++ payloads) := by
  induction payloads generalizing received with
  | nil => simp [acceptAll]
  | cons payload rest ih => simp [acceptAll, collect, ih]

/-- A read callback that keeps every payload. -/
def collectAll (connectId : Int) : ReadCallback (List Bytes) := receiveLoop connectId collect

/-- The payloads received after the chunks. -/
def receivedAfter (handle : LibeventHandle) (connectId : Int) (chunks : List Bytes) :
    Option (List Bytes) :=
  (receiveChunks connectId (collectAll connectId) handle [] chunks).map Prod.snd

/-- A way of cutting a stream into non-empty chunks. -/
structure CutOf (chunks : List Bytes) (stream : Bytes) : Prop where
  nonempty : ∀ chunk ∈ chunks, chunk ≠ []
  whole : chunks.flatten = stream

/-- The last payload is larger than a control block or wholly in the last chunk. -/
def LastPayloadUncut (payloads chunks : List Bytes) : Prop :=
  ∀ last ∈ payloads.getLast?, ∀ chunk ∈ chunks.getLast?,
    controlBlockSize < last.length ∨ last.length ≤ chunk.length

theorem CutOf.concat_prefix {chunks : List Bytes} {chunk stream : Bytes}
    (cut : CutOf (chunks ++ [chunk]) stream) : CutPrefix chunks stream := by
  refine ⟨fun other member => cut.nonempty other (List.mem_append_left _ member), ?_⟩
  rw [← cut.whole, List.flatten_append]
  exact List.prefix_append _ _

theorem payloads_eq_nil_of_no_chunk {payloads : List Bytes}
    (cut : CutOf [] (controlFormat.frames payloads)) : payloads = [] := by
  cases payloads with
  | nil => rfl
  | cons payload rest =>
      have length := congrArg List.length cut.whole
      simp only [List.flatten_nil, List.length_nil, HeaderFormat.frames_cons,
        List.length_append, HeaderFormat.length_frame, controlFormat, controlBlockSize]
        at length
      omega

/-- All payloads are received exactly when the last one is not cut badly. -/
theorem receivedAfter_eq_all_iff (ready : handle.Ready connectId info) (fresh : info.Fresh)
    {payloads chunks : List Bytes} (sized : Receiver.Sized controlFormat payloads)
    (cut : CutOf chunks (controlFormat.frames payloads))
    (below : InputBelow connectId (collectAll connectId) handle [] chunks) :
    handle.receivedAfter connectId chunks = some payloads ↔
      LastPayloadUncut payloads chunks := by
  cases chunks using List.reverseRecOn with
  | nil =>
      cases payloads_eq_nil_of_no_chunk cut
      simp [receivedAfter, receiveChunks, LastPayloadUncut]
  | append_singleton chunks chunk =>
      rcases Machine.respects_concat.mp below with ⟨earlier, fits⟩
      have accepting : ∀ initial, initial <+: payloads →
          (acceptAll collect [] initial).isSome := by simp
      rcases progress_run ready fresh sized accepting cut.concat_prefix earlier with
        ⟨done, rest, pending, after, reached, final, progress⟩
      have arriving := cut.nonempty chunk (by simp)
      have whole := cut.whole
      rw [List.flatten_append, List.flatten_singleton] at whole
      rcases progress.step accepting arriving (whole ▸ List.prefix_rfl)
        (fits _ progress.reached) with
        ⟨handed, later, remaining, next, moved, last, delivered, stepped⟩
      have received : handle.receivedAfter connectId (chunks ++ [chunk]) =
          some (done ++ handed) := by
        have accepted := stepped.accepted
        rw [acceptAll_collect, List.nil_append] at accepted
        rw [receiveChunks] at stepped
        rw [receivedAfter, receiveChunks, Machine.exec_concat, collectAll, stepped.reached,
          Option.map_some, ← Option.some.inj accepted]
      have lastBytes : pending ++ chunk = controlFormat.frames rest := by
        rw [progress.bytes, progress.split, HeaderFormat.frames_append,
          List.append_assoc] at whole
        exact List.append_cancel_left whole
      rcases List.eq_nil_or_concat' rest with rfl | ⟨front, final, rfl⟩
      · simp [arriving] at lastBytes
      · rw [received, Option.some.injEq, progress.split, List.append_cancel_left_eq,
          Receiver.deliver_last progress.standing arriving lastBytes delivered]
        simp [LastPayloadUncut, ← List.append_assoc, controlFormat]

/-- Two cuttings of one stream both deliver all payloads exactly when neither cuts a
last payload of four or fewer bytes before the last chunk. -/
theorem framing_cutIndependent_iff {sender receiver : LibeventHandle}
    {sendId reciveId : Int} {senderInfo : BevInfor} {payloads : List Bytes}
    (writable : sender.Writable sendId senderInfo) (unsent : senderInfo.bev.output = [])
    (ready : receiver.Ready reciveId info) (fresh : info.Fresh)
    (sized : ∀ payload ∈ payloads, 1 ≤ payload.length ∧ payload.length ≤ 2 ^ 31 - 1) :
    ∃ sent, sender.sendAll sendId payloads = some sent ∧
      ∀ first second, CutOf first (sent.outputOf sendId) →
        CutOf second (sent.outputOf sendId) →
        InputBelow reciveId (collectAll reciveId) receiver [] first →
        InputBelow reciveId (collectAll reciveId) receiver [] second →
        ((receiver.receivedAfter reciveId first = some payloads ∧
            receiver.receivedAfter reciveId second = some payloads) ↔
          LastPayloadUncut payloads first ∧ LastPayloadUncut payloads second) := by
  have small : ∀ payload ∈ payloads, payload.length < 2 ^ 31 := by
    intro payload member
    have := sized payload member
    omega
  have framed : Receiver.Sized controlFormat payloads :=
    fun payload member => ⟨(sized payload member).1, small payload member⟩
  rcases sendAll_eq writable small with ⟨sent, finished, output⟩
  refine ⟨sent, finished, ?_⟩
  rw [output, unsent, List.nil_append]
  intro first second cutFirst cutSecond belowFirst belowSecond
  rw [receivedAfter_eq_all_iff ready fresh framed cutFirst belowFirst,
    receivedAfter_eq_all_iff ready fresh framed cutSecond belowSecond]

/-- The record of a new connection. -/
def newConnection : BevInfor :=
  { ip := .ofString "127.0.0.1"
    port := 9000
    bev := ⟨[], [], 0⟩
    isListen := false
    blockSize := 0
    cacheBlock := false
    readSingal := 0
    writeSingal := 0 }

/-- A handle with one new connection. -/
def oneConnection : LibeventHandle :=
  { maxBevId := 1
    bevMapRwLockSingal := 0
    bevMap := OrderedMap.empty.insert 0 newConnection
    listenVectorRwLockSingal := 0
    listenIdVector := [] }

theorem oneConnection_writable : oneConnection.Writable 0 newConnection :=
  ⟨by decide, rfl, rfl, rfl⟩

theorem oneConnection_ready : oneConnection.Ready 0 newConnection := ⟨rfl, rfl, rfl⟩

theorem newConnection_fresh : newConnection.Fresh := ⟨rfl, rfl, rfl⟩

/-- The stream of one payload of three bytes. -/
theorem threeBytes_output {sent : LibeventHandle}
    (finished : oneConnection.sendAll 0 [[1, 2, 3]] = some sent) :
    sent.outputOf 0 = [3, 0, 0, 0, 1, 2, 3] := by
  have output : (oneConnection.sendAll 0 [[1, 2, 3]]).map (fun handle => handle.outputOf 0) =
      some [3, 0, 0, 0, 1, 2, 3] := by decide +kernel
  rw [finished] at output
  exact Option.some.inj output

/-- A payload of three bytes in one chunk and behind its control block. -/
theorem framing_cutIndependent_iff_threeBytes :
    (oneConnection.receivedAfter 0 [[3, 0, 0, 0, 1, 2, 3]] = some [[1, 2, 3]] ∧
        oneConnection.receivedAfter 0 [[3, 0, 0, 0], [1, 2, 3]] = some [[1, 2, 3]]) ↔
      LastPayloadUncut [[1, 2, 3]] [[3, 0, 0, 0, 1, 2, 3]] ∧
        LastPayloadUncut [[1, 2, 3]] [[3, 0, 0, 0], [1, 2, 3]] := by
  have sized : ∀ payload ∈ [([1, 2, 3] : Bytes)],
      1 ≤ payload.length ∧ payload.length ≤ 2 ^ 31 - 1 := by simp
  rcases framing_cutIndependent_iff oneConnection_writable rfl oneConnection_ready
    newConnection_fresh sized with ⟨sent, finished, independent⟩
  rw [threeBytes_output finished] at independent
  apply independent
  · exact ⟨by decide, rfl⟩
  · exact ⟨by decide, rfl⟩
  · rw [InputBelow]
    decide +kernel
  · rw [InputBelow]
    decide +kernel

/-- When the first of three bytes comes ahead of the others, the payload stays in the
input, while it is received from the uncut stream. -/
theorem threeBytes_notReceived :
    ∃ sent, oneConnection.sendAll 0 [[1, 2, 3]] = some sent ∧
      CutOf [[3, 0, 0, 0, 1], [2, 3]] (sent.outputOf 0) ∧
      CutOf [[3, 0, 0, 0, 1, 2, 3]] (sent.outputOf 0) ∧
      InputBelow 0 (collectAll 0) oneConnection [] [[3, 0, 0, 0, 1], [2, 3]] ∧
      InputBelow 0 (collectAll 0) oneConnection [] [[3, 0, 0, 0, 1, 2, 3]] ∧
      oneConnection.receivedAfter 0 [[3, 0, 0, 0, 1], [2, 3]] = some [] ∧
      oneConnection.receivedAfter 0 [[3, 0, 0, 0, 1, 2, 3]] = some [[1, 2, 3]] := by
  rcases sendAll_eq oneConnection_writable
    (show ∀ payload ∈ [([1, 2, 3] : Bytes)], payload.length < 2 ^ 31 by simp) with
    ⟨sent, finished, _⟩
  refine ⟨sent, finished, ?_⟩
  rw [threeBytes_output finished]
  refine ⟨⟨by decide, rfl⟩, ⟨by decide, rfl⟩, ?_, ?_, ?_, ?_⟩
  · rw [InputBelow]
    decide +kernel
  · rw [InputBelow]
    decide +kernel
  · decide +kernel
  · decide +kernel

end LibeventHandle

end MultiMaster.NetIO
