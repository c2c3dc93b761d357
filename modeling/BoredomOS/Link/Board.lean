/-
The link as a whole: the two readers, `TaskMavlink` and the two writers, with the queues of `src/main.cpp`
between them. A pass of `TaskMavlink` takes what waits first and makes its sends one by one, among the steps
of everyone else. From the bytes of a port to its frames, a command is acknowledged once, in its turn and
where it came from, unless one of the two queues on the way was full.
-/
import Mathlib.Data.List.DropRight
import BoredomOS.Link.Acks
import BoredomOS.Link.TaskLinkRead
import BoredomOS.Link.Written

namespace BoredomOS.Link

open Runs

/-- An item sent to a write queue, and whether the queue took it. -/
structure Sent where
  intent : LinkMsg
  accepted : Bool

/-- The tasks of the link. `pending` is what the pass under way has still to send. Kept beside them: what was
sent to each write queue. -/
structure Board (parser : MavlinkParser) (lib : MavlinkLibrary) where
  reads : LinkRead parser
  mavlink : TaskMavlink
  pending : List (Fin 2 × LinkMsg)
  writers : Fin 2 → PortWriter lib
  sent : Fin 2 → List Sent := fun _ => []

inductive BoardEv
  /-- a byte arrives, or a reader goes on -/
  | read (e : LinkReadEv)
  /-- `TaskMavlink` makes a pass, with the item that waits first if there is one -/
  | pass (e : Pass)
  /-- the next send of the pass -/
  | xQueueSend
  /-- `TaskSdWrite` posts a LOG_ENTRY or LOG_DATA -/
  | logProtocol (port : Fin 2) (m : Log.LinkMsg)
  /-- a writer goes on -/
  | write (port : Fin 2) (e : WriterEv)

namespace Board

variable {parser : MavlinkParser} {lib : MavlinkLibrary}

/-- `xQueueReceive(linkReadQueue, &inbound, ...)`, with or without an item. -/
def received (s : Board parser lib) : LinkRead parser := (s.reads.step .xQueueReceive).getD s.reads

def post (s : Board parser lib) (port : Fin 2) (intent : LinkMsg) : Board parser lib :=
  let w := s.writers port
  { s with
    writers := Function.update s.writers port { w with writeQueue := (Fifo.send writeQueueDepth w.writeQueue intent).2 }
    sent := Function.update s.sent port (s.sent port ++ [⟨intent, (Fifo.send writeQueueDepth w.writeQueue intent).1⟩]) }

/-- What the queues hold meanwhile reaches a pass through the count in SYS_STATUS alone; that one is left open. -/
def step (c : Conversion) (s : Board parser lib) : BoardEv → Option (Board parser lib)
  | .read .xQueueReceive => none
  | .read e => (s.reads.step e).map fun reads => { s with reads }
  | .pass e =>
    if s.pending.isEmpty then
      (s.mavlink.step c { e with received := s.reads.linkReadQueue.head? }).map fun mavlink =>
        { s with reads := s.received, mavlink, pending := mavlink.offered.drop s.mavlink.offered.length }
    else none
  | .xQueueSend =>
    match s.pending with
    | [] => none
    | (port, intent) :: rest => some ({ s with pending := rest }.post port intent)
  | .logProtocol port m => some (s.post port (.ofLog m))
  | .write _ (.xQueueSend _) => none
  | .write port e => ((s.writers port).step port e).map fun w => { s with writers := Function.update s.writers port w }

/-- As the scheduler starts: nothing read, nothing written, and the texts of `TaskMavlink` to send. -/
def boot (parser : MavlinkParser) (lib : MavlinkLibrary) (status : parser.Status) (seq : Fin 2 → UInt8) (b : Start) :
    Board parser lib where
  reads := .boot parser status
  mavlink := b.task
  pending := b.task.offered
  writers := writersBoot lib seq

end Board

/-! ## Commands and their acknowledgements -/

/-- The commands among a port's messages. -/
def commandsOf (msgs : List MavlinkMessage) : List UInt16 :=
  msgs.filterMap fun msg => if msg.msgid = TaskMavlink.msgIdCommandLong then some msg.commandLong.command else none

/-- The commands of a port among the items of `linkReadQueue`. -/
def commandsOn (port : Fin 2) (xs : List InboundMsg) : List UInt16 := xs.filterMap (·.asks port)

def acksOf (items : List LinkMsg) : List UInt16 := items.filterMap LinkMsg.acks

theorem acksOf_append (xs ys : List LinkMsg) : acksOf (xs ++ ys) = acksOf xs ++ acksOf ys := List.filterMap_append

theorem commandsOn_append (port : Fin 2) (xs ys : List InboundMsg) :
    commandsOn port (xs ++ ys) = commandsOn port xs ++ commandsOn port ys := List.filterMap_append

theorem commandsOn_offered (port : Fin 2) (xs : List Offered) :
    commandsOn port (xs.map Offered.inbound) = commandsOf (offeredBy port xs) := by
  unfold commandsOn commandsOf offeredBy
  rw [List.filterMap_map, List.filterMap_map, List.filterMap_filter]
  refine List.filterMap_congr fun x _ => ?_
  by_cases hchan : x.inbound.chan = port <;> simp [InboundMsg.asks, hchan]

namespace Board

variable {parser : MavlinkParser} {lib : MavlinkLibrary} {s s' : Board parser lib}

theorem received_taken (s : Board parser lib) : s.received.taken = s.reads.taken ++ s.reads.linkReadQueue.head?.toList := by
  unfold received
  cases hqueue : s.reads.linkReadQueue with
  | nil => simp [LinkRead.step, hqueue]
  | cons inbound rest => simp [LinkRead.step, hqueue]

/-- A property of the readers that their steps keep. -/
theorem received_keeps {P : LinkRead parser → Prop} (hstep : ∀ {r r' e}, P r → r.step e = some r' → P r') (h : P s.reads) :
    P s.received := by
  unfold received
  cases hs : s.reads.step .xQueueReceive with
  | none => exact h
  | some r => exact hstep h hs

/-- The items of a port's write queue, in the order they were sent. -/
def items (s : Board parser lib) (port : Fin 2) : List LinkMsg := (s.sent port).map Sent.intent

/-- Those the queue took. -/
def queued (s : Board parser lib) (port : Fin 2) : List LinkMsg := ((s.sent port).filter Sent.accepted).map Sent.intent

/-- What a port is owed is what it asked for: on the way in, in the pass, on the way out. -/
structure Ok (status : parser.Status) (seq : Fin 2 → UInt8) (port : Fin 2) (s : Board parser lib) : Prop where
  read : ReadOk status port s.reads
  queue : QueueOk s.reads
  answered : acknowledged port s.mavlink.offered = commandsOn port s.reads.taken
  posted : acksOf (s.items port) ++ acknowledged port s.pending = acknowledged port s.mavlink.offered
  packed : ∃ packed, Packed port (seq port) (s.queued port) packed (s.writers port)

variable {status : parser.Status} {seq : Fin 2 → UInt8} {port : Fin 2}

theorem post_items (s : Board parser lib) (q : Fin 2) (intent : LinkMsg) :
    (s.post q intent).items port = s.items port ++ if q = port then [intent] else [] := by
  unfold items post
  by_cases hq : q = port
  · subst hq
    simp
  · simp [hq, Ne.symm hq]

theorem packed_post (s : Board parser lib) (q : Fin 2) (intent : LinkMsg)
    (h : ∃ packed, Packed port (seq port) (s.queued port) packed (s.writers port)) :
    ∃ packed, Packed port (seq port) ((s.post q intent).queued port) packed ((s.post q intent).writers port) := by
  obtain ⟨packed, h⟩ := h
  by_cases hq : q = port
  · subst hq
    have hsend : (s.writers q).step q (.xQueueSend intent) = some ((s.post q intent).writers q) := by
      simp [PortWriter.step, post]
    obtain ⟨now, -, hpacked⟩ := packed_step h hsend
    have hqueued : (s.post q intent).queued q = s.queued q ++ (s.writers q).accepts (.xQueueSend intent) := by
      by_cases hroom : (s.writers q).writeQueue.length < writeQueueDepth <;>
        simp [queued, post, PortWriter.accepts, hroom]
    rw [hqueued]
    exact ⟨_, hpacked⟩
  · refine ⟨packed, ?_⟩
    simpa [queued, post, Ne.symm hq] using h

/-- A send that is no acknowledgement, or the next one of the pass. -/
theorem Ok.post (h : Ok status seq port s) {pending : List (Fin 2 × LinkMsg)} (q : Fin 2) (intent : LinkMsg)
    (hnext : acknowledged port [(q, intent)] ++ acknowledged port pending = acknowledged port s.pending) :
    Ok status seq port ({ s with pending }.post q intent) := by
  refine ⟨h.read, h.queue, h.answered, ?_, packed_post { s with pending } q intent h.packed⟩
  have hitems : acksOf (({ s with pending }.post q intent).items port) = acksOf (s.items port) ++ acknowledged port [(q, intent)] := by
    rw [post_items, acksOf_append]
    congr 1
    by_cases hq : q = port
    · subst hq
      cases hack : intent.acks <;> simp [acksOf, acknowledged, hack]
    · simp [acksOf, acknowledged, hq]
  rw [hitems, List.append_assoc]
  exact (congrArg _ hnext).trans h.posted

/-- A step of a reader. -/
theorem Ok.read_step (h : Ok status seq port s) {e : LinkReadEv} {r : LinkRead parser} (he : e ≠ .xQueueReceive)
    (hr : s.reads.step e = some r) : Ok status seq port { s with reads := r } := by
  refine ⟨readOk_step h.read hr, queueOk_step h.queue hr, ?_, h.posted, h.packed⟩
  rw [taken_step hr he]
  exact h.answered

/-- A step of a writer. -/
theorem Ok.write_step (h : Ok status seq port s) {q : Fin 2} {e : WriterEv} {w : PortWriter lib}
    (hnone : (s.writers q).accepts e = []) (hw : (s.writers q).step q e = some w) :
    Ok status seq port { s with writers := Function.update s.writers q w } := by
  refine ⟨h.read, h.queue, h.answered, h.posted, ?_⟩
  obtain ⟨packed, hpacked⟩ := h.packed
  by_cases hq : q = port
  · subst hq
    obtain ⟨now, -, hpacked'⟩ := packed_step hpacked hw
    rw [hnone, List.append_nil] at hpacked'
    exact ⟨packed ++ now, by simpa [queued] using hpacked'⟩
  · exact ⟨packed, by simpa [queued, Ne.symm hq] using hpacked⟩

/-- A pass of `TaskMavlink`, which owes an answer for the item it takes. -/
theorem Ok.pass_step (h : Ok status seq port s) {c : Conversion} {e : Pass} {m : TaskMavlink} (hidle : s.pending = [])
    (hm : s.mavlink.step c { e with received := s.reads.linkReadQueue.head? } = some m) :
    Ok status seq port
      { s with reads := s.received, mavlink := m, pending := m.offered.drop s.mavlink.offered.length } := by
  obtain ⟨more, hmore, hacks⟩ := s.mavlink.acks_pass c { e with received := s.reads.linkReadQueue.head? }
  rw [TaskMavlink.pass_of_step hm] at hmore
  have hpending : m.offered.drop s.mavlink.offered.length = more := by rw [hmore, List.drop_left]
  refine ⟨received_keeps readOk_step h.read, received_keeps queueOk_step h.queue, ?_, ?_, h.packed⟩
  · dsimp only
    rw [hmore, acknowledged_append, hacks, h.answered, received_taken, commandsOn_append]
    cases s.reads.linkReadQueue.head? with
    | none => rfl
    | some inbound => cases hasks : inbound.asks port <;> simp [commandsOn, hasks]
  · have hposted := h.posted
    rw [hidle, acknowledged_eq_nil (by simp), List.append_nil] at hposted
    dsimp only
    rw [hpending, hmore, acknowledged_append, ← hposted]
    rfl

theorem ok_step {c : Conversion} {e : BoardEv} (h : Ok status seq port s) (hstep : s.step c e = some s') :
    Ok status seq port s' := by
  cases e with
  | read e =>
    cases e with
    | xQueueReceive => cases hstep
    | receive | turn | wake =>
      simp only [step] at hstep
      obtain ⟨r, hr, rfl⟩ := Option.map_eq_some_iff.1 hstep
      exact h.read_step (by simp) hr
  | pass e =>
    simp only [step] at hstep
    split at hstep
    · rename_i hidle
      obtain ⟨m, hm, rfl⟩ := Option.map_eq_some_iff.1 hstep
      exact h.pass_step (List.isEmpty_iff.1 hidle) hm
    · cases hstep
  | xQueueSend =>
    simp only [step] at hstep
    split at hstep
    · cases hstep
    · rename_i q intent rest hpending
      cases hstep
      refine h.post q intent ?_
      rw [hpending, ← acknowledged_append]
      rfl
  | logProtocol q m =>
    cases hstep
    refine h.post q (.ofLog m) ?_
    have hnone : acknowledged port [(q, LinkMsg.ofLog m)] = [] := by
      refine acknowledged_eq_nil fun x hx => ?_
      rw [List.mem_singleton.1 hx]
      cases m <;> rfl
    rw [hnone, List.nil_append]
  | write q e =>
    cases e with
    | xQueueSend intent => cases hstep
    | xQueueReceive | mavlinkPack | offer =>
      simp only [step] at hstep
      obtain ⟨w, hw, rfl⟩ := Option.map_eq_some_iff.1 hstep
      exact h.write_step rfl hw

theorem ok_boot (b : Start) : Ok status seq port (boot parser lib status seq b) := by
  refine ⟨⟨rfl, rfl, rfl⟩, ⟨rfl, Nat.zero_le _⟩, TaskMavlink.acks_task b port, List.nil_append _, [], ?_⟩
  exact ⟨rfl, rfl, rfl, Nat.zero_le _⟩

theorem ok_run {c : Conversion} {b : Start} {es : List BoardEv} (hrun : run (step c) (boot parser lib status seq b) es = some s)
    (port : Fin 2) : Ok status seq port s :=
  inv (fun _ _ _ => ok_step) (ok_boot b) hrun

/-- However the tasks of the link take turns: the frames a port was offered are those of the first messages its
write queue took, the acknowledgements among these are of commands the port's bytes hold, in their order and no
more often, and as long as neither `linkReadQueue` nor the write queue has refused anything no command is
missing: each is acknowledged, or its acknowledgement is on the way, or it still waits to be received. -/
theorem commands_acknowledged (c : Conversion) (parser : MavlinkParser) (lib : MavlinkLibrary) (status : parser.Status)
    (seq : Fin 2 → UInt8) (b : Start) (es : List BoardEv) (s : Board parser lib)
    (hrun : run (step c) (boot parser lib status seq b) es = some s) (port : Fin 2) :
    ∃ packed : List (LinkMsg × PackState),
      s.queued port = packed.map Prod.fst ++ (s.writers port).stage.intents ++ (s.writers port).writeQueue ∧
      (s.writers port).offered.map Prod.fst ++ (s.writers port).stage.frames =
        Mealy.outputs (packer lib port) (seq port) packed ∧
      (acksOf (packed.map Prod.fst)).Sublist (commandsOf (completedBy parser status (s.reads.ports port).consumed)) ∧
      ((∀ x ∈ s.reads.offered, x.accepted = true) → (∀ x ∈ s.sent port, x.accepted = true) →
        commandsOf (completedBy parser status (s.reads.ports port).consumed) = acksOf (packed.map Prod.fst) ++
          acksOf ((s.writers port).stage.intents ++ (s.writers port).writeQueue) ++ acknowledged port s.pending ++
          commandsOn port s.reads.linkReadQueue) := by
  have h : Ok status seq port s := ok_run hrun port
  obtain ⟨packed, hpacked⟩ := h.packed
  have hin : commandsOf (completedBy parser status (s.reads.ports port).consumed) =
      commandsOn port (s.reads.offered.map Offered.inbound) := by
    rw [commandsOn_offered, h.read.offered]
  have htaken : commandsOn port s.reads.taken ++ commandsOn port s.reads.linkReadQueue =
      commandsOn port ((s.reads.offered.filter Offered.accepted).map Offered.inbound) := by
    rw [← commandsOn_append, h.queue.accepted]
  have hout : acksOf (s.items port) ++ acknowledged port s.pending = commandsOn port s.reads.taken :=
    h.posted.trans h.answered
  refine ⟨packed, hpacked.accepted, hpacked.frames, ?_, fun hread hsent => ?_⟩
  · -- of what is asked for, the two queues drop some at most, and some is not packed yet
    have hpack : (acksOf (packed.map Prod.fst)).Sublist (acksOf (s.queued port)) := by
      rw [hpacked.accepted, List.append_assoc, acksOf_append]
      exact List.sublist_append_left _ _
    have hsend : (acksOf (s.queued port)).Sublist (acksOf (s.items port)) := (List.filter_sublist.map _).filterMap _
    have hpass : (acksOf (s.items port)).Sublist (commandsOn port s.reads.taken) := hout ▸ List.sublist_append_left _ _
    have hwait : (commandsOn port s.reads.taken).Sublist
        (commandsOn port ((s.reads.offered.filter Offered.accepted).map Offered.inbound)) :=
      htaken ▸ List.sublist_append_left _ _
    rw [hin]
    exact (((hpack.trans hsend).trans hpass).trans hwait).trans ((List.filter_sublist.map _).filterMap _)
  · have hall : s.queued port = s.items port := by rw [queued, List.filter_eq_self.2 hsent, items]
    rw [List.filter_eq_self.2 hread] at htaken
    rw [hin, ← htaken, ← hout, ← hall, hpacked.accepted, acksOf_append (packed.map _ ++ _), acksOf_append (packed.map _),
      acksOf_append]
    simp only [List.append_assoc]

/-! ## A command whose acknowledgement goes out -/

/-- A COMMAND_LONG with all seven parameters zero. -/
def commandFrame (seq sysid compid : UInt8) (command : UInt16) (targetSystem targetComponent : UInt8) : List UInt8 :=
  frameBytes seq sysid compid 76 152
    (List.replicate 28 0 ++ LittleEndian.ofNat 2 command.toNat ++ [targetSystem, targetComponent])

def commandParser : MavlinkParser := frameParser 152 fun payload =>
  { groundMessage TaskMavlink.msgIdCommandLong with commandLong := {
      command := UInt16.ofNat (LittleEndian.toNat ((payload.drop 28).take 2)), param1 := .finite 0, param2 := .finite 0 } }

/-- A frame of the kinds a board packs first. -/
structure AnswerFrame where
  seq : UInt8
  sysid : UInt8
  compid : UInt8
  msg : MavMessage

/-- The payload of a STATUSTEXT, COMMAND_ACK or LOG_DATA, and the extra byte of its checksum. -/
def AnswerFrame.payload (f : AnswerFrame) : List UInt8 × UInt8 :=
  match f.msg with
  | .statustext severity text id chunkSeq => (severity :: text.toList ++ LittleEndian.ofNat 2 id.toNat ++ [chunkSeq], 83)
  | .commandAck command result progress resultParam2 targetSystem targetComponent =>
    (LittleEndian.ofNat 2 command.toNat ++ [result, progress] ++ LittleEndian.ofNat 4 resultParam2.toUInt32.toNat ++
      [targetSystem, targetComponent], 143)
  | .logData id ofs count data =>
    (LittleEndian.ofNat 4 ofs.toNat ++ LittleEndian.ofNat 2 id.toNat ++ count :: data.toList, 134)
  | _ => ([0], 0)

/-- The zeros at the end of a payload are left out. -/
def AnswerFrame.bytes (f : AnswerFrame) : List UInt8 :=
  frameBytes f.seq f.sysid f.compid (UInt8.ofNat f.msg.msgid.toNat) f.payload.2 (f.payload.1.rdropWhile (· = 0))

theorem AnswerFrame.length_le (f : AnswerFrame) : f.bytes.length ≤ maxPacketLen := by
  have hpayload : f.payload.1.length ≤ 97 := by
    unfold payload
    split <;> simp
  have htrim := (List.rdropWhile_prefix (· = (0 : UInt8)) f.payload.1).length_le
  simp only [bytes, length_frameBytes, maxPacketLen]
  omega

def answerLibrary : MavlinkLibrary where
  Frame := AnswerFrame
  packChan currentTxSeq _ sysid compid msg := (⟨currentTxSeq, sysid, compid, msg⟩, currentTxSeq + 1)
  seq := AnswerFrame.seq
  sendBuffer := AnswerFrame.bytes
  stamps _ _ _ _ _ := rfl
  increments _ _ _ _ _ := rfl
  length_le := AnswerFrame.length_le

/-- A ground station on USB asks for the home position while the boot's texts go out; the text on its port, then
its answer. -/
def homePositionAsked : List BoardEv :=
  (commandFrame 0 255 190 410 1 1).flatMap (fun b => [.read (.receive linkChanUsb b), .read (.turn linkChanUsb)]) ++
    List.replicate 4 .xQueueSend ++ [.pass (quietPass 510 none), .xQueueSend] ++
    (List.replicate 3 [.write linkChanUsb .xQueueReceive, .write linkChanUsb (.mavlinkPack firstBoot),
      .write linkChanUsb (.offer 256)]).flatten

theorem commands_acknowledged_homePosition : ∃ s : Board commandParser answerLibrary,
    run (step .vcvt) (boot commandParser answerLibrary ([], false) (fun _ => 0) freshStart) homePositionAsked = some s ∧
      (s.writers linkChanUsb).written.map (fun f => f.msg.msgid) = [253, 253, 77] ∧
      commandsOf (completedBy commandParser ([], false) (s.reads.ports linkChanUsb).consumed) = [410] ∧
      ∃ packed : List (LinkMsg × PackState), acksOf (packed.map Prod.fst) = [410] ∧
        (s.writers linkChanUsb).offered.map Prod.fst ++ (s.writers linkChanUsb).stage.frames =
          Mealy.outputs (packer answerLibrary linkChanUsb) 0 packed := by
  have hrun : (run (step .vcvt) (boot commandParser answerLibrary ([], false) (fun _ => 0) freshStart) homePositionAsked).map (fun s =>
      (s.reads.offered.all Offered.accepted && (s.sent linkChanUsb).all Sent.accepted,
        [(s.writers linkChanUsb).written.map (fun f : AnswerFrame => f.msg.msgid),
          commandsOf (completedBy commandParser ([], false) (s.reads.ports linkChanUsb).consumed),
          acksOf ((s.writers linkChanUsb).stage.intents ++ (s.writers linkChanUsb).writeQueue),
          acknowledged linkChanUsb s.pending, commandsOn linkChanUsb s.reads.linkReadQueue])) =
      some (true, [[253, 253, 77], [410], [], [], []]) := by decide +kernel
  obtain ⟨s, hs, hseen⟩ := Option.map_eq_some_iff.1 hrun
  simp only [Prod.mk.injEq, Bool.and_eq_true, List.all_eq_true, List.cons.injEq] at hseen
  obtain ⟨⟨hread, hsent⟩, hwritten, hcommands, hwaiting, hpending, hqueue, -⟩ := hseen
  obtain ⟨packed, -, hframes, -, hexact⟩ :=
    commands_acknowledged .vcvt commandParser answerLibrary ([], false) (fun _ => 0) freshStart homePositionAsked s hs linkChanUsb
  have hacks := hexact hread hsent
  rw [hcommands, hwaiting, hpending, hqueue] at hacks
  refine ⟨s, hs, hwritten, hcommands, packed, ?_, hframes⟩
  simpa using hacks.symm

end Board

end BoredomOS.Link
