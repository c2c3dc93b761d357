/-
What is on the card is what was logged. A record and an opening are written down as a reader should find them,
field by field, without the code that puts them on the card; the card, read file by file in the order of the ring,
is then a journal of them. What a reader gets is all that was logged, but for the oldest files and for what a cut
took before it was synced.
-/
import BoredomOS.Log.Decode
import BoredomOS.Storage.Journal

namespace BoredomOS.Log

open DataFlash (Record)
open Storage (Card File Rig Sys Journaled)

/-! ## What a reader should find -/

/-- A record as it was posted: its type, its size on disk and each of its fields. A request leaves nothing. -/
def SdRecord.records : SdRecord → List Record
  | .sys p => [⟨kMsgSys, sizeofLogSys,
      .num p.timeUs.toNat :: .num p.heapFree.toNat :: p.«stacks».toList.map fun mark => .num mark.toNat⟩]
  | .pwr p => [⟨kMsgPwr, sizeofLogPwr, [.num p.timeUs.toNat, .num p.millivolts.toNat, .num p.remaining.toInt]⟩]
  | .time p => [⟨kMsgTime, sizeofLogTime, [.num p.timeUs.toNat, .num p.unixtime.toNat, .num p.source.toNat]⟩]
  | .logList _ | .logRead _ | .logEnd _ => []

/-- The text of RST: the task of the last boot, if a fault hook ended it. -/
def Opening.task (o : Opening) : List UInt8 :=
  if o.boot.previousBootPhase = .stackOverflowFault ∨ o.boot.previousBootPhase = .mallocFailedFault then
    (strncpy 16 o.boot.previousFaultTask).toList
  else List.replicate 16 0

/-- An opening: the definitions, the time it is at and what ended the last boot. -/
def Opening.records (o : Opening) : List Record :=
  kPreamble.map (fun r => ⟨kMsgFmt, sizeofLogFormat, r.values⟩) ++
    [⟨kMsgTime, sizeofLogTime, [.num o.timeUs.toNat, .num (o.unixTime.toNat % 2 ^ 32 : Nat), .num o.source.toNat]⟩,
      ⟨kMsgFmt, sizeofLogFormat, kRstFormat.values⟩,
      ⟨kMsgRst, sizeofLogRst, [.num o.resetTimeUs.toNat, .num o.boot.previousResetReason.toByte.toNat,
        .num o.boot.previousBootPhase.toByte.toNat, .num o.boot.bootConsecutiveCount.toNat,
        .num o.boot.bootCumulativeCount.toNat, .text o.task]⟩]

/-- The bytes it takes on the card. -/
def SdRecord.size (r : SdRecord) : Nat := (r.records.map Record.size).sum

theorem records_writeRecord (r : SdRecord) : (Storage.appended (writeRecord r)).flatMap LogPiece.records = r.records := by
  cases r with
  | sys p | pwr p | time p =>
    rw [writeRecord, appended_piece]
    rfl
  | logList | logRead | logEnd => rfl

theorem records_writeLogPreamble (o : Opening) :
    ((writeLogPreamble o).flatMap Storage.appended).flatMap LogPiece.records = o.records := by
  simp only [writeLogPreamble, List.flatMap_cons, List.flatMap_nil, appended_piece, List.append_nil, List.cons_append,
    List.nil_append, LogPiece.records, Opening.records, Opening.task, LogTime.values, LogRst.values]
  split <;> rfl

theorem size_records (r : SdRecord) : r.size = Storage.bytesOf (writeRecord r) := by
  cases r <;> simp [SdRecord.size, SdRecord.records, writeRecord, Storage.bytesOf, Storage.Payload.bytes]

/-! ## What is handed to the log -/

/-- The record brings the open file to its limit, so the log goes on in the next slot. -/
def fillsFile (s : Sys LogPiece) (r : SdRecord) : Bool :=
  !r.records.isEmpty && decide (s.data.size ≤ s.dataFileSize + r.size)

/-- What the write of a record adds to the log: the record, and if it fills the file the opening of the next one. -/
def written (s : Sys LogPiece) (r : SdRecord) (o : Opening) : List Record :=
  r.records ++ if fillsFile s r then o.records else []

theorem fills_writeRecord {s : Sys LogPiece} {i : Nat} (hopen : s.data.dataFile = some i)
    (hslot : (s.card.slots i).isSome = true) (r : SdRecord) : s.fills (writeRecord r) = fillsFile s r := by
  obtain ⟨f, hf⟩ := Option.isSome_iff_exists.1 hslot
  cases hp : writeRecord r with
  | none =>
    have hnone : r.records = [] := by rw [← records_writeRecord, hp]; rfl
    simp [Sys.fills, hopen, fillsFile, hnone]
  | some p =>
    have happended := appended_piece p
    have hbytes : (Storage.Payload.bytes p).isEmpty = false := by cases p <;> rfl
    have hsome : r.records.isEmpty = false := by cases r <;> first | rfl | cases hp
    have hsize : (s.appendBytes (some p)).dataFileSize = s.dataFileSize + r.size := by
      rw [size_records, hp]
      simp [Sys.appendBytes, hopen, hbytes, Sys.dataFileSize, Card.append, Storage.alter_slots, hf, File.size, File.append,
        Storage.sizeOfPieces, Storage.bytesOf]
    simp [Sys.fills, hopen, hbytes, fillsFile, hsome, hsize]

/-- What a write hands to the log reads as the record and, if it fills the file, the next opening. -/
theorem records_hands {s : Sys LogPiece} {i : Nat} (hopen : s.data.dataFile = some i)
    (hslot : (s.card.slots i).isSome = true) (r : SdRecord) (o : Opening) :
    (s.hands (.write (writeRecord r) (writeLogPreamble o))).flatMap LogPiece.records = written s r o := by
  rw [Sys.hands, List.flatMap_append, records_writeRecord, fills_writeRecord hopen hslot, written]
  split
  · rw [records_writeLogPreamble]
  · rfl

/-- What an operation adds to the log. -/
def LogOp.logs (r : Rig LogPiece) : LogOp → List Record
  | .begin o => o.records
  | .record incoming o =>
    match r.data with
    | some d => written ⟨r.card, d⟩ incoming o
    | none => []

/-- What an event adds to the log, or part of it when power is lost. -/
def LogEv.logs (r : Rig LogPiece) : LogEv → Journal.Ev Record
  | .op o => .add (o.logs r)
  | .cutIn o _ => .crash (o.logs r)
  | .cut => .crash []

/-- An event on the card, which a request leaves alone. -/
def LogEv.step (files size : Nat) (r : Rig LogPiece) : LogEv → Option (Rig LogPiece)
  | .op o => o.toOp.elim (some r) fun op => r.step files size (.op op)
  | .cutIn o point => o.toOp.bind fun op => r.step files size (.cutIn op point)
  | .cut => r.step files size .cut

/-! ## The card as a journal of records -/

/-- What a reader makes of `data<i>.BIN`: nothing of a file that is absent, or that it cannot read to the end. -/
def readSlot (c : Card LogPiece) (i : Nat) : List Record :=
  ((c.slots i).bind fun f => DataFlash.readImage f.image).getD []

/-- What was deleted, and what a reader finds in the files of the ring, from the oldest on, the one at `h` last. -/
def readCard (n h : Nat) (c : Card LogPiece) : List Record :=
  (c.deleted.map Storage.Piece.payload).flatMap LogPiece.records ++ (Storage.others n h ++ [h]).flatMap (readSlot c)

/-- Every file reads as the records appended to it up to its last sync; all that was appended is what the journal
holds, and all that is read is what it has durable. -/
structure Logged (n h : Nat) (c : Card LogPiece) (j : Journal Record) : Prop where
  decodes : CardDecodes c
  all : (c.logged n h).flatMap LogPiece.records = j.all
  read : readCard n h c = j.durable

theorem readSlot_eq {c : Card LogPiece} (hc : CardDecodes c) (i : Nat) :
    readSlot c i = ((c.cut.piecesAt i).map Storage.Piece.payload).flatMap LogPiece.records := by
  unfold readSlot Card.piecesAt
  rw [Storage.cut_slots]
  cases hf : c.slots i with
  | none => rfl
  | some f =>
    rw [Option.bind_some, (hc i f hf).read]
    rfl

theorem readCard_eq {c : Card LogPiece} (hc : CardDecodes c) (n h : Nat) :
    readCard n h c = (c.cut.logged n h).flatMap LogPiece.records := by
  have hring : (Storage.others n h ++ [h]).flatMap (readSlot c) =
      ((c.cut.readRing n h).map Storage.Piece.payload).flatMap LogPiece.records := by
    rw [Card.readRing, List.map_flatMap, List.flatMap_assoc]
    exact List.flatMap_congr fun i _ => readSlot_eq hc i
  rw [readCard, hring, Card.logged, List.map_append, List.flatMap_append]
  rfl

section

variable {n size h : Nat} {r r' : Rig LogPiece} {j : Journal LogPiece}

/-- What an operation hands to the log, read back. -/
theorem records_logs (hat : r.At n size h) {o : LogOp} {op : Storage.Op LogPiece} (hop : o.toOp = some op)
    {s : Sys LogPiece} (hs : r.start n size op = some s) : (s.hands op).flatMap LogPiece.records = o.logs r := by
  cases o with
  | begin o =>
    cases hop
    exact records_writeLogPreamble o
  | record incoming o =>
    obtain ⟨p, hp, rfl⟩ := Option.map_eq_some_iff.1 hop
    obtain ⟨d, hd, rfl⟩ := Option.map_eq_some_iff.1 hs
    unfold Rig.At at hat
    rw [hd] at hat
    rw [← hp, records_hands hat.dataFile hat.slot, LogOp.logs, hd]

/-- A request adds nothing. -/
theorem logs_of_request {o : LogOp} (h : o.toOp = none) (r : Rig LogPiece) : o.logs r = [] := by
  cases o with
  | begin o => cases h
  | record incoming o =>
    have hrecords : incoming.records = [] := by
      rw [← records_writeRecord, Option.map_eq_none_iff.1 h]
      rfl
    rw [LogOp.logs]
    split
    · simp [written, fillsFile, hrecords]
    · rfl

/-- The card decodes, and is the journal. -/
structure Keeps (n size h : Nat) (r : Rig LogPiece) (j : Journal LogPiece) : Prop extends Journaled n size r h j where
  fit : logFormat.RigFit r

theorem Keeps.logged (hk : Keeps n size h r j) : Logged n h r.card (j.flatMap LogPiece.records) where
  decodes := cardDecodes_of_allGood hk.fit.all
  all := by rw [hk.all, Journal.all_flatMap]
  read := by
    rw [readCard_eq (cardDecodes_of_allGood hk.fit.all), hk.durable]
    rfl

/-- An event on the card adds to the journal what it hands over, as a reader should find it. -/
theorem keeps_step (hn : n < 2 ^ 31) (hk : Keeps n size h r j) {ev : Storage.Ev LogPiece} {e : Journal.Ev Record}
    (hfits : logFormat.EvFits ev) (hdam : ev.isDamage = false) (hstep : r.step n size ev = some r')
    (hlogs : ∀ x ∈ r.handed n size ev, x.flatMap LogPiece.records = e) :
    ∃ h' j', Journal.Step (j.flatMap LogPiece.records) e (j'.flatMap LogPiece.records) ∧ Keeps n size h' r' j' := by
  obtain ⟨h', j', e', hhanded, hs, hj'⟩ := Storage.journaled_step hn hk.toJournaled hdam hstep
  refine ⟨h', j', ?_, hj', Storage.rigFit_step hk.fit hfits hstep⟩
  rw [← hlogs e' (hhanded ▸ List.mem_singleton_self e')]
  exact hs.flatMap LogPiece.records

/-- Each event adds to the journal what it logs. -/
theorem keeps_logEv (hn : n < 2 ^ 31) (hk : Keeps n size h r j) {e : LogEv} (hstep : e.step n size r = some r') :
    ∃ h' j', Journal.Step (j.flatMap LogPiece.records) (e.logs r) (j'.flatMap LogPiece.records) ∧ Keeps n size h' r' j' := by
  cases e with
  | op o =>
    rw [LogEv.step] at hstep
    cases hop : o.toOp with
    | none =>
      rw [hop] at hstep
      cases hstep
      refine ⟨h, j, ?_, hk⟩
      rw [LogEv.logs, logs_of_request hop]
      exact .add (List.append_nil _).symm (List.prefix_refl _)
    | some op =>
      rw [hop] at hstep
      refine keeps_step hn hk (show logFormat.EvFits (.op op) from fits_toOp hop) rfl hstep fun x hx => ?_
      obtain ⟨s, hstart, rfl⟩ := Option.map_eq_some_iff.1 (Option.mem_toList.1 hx)
      exact congrArg Journal.Ev.add (records_logs hk.at_ hop hstart)
  | cutIn o point =>
    obtain ⟨op, hop, hstep⟩ := Option.bind_eq_some_iff.1 hstep
    refine keeps_step hn hk (show logFormat.EvFits (.cutIn op point) from fits_toOp hop) rfl hstep fun x hx => ?_
    obtain ⟨s, hstart, rfl⟩ := Option.map_eq_some_iff.1 (Option.mem_toList.1 hx)
    exact congrArg Journal.Ev.crash (records_logs hk.at_ hop hstart)
  | cut =>
    refine keeps_step hn hk (show logFormat.EvFits .cut from trivial) rfl hstep fun x hx => ?_
    obtain rfl := List.mem_singleton.1 hx
    rfl

/-- On the way through an operation: what would be left of it by a cut. -/
theorem keeps_within (hn : n < 2 ^ 31) (hk : Keeps n size h r j) {o : LogOp} {op : Storage.Op LogPiece}
    (hop : o.toOp = some op) {p : Sys LogPiece} (hp : p ∈ r.within n size op) : CardDecodes p.card ∧
      ∃ h' j', Journal.Step (j.flatMap LogPiece.records) (.crash (o.logs r)) j' ∧ readCard n h' p.card = j'.all := by
  have hdecodes := cardDecodes_of_allGood (Storage.rigFit_within hk.fit (fits_toOp hop) p hp)
  unfold Rig.within at hp
  split at hp
  swap
  · cases hp
  rename_i s hstart
  have hway := ((Steps.Prog.wp_iff _ _).1 (Storage.way_op hn hk.at_ hstart)).1 p hp
  obtain ⟨h', j', hs, hj'⟩ := Storage.journaled_cut hk.toJournaled hway
  refine ⟨hdecodes, h', j'.flatMap LogPiece.records, ?_, ?_⟩
  · rw [← records_logs hk.at_ hop hstart]
    exact hs.flatMap LogPiece.records
  · rw [readCard_eq hdecodes, Journal.all_flatMap, ← hj'.all]

end

/-- Whatever is logged, wherever the ring rotates and power is lost, from an empty card: every file decodes, and
what a reader finds, oldest file first, is a journal of the records and openings logged, with their values, when
the run ends and at every point of the operation that follows. -/
theorem flight_log_decodes (files size : Nat) (hfiles : 0 < files) (hmax : files < 2 ^ 31) (es : List LogEv)
    (r : Rig LogPiece) (hrun : Runs.run (LogEv.step files size) { card := {} } es = some r) :
    ∃ h j, Journal.Run {} (Runs.collect (LogEv.step files size) (fun r e => [e.logs r]) { card := {} } es) j ∧
      (∀ d, r.data = some d → h = d.fileIdx) ∧ Logged files h r.card j ∧
      ∀ o op, LogOp.toOp o = some op → ∀ p ∈ r.within files size op, CardDecodes p.card ∧
        ∃ h' j', Journal.Step j (.crash (o.logs r)) j' ∧ readCard files h' p.card = j'.all := by
  obtain ⟨h₀, hempty⟩ : ∃ h₀, Journaled files size ({ card := {} } : Rig LogPiece) h₀ {} := Storage.journaled_empty hfiles
  obtain ⟨h, j, hj, hk⟩ := Runs.inv_history (P := fun es r => ∃ h j, Journal.Run {} (Runs.collect (LogEv.step files size)
    (fun r e => [e.logs r]) ({ card := {} } : Rig LogPiece) es) (Journal.flatMap LogPiece.records j) ∧ Keeps files size h r j)
    ⟨h₀, {}, .nil, hempty, Storage.rigFit_empty⟩ (fun es r e r' hrun hr hstep => by
      obtain ⟨h, j, hj, hk⟩ := hr
      obtain ⟨h', j', hs, hk'⟩ := keeps_logEv hmax hk hstep
      refine ⟨h', j', ?_, hk'⟩
      rw [Runs.collect_concat hrun hstep]
      exact hj.step hs) hrun
  exact ⟨h, _, hj, fun d hd => hk.head hd, hk.logged, fun o op hop p hp => keeps_within hmax hk hop hp⟩

/-- A first opening, a battery record, and power lost once the next opening has its constant part
and TIME on the card. -/
def cutPreamble : List LogEv :=
  let boot : Recovery.BootInfo := {
    previousBootPhase := .schedulerStarted, previousFaultTask := [], previousResetReason := .powerOn
    reducedConfiguration := false, bootConsecutiveCount := 1, bootCumulativeCount := 1 }
  let opening : Opening := { timeUs := 1000, unixTime := 1700000000, source := 1, resetTimeUs := 1200, boot }
  [.op (.begin opening), .op (.record (.pwr { timeUs := 5000, millivolts := 3700, remaining := 80 }) opening),
    .cutIn (.begin opening) 11]

theorem flight_log_decodes_cutPreamble : ∃ r, Runs.run (LogEv.step 4 (1024 * 1024)) { card := {} } cutPreamble = some r ∧
    (readSlot r.card 0)[7]? = some ⟨kMsgPwr, sizeofLogPwr, [.num 5000, .num 3700, .num 80]⟩ ∧
    (readSlot r.card 0).length = 13 ∧
    ∃ h j, Journal.Run {} (Runs.collect (LogEv.step 4 (1024 * 1024)) (fun r e => [e.logs r]) { card := {} } cutPreamble) j ∧
      (∀ d, r.data = some d → h = d.fileIdx) ∧ Logged 4 h r.card j ∧
      ∀ o op, LogOp.toOp o = some op → ∀ p ∈ r.within 4 (1024 * 1024) op, CardDecodes p.card ∧
        ∃ h' j', Journal.Step j (.crash (o.logs r)) j' ∧ readCard 4 h' p.card = j'.all := by
  have hread : (Runs.run (LogEv.step 4 (1024 * 1024)) { card := {} } cutPreamble).map (fun r =>
      ((readSlot r.card 0)[7]?, (readSlot r.card 0).length)) =
        some (some ⟨kMsgPwr, sizeofLogPwr, [.num 5000, .num 3700, .num 80]⟩, 13) := by decide +kernel
  obtain ⟨r, hrun, hread⟩ := Option.map_eq_some_iff.1 hread
  obtain ⟨hpwr, hlength⟩ := Prod.mk.inj hread
  exact ⟨r, hrun, hpwr, hlength, flight_log_decodes 4 (1024 * 1024) (by decide) (by decide) cutPreamble r hrun⟩

end BoredomOS.Log
