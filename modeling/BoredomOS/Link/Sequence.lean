/-
`TaskLinkWrite` of `src/link.cpp`, one instance a port. A frame gets its sequence number when it is
packed and is discarded afterwards if the port has no room for it: the number is used up, and what
is written next is further on by one for each discarded frame. Only a multiple of 256 of them leaves
no gap. The UART's writer discards none.
-/
import BoredomOS.Lib.Fifo
import BoredomOS.Lib.LittleEndian
import BoredomOS.Lib.Numbering
import BoredomOS.Lib.Runs
import BoredomOS.Link.MavlinkPack

namespace BoredomOS.Link

open Runs

variable {lib : MavlinkLibrary}

/-! ## The writer of a port -/

/-- Where the loop of `TaskLinkWrite` is. -/
inductive WriteStage (Frame : Type)
  | xQueueReceive
  | mavlinkPack (intent : LinkMsg)
  | availableForWrite (msgToSend : Frame)

/-- A port with its channel. Kept beside them: the frames the port was asked about, with its answers. -/
structure PortWriter (lib : MavlinkLibrary) where
  writeQueue : List LinkMsg := []
  currentTxSeq : UInt8
  stage : WriteStage lib.Frame := .xQueueReceive
  offered : List (lib.Frame × Int32) := []
  written : List lib.Frame := []

/-- `uartAvailableForWrite` says `INT_MAX`, `usbAvailableForWrite` what the port answers. -/
def availableForWrite (chan : Fin 2) (answer : Int32) : Int32 :=
  if chan = linkChanUart then 2147483647 else answer

def discards (chan : Fin 2) (offer : lib.Frame × Int32) : Bool :=
  (availableForWrite chan offer.2).toInt < (lib.sendBuffer offer.1).length

inductive WriterEv
  /-- some task sends to the write queue -/
  | xQueueSend (intent : LinkMsg)
  | xQueueReceive
  | mavlinkPack (st : PackState)
  /-- the port is asked and the frame is written or discarded -/
  | offer (answer : Int32)

def PortWriter.step (chan : Fin 2) (w : PortWriter lib) : WriterEv → Option (PortWriter lib)
  | .xQueueSend intent => some { w with writeQueue := (Fifo.send writeQueueDepth w.writeQueue intent).2 }
  | .xQueueReceive =>
    match w.stage, w.writeQueue with
    | .xQueueReceive, intent :: rest => some { w with writeQueue := rest, stage := .mavlinkPack intent }
    | _, _ => none
  | .mavlinkPack st =>
    match w.stage with
    | .mavlinkPack intent =>
      let (msgToSend, currentTxSeq) := Link.mavlinkPack lib st w.currentTxSeq chan intent
      some { w with currentTxSeq, stage := .availableForWrite msgToSend }
    | _ => none
  | .offer answer =>
    match w.stage with
    | .availableForWrite msgToSend =>
      some { w with
        stage := .xQueueReceive
        offered := w.offered ++ [(msgToSend, answer)]
        written := if discards chan (msgToSend, answer) then w.written else w.written ++ [msgToSend] }
    | _ => none

/-- Both ports before their first frame; the library's counters stand at any number. -/
def writersBoot (lib : MavlinkLibrary) (first : Fin 2 → UInt8) (port : Fin 2) : PortWriter lib :=
  { currentTxSeq := first port }

/-- The events of one port, in their order. -/
def ownEvents (port : Fin 2) (es : List (Fin 2 × WriterEv)) : List WriterEv :=
  (es.filter fun e => e.1 = port).map Prod.snd

/-! ## The numbers given out -/

/-- The number of the `i`-th frame packed. -/
def seqFrom (first : UInt8) (i : Nat) : UInt8 := first + UInt8.ofNat i

theorem seqFrom_succ (first : UInt8) (i : Nat) : seqFrom first (i + 1) = seqFrom first i + 1 := by
  rw [seqFrom, seqFrom, UInt8.ofNat_add, UInt8.add_assoc]
  rfl

/-- Two numbers follow each other if a multiple of 256 lies between them. -/
theorem seqFrom_next_iff (first : UInt8) (n lost : Nat) :
    seqFrom first (n + 1 + lost) = seqFrom first n + 1 ↔ 256 ∣ lost := by
  have h : seqFrom first (n + 1 + lost) = seqFrom first n + 1 + UInt8.ofNat lost := by
    rw [← seqFrom_succ, seqFrom, seqFrom, UInt8.ofNat_add (n + 1), UInt8.add_assoc]
  rw [h, UInt8.add_eq_left, ← UInt8.toNat_inj, UInt8.toNat_ofNat', UInt8.toNat_zero, Nat.dvd_iff_mod_eq_zero]

/-- How many frames are packed and not yet offered. -/
def WriteStage.pending {Frame : Type} : WriteStage Frame → Nat
  | .availableForWrite _ => 1
  | _ => 0

/-- Frames are numbered in the order they are packed, and written unless discarded. -/
structure Numbered (chan : Fin 2) (first : UInt8) (w : PortWriter lib) : Prop where
  offered : w.offered.map (fun x => lib.seq x.1) = (List.range' 0 w.offered.length).map (seqFrom first)
  held : ∀ f, w.stage = .availableForWrite f → lib.seq f = seqFrom first w.offered.length
  next : w.currentTxSeq = seqFrom first (w.offered.length + w.stage.pending)
  written : w.written = (w.offered.filter fun x => !discards chan x).map Prod.fst

theorem numbered_step {chan : Fin 2} {first : UInt8} {w w' : PortWriter lib} {e : WriterEv} (h : Numbered chan first w)
    (hs : w.step chan e = some w') : Numbered chan first w' := by
  obtain ⟨offered, held, next, written⟩ := h
  cases e with
  | xQueueSend intent =>
    cases hs
    exact ⟨offered, held, next, written⟩
  | xQueueReceive =>
    simp only [PortWriter.step] at hs
    split at hs
    · rename_i intent rest hstage hqueue
      cases hs
      rw [hstage] at next
      exact ⟨offered, fun f hf => (by cases hf), next, written⟩
    · cases hs
  | mavlinkPack st =>
    simp only [PortWriter.step] at hs
    split at hs
    · rename_i intent hstage
      obtain ⟨hseq, hnext⟩ := mavlinkPack_spec lib st w.currentTxSeq chan intent
      cases hs
      rw [hstage] at next
      refine ⟨offered, fun f hf => ?_, ?_, written⟩
      · cases hf
        rw [hseq, next]
        rfl
      · rw [WriteStage.pending, seqFrom_succ, hnext, next]
        rfl
    · cases hs
  | offer answer =>
    simp only [PortWriter.step] at hs
    split at hs
    · rename_i f hstage
      have hf := held f hstage
      cases hs
      rw [hstage] at next
      refine ⟨?_, fun f hf => (by cases hf), ?_, ?_⟩
      · simp only [List.map_append, List.map_cons, List.map_nil, List.length_append, List.length_singleton,
          List.range'_concat, offered, hf]
        simp
      · rw [List.length_append]
        exact next
      · cases hd : discards chan (f, answer) <;> simp [written, hd]
    · cases hs

/-- In any run of both ports, each one numbers its own frames. -/
theorem numbered_run {first : Fin 2 → UInt8} {es : List (Fin 2 × WriterEv)} {s : Fin 2 → PortWriter lib}
    (h : run (stepAt PortWriter.step) (writersBoot lib first) es = some s) (port : Fin 2) :
    Numbered port (first port) (s port) := by
  have hrun := run_stepAt port h
  refine inv (fun _ _ _ => numbered_step) ?_ hrun
  exact ⟨rfl, fun f hf => (by cases hf), by simp [writersBoot, seqFrom, WriteStage.pending], rfl⟩

/-! ## Gaps -/

/-- Each frame written carries the number after the one before. -/
def GapFree (w : PortWriter lib) : Prop :=
  List.IsChain (fun a b => lib.seq b = lib.seq a + 1) w.written

/-- Between two frames that were written, a multiple of 256 was discarded, or none. -/
def DiscardsUnseen (port : Fin 2) (w : PortWriter lib) : Prop :=
  ∀ g ∈ (Numbering.losses 0 (w.offered.map fun x => !discards port x)).tail, 256 ∣ g

theorem gapFree_iff {port : Fin 2} {first : UInt8} {w : PortWriter lib} (h : Numbered port first w) :
    GapFree w ↔ DiscardsUnseen port w := by
  have hkept : w.written.map lib.seq = (Numbering.kept 0 (w.offered.map fun x => !discards port x)).map (seqFrom first) := by
    rw [h.written, List.map_map]
    exact Numbering.map_filter_eq_kept h.offered
  have hchain : GapFree w ↔ List.IsChain (fun a b => b = a + 1) (w.written.map lib.seq) := by
    rw [List.isChain_map]
    rfl
  rw [hchain, hkept, List.isChain_map]
  exact Numbering.chain_kept_iff (seqFrom_next_iff first) _ 0 0

/-- What one port writes is gap-free exactly if its discards between two written frames come in
multiples of 256, and is the same in every run in which that port's own events are the same. -/
theorem sequence_gap_free_iff (lib : MavlinkLibrary) (first : Fin 2 → UInt8) (es : List (Fin 2 × WriterEv))
    (s : Fin 2 → PortWriter lib) (h : run (stepAt PortWriter.step) (writersBoot lib first) es = some s) (port : Fin 2) :
    (GapFree (s port) ∧ ∀ (first' : Fin 2 → UInt8) (fs : List (Fin 2 × WriterEv)) (s' : Fin 2 → PortWriter lib),
      run (stepAt PortWriter.step) (writersBoot lib first') fs = some s' →
      first' port = first port → ownEvents port fs = ownEvents port es → (s' port).written = (s port).written) ↔
    DiscardsUnseen port (s port) := by
  rw [← gapFree_iff (numbered_run h port), and_iff_left]
  intro first' fs s' h' hfirst hown
  have hrun := run_stepAt port h
  have hrun' := run_stepAt port h'
  have hboot : writersBoot lib first' port = writersBoot lib first port := by rw [writersBoot, writersBoot, hfirst]
  change run _ _ (ownEvents port fs) = _ at hrun'
  rw [hown, hboot] at hrun'
  exact congrArg PortWriter.written (Option.some.inj (hrun'.symm.trans hrun))

/-- The UART's writer always has room, so what it writes has no gap. -/
theorem uart_gap_free {first : Fin 2 → UInt8} {es : List (Fin 2 × WriterEv)} {s : Fin 2 → PortWriter lib}
    (h : run (stepAt PortWriter.step) (writersBoot lib first) es = some s) : GapFree (s 0) := by
  rw [gapFree_iff (numbered_run h 0)]
  intro g hg
  refine (Numbering.losses_of_all 0 ?_ g hg).symm ▸ dvd_zero 256
  intro flag hflag
  obtain ⟨x, -, rfl⟩ := List.mem_map.1 hflag
  have hlen := lib.length_le x.1
  simp only [discards, availableForWrite, linkChanUart, maxPacketLen] at hlen ⊢
  simp
  omega

/-! ## A port that stalls for one frame -/

/-- `crc_accumulate` -/
def crcAccumulate (crc : UInt16) (data : UInt8) : UInt16 :=
  let tmp := data ^^^ crc.toUInt8
  let tmp := (tmp ^^^ (tmp <<< 4)).toUInt16
  (crc >>> 8) ^^^ (tmp <<< 8) ^^^ (tmp <<< 3) ^^^ (tmp >>> 4)

/-- A MAVLink 2 frame: the checksum runs over all behind the magic byte and the message's extra byte. -/
def frameBytes (seq sysid compid msgid crcExtra : UInt8) (payload : List UInt8) : List UInt8 :=
  let body := [UInt8.ofNat payload.length, 0, 0, seq, sysid, compid, msgid, 0, 0] ++ payload
  0xFD :: body ++ LittleEndian.ofNat 2 ((body ++ [crcExtra]).foldl crcAccumulate 0xFFFF).toNat

@[simp] theorem length_frameBytes (seq sysid compid msgid crcExtra : UInt8) (payload : List UInt8) :
    (frameBytes seq sysid compid msgid crcExtra payload).length = payload.length + 12 := by
  simp only [frameBytes, List.length_append, List.length_cons, List.length_nil, LittleEndian.length_ofNat]
  omega

/-- A HEARTBEAT: message id 0, nine bytes of payload. -/
structure HeartbeatFrame where
  seq : UInt8
  sysid : UInt8
  compid : UInt8
  payload : { l : List UInt8 // l.length = 9 }

def HeartbeatFrame.bytes (f : HeartbeatFrame) : List UInt8 := frameBytes f.seq f.sysid f.compid 0 50 f.payload.1

/-- The library for the one message the firmware always sends. -/
def heartbeatLibrary : MavlinkLibrary where
  Frame := HeartbeatFrame
  packChan currentTxSeq _ sysid compid
    | .heartbeat type autopilot baseMode customMode systemStatus =>
      (⟨currentTxSeq, sysid, compid,
        LittleEndian.ofNat 4 customMode.toNat ++ [type, autopilot, baseMode, systemStatus, 3], by simp⟩, currentTxSeq + 1)
    | _ => (⟨currentTxSeq, sysid, compid, List.replicate 9 0, by simp⟩, currentTxSeq + 1)
  seq := HeartbeatFrame.seq
  sendBuffer := HeartbeatFrame.bytes
  stamps _ _ _ _ m := by cases m <;> rfl
  increments _ _ _ _ m := by cases m <;> rfl
  length_le f := by simp [HeartbeatFrame.bytes, f.payload.2, maxPacketLen]

/-- A first boot of an erased block. -/
def firstBoot : PackState where
  info :=
    { previousBootPhase := .start
      previousFaultTask := []
      previousResetReason := .powerOn
      reducedConfiguration := false
      bootConsecutiveCount := 0
      bootCumulativeCount := 0 }
  regs := fun _ => 0
  tickMs := 0

/-- Three heartbeats for the USB port, whose host does not read for the second one. -/
def stalledHost : List (Fin 2 × WriterEv) :=
  [64, 0, 64].flatMap fun answer =>
    [(linkChanUsb, .xQueueSend .heartbeat), (linkChanUsb, .xQueueReceive), (linkChanUsb, .mavlinkPack firstBoot),
      (linkChanUsb, .offer answer)]

/-- The ground sees 0 and then 2. -/
theorem stalledHost_gap : ¬ ∀ (lib : MavlinkLibrary) (es : List (Fin 2 × WriterEv)) (s : Fin 2 → PortWriter lib),
    run (stepAt PortWriter.step) (writersBoot lib fun _ => 0) es = some s → ∀ port, GapFree (s port) := by
  intro h
  have hrun : (run (stepAt PortWriter.step) (writersBoot heartbeatLibrary fun _ => 0) stalledHost).map
      (fun s => (s 1).written.map heartbeatLibrary.seq) = some [0, 2] := by decide +kernel
  obtain ⟨s, hs, hseq⟩ := Option.map_eq_some_iff.1 hrun
  have hgap := h heartbeatLibrary stalledHost s hs 1
  have hchain : List.IsChain (fun a b => b = a + 1) ((s 1).written.map heartbeatLibrary.seq) := by
    rw [List.isChain_map]
    exact hgap
  rw [hseq] at hchain
  revert hchain
  decide

/-- The theorem on that run: the port is not gap-free, for one discard is no multiple of 256. -/
theorem sequence_gap_free_iff_stalled : ∃ s : Fin 2 → PortWriter heartbeatLibrary,
    run (stepAt PortWriter.step) (writersBoot heartbeatLibrary fun _ => 0) stalledHost = some s ∧
      (GapFree (s 1) ∧ (∀ (first' : Fin 2 → UInt8) (fs : List (Fin 2 × WriterEv)) (s' : Fin 2 → PortWriter heartbeatLibrary),
        run (stepAt PortWriter.step) (writersBoot heartbeatLibrary first') fs = some s' →
        first' 1 = 0 → ownEvents 1 fs = ownEvents 1 stalledHost → (s' 1).written = (s 1).written) ↔
      DiscardsUnseen 1 (s 1)) := by
  have hrun : (run (stepAt PortWriter.step) (writersBoot heartbeatLibrary fun _ => 0) stalledHost).isSome = true := by
    decide +kernel
  obtain ⟨s, hs⟩ := Option.isSome_iff_exists.1 hrun
  exact ⟨s, hs, sequence_gap_free_iff heartbeatLibrary (fun _ => 0) stalledHost s hs 1⟩

end BoredomOS.Link
