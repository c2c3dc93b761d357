/-
What `TaskLinkWrite` makes of the messages its queue takes: each is packed once, in the order of the queue,
with what `mavlinkPack` reads at that moment, and offered to the port once. The frames of a port are the
outputs of one machine on these messages, whatever happens on the other port in between.
-/
import BoredomOS.Lib.Mealy
import BoredomOS.Link.Sequence

namespace BoredomOS.Link

open Runs

variable {lib : MavlinkLibrary}

/-- What a message and a moment come to, with the channel's counter. -/
def packer (lib : MavlinkLibrary) (chan : Fin 2) (currentTxSeq : UInt8) (x : LinkMsg × PackState) : UInt8 × lib.Frame :=
  let (msgToSend, currentTxSeq) := mavlinkPack lib x.2 currentTxSeq chan x.1
  (currentTxSeq, msgToSend)

/-- A message the queue has room for. -/
def PortWriter.accepts (w : PortWriter lib) : WriterEv → List LinkMsg
  | .xQueueSend intent => if w.writeQueue.length < writeQueueDepth then [intent] else []
  | _ => []

/-- The messages a port's queue took. -/
def PortWriter.accepted (chan : Fin 2) (w : PortWriter lib) (es : List WriterEv) : List LinkMsg :=
  collect (PortWriter.step chan) PortWriter.accepts w es

/-- What `mavlinkPack` read each time it was called. -/
def packings (es : List WriterEv) : List PackState :=
  es.filterMap fun
    | .mavlinkPack st => some st
    | _ => none

/-- The message taken and not yet packed. -/
def WriteStage.intents {Frame : Type} : WriteStage Frame → List LinkMsg
  | .mavlinkPack intent => [intent]
  | _ => []

/-- The frame packed and not yet offered. -/
def WriteStage.frames {Frame : Type} : WriteStage Frame → List Frame
  | .availableForWrite msgToSend => [msgToSend]
  | _ => []

/-- The packed messages are the first ones the queue took, and the machine has seen these. -/
structure Packed (chan : Fin 2) (first : UInt8) (accepted : List LinkMsg) (packed : List (LinkMsg × PackState))
    (w : PortWriter lib) : Prop where
  accepted : accepted = packed.map Prod.fst ++ w.stage.intents ++ w.writeQueue
  frames : w.offered.map Prod.fst ++ w.stage.frames = Mealy.outputs (packer lib chan) first packed
  next : w.currentTxSeq = Mealy.state (packer lib chan) first packed
  depth : w.writeQueue.length ≤ writeQueueDepth

theorem packed_step {chan : Fin 2} {first : UInt8} {accepted : List LinkMsg} {packed : List (LinkMsg × PackState)}
    {w w' : PortWriter lib} {e : WriterEv} (h : Packed chan first accepted packed w) (hs : w.step chan e = some w') :
    ∃ now, now.map Prod.snd = packings [e] ∧ Packed chan first (accepted ++ w.accepts e) (packed ++ now) w' := by
  obtain ⟨haccepted, hframes, hnext, hdepth⟩ := h
  cases e with
  | xQueueSend intent =>
    cases hs
    refine ⟨[], rfl, ?_⟩
    rw [List.append_nil]
    by_cases hroom : w.writeQueue.length < writeQueueDepth
    · refine ⟨?_, hframes, hnext, ?_⟩
      · dsimp only [PortWriter.accepts]
        rw [if_pos hroom, Fifo.send_room hroom, haccepted, List.append_assoc]
      · dsimp only
        rw [Fifo.send_room hroom, List.length_append]
        exact hroom
    · refine ⟨?_, hframes, hnext, ?_⟩
      · dsimp only [PortWriter.accepts]
        rw [if_neg hroom, Fifo.send_full hroom, List.append_nil]
        exact haccepted
      · dsimp only
        rw [Fifo.send_full hroom]
        exact hdepth
  | xQueueReceive =>
    refine ⟨[], rfl, ?_⟩
    rw [List.append_nil]
    simp only [PortWriter.step] at hs
    split at hs
    · rename_i intent rest hstage hqueue
      cases hs
      rw [hstage] at haccepted hframes
      rw [hqueue] at haccepted hdepth
      exact ⟨by simpa [WriteStage.intents, PortWriter.accepts] using haccepted, hframes, hnext,
        (Nat.le_succ _).trans hdepth⟩
    · cases hs
  | mavlinkPack st =>
    simp only [PortWriter.step] at hs
    split at hs
    · rename_i intent hstage
      cases hs
      rw [hstage] at haccepted hframes
      refine ⟨[(intent, st)], rfl, ?_, ?_, ?_, hdepth⟩
      · simpa [WriteStage.intents, PortWriter.accepts] using haccepted
      · rw [Mealy.outputs_concat, ← hframes, ← hnext]
        simp [WriteStage.frames, packer]
      · rw [Mealy.state_concat, ← hnext]
        rfl
    · cases hs
  | offer answer =>
    refine ⟨[], rfl, ?_⟩
    rw [List.append_nil]
    simp only [PortWriter.step] at hs
    split at hs
    · rename_i f hstage
      cases hs
      rw [hstage] at haccepted hframes
      refine ⟨?_, ?_, hnext, hdepth⟩
      · simpa [WriteStage.intents, PortWriter.accepts] using haccepted
      · simpa [WriteStage.frames] using hframes
    · cases hs

theorem packed_run {chan : Fin 2} {w₀ w : PortWriter lib} {es : List WriterEv} (hfirst : w₀ = { currentTxSeq := w₀.currentTxSeq })
    (h : run (PortWriter.step chan) w₀ es = some w) :
    ∃ packed, packed.map Prod.snd = packings es ∧ Packed chan w₀.currentTxSeq (w₀.accepted chan es) packed w := by
  refine inv_history (P := fun es w => ∃ packed, packed.map Prod.snd = packings es ∧
    Packed chan w₀.currentTxSeq (w₀.accepted chan es) packed w) ?_ ?_ h
  · rw [hfirst]
    exact ⟨[], rfl, rfl, rfl, rfl, Nat.zero_le _⟩
  · rintro es w e w' hrun ⟨packed, hpackings, hpacked⟩ hs
    obtain ⟨now, hnow, hpacked'⟩ := packed_step hpacked hs
    refine ⟨packed ++ now, ?_, ?_⟩
    · rw [List.map_append, hpackings, hnow]
      exact List.filterMap_append.symm
    · rw [PortWriter.accepted, collect_concat hrun hs]
      exact hpacked'

/-- The UART's driver says it has room for `INT_MAX`. -/
theorem discards_uart (x : lib.Frame × Int32) : discards linkChanUart x = false := by
  have hlength := lib.length_le x.1
  simp only [discards, availableForWrite, linkChanUart, maxPacketLen] at hlength ⊢
  simp
  omega

/-- In any run of both ports: the messages a port's queue took are those packed so far, the one about to be
packed and those still waiting, in this order; the frames offered to the port, with the one about to be, are
what packing these messages one after the other gives, each with what `mavlinkPack` read then; and the port
wrote those it had room for, the UART all of them. -/
theorem outbound_exact (lib : MavlinkLibrary) (first : Fin 2 → UInt8) (es : List (Fin 2 × WriterEv))
    (s : Fin 2 → PortWriter lib) (h : run (stepAt PortWriter.step) (writersBoot lib first) es = some s) (port : Fin 2) :
    let accepted := (writersBoot lib first port).accepted port (ownEvents port es)
    let moments := packings (ownEvents port es)
    moments.length ≤ accepted.length ∧
      accepted = accepted.take moments.length ++ (s port).stage.intents ++ (s port).writeQueue ∧
      (s port).offered.map Prod.fst ++ (s port).stage.frames =
        Mealy.outputs (packer lib port) (first port) (accepted.zip moments) ∧
      (s port).written = ((s port).offered.filter fun x => !discards port x).map Prod.fst ∧
      (port = linkChanUart → (s port).written = (s port).offered.map Prod.fst) := by
  have hrun : run _ _ (ownEvents port es) = _ := run_stepAt port h
  obtain ⟨packed, hpackings, haccepted, hframes, -, -⟩ := packed_run rfl hrun
  have hlength : (packings (ownEvents port es)).length = packed.length := by rw [← hpackings, List.length_map]
  have hwritten := (numbered_run h port).written
  dsimp only
  refine ⟨?_, ?_, ?_, hwritten, ?_⟩
  · rw [haccepted, hlength]
    simp
  · rw [hlength, haccepted]
    simp
  · have hzip : ∀ rest, (packed.map Prod.fst ++ rest).zip (packed.map Prod.snd) = packed := by
      intro rest
      rw [← List.append_nil (packed.map Prod.snd), List.zip_append (by simp), List.zip_nil_right, List.append_nil]
      exact (List.zip_of_prod rfl rfl).symm
    rw [haccepted, ← hpackings, List.append_assoc, hzip]
    exact hframes
  · rintro rfl
    rw [hwritten, List.filter_eq_self.2]
    intro x _
    rw [discards_uart]
    rfl

/-- The stalled host of above, with a message behind that the port's writer has not yet taken. -/
def stalledHostAsked : List (Fin 2 × WriterEv) := stalledHost ++ [(linkChanUsb, .xQueueSend .autopilotVersion)]

theorem outbound_exact_stalled : ∃ s : Fin 2 → PortWriter heartbeatLibrary,
    run (stepAt PortWriter.step) (writersBoot heartbeatLibrary fun _ => 0) stalledHostAsked = some s ∧
      (s linkChanUsb).offered.map Prod.fst ++ (s linkChanUsb).stage.frames =
        Mealy.outputs (packer heartbeatLibrary linkChanUsb) 0
          (((writersBoot heartbeatLibrary (fun _ => 0) linkChanUsb).accepted linkChanUsb
            (ownEvents linkChanUsb stalledHostAsked)).zip (packings (ownEvents linkChanUsb stalledHostAsked))) ∧
      (s linkChanUsb).written.map heartbeatLibrary.seq = [0, 2] ∧ (s linkChanUsb).writeQueue = [.autopilotVersion] := by
  have hrun : (run (stepAt PortWriter.step) (writersBoot heartbeatLibrary fun _ => 0) stalledHostAsked).map
      (fun s => ((s linkChanUsb).written.map heartbeatLibrary.seq, (s linkChanUsb).writeQueue)) =
      some ([0, 2], [.autopilotVersion]) := by decide +kernel
  obtain ⟨s, hs, hseen⟩ := Option.map_eq_some_iff.1 hrun
  obtain ⟨hwritten, hqueue⟩ := Prod.mk.inj hseen
  obtain ⟨-, -, hframes, -⟩ := outbound_exact heartbeatLibrary (fun _ => 0) stalledHostAsked s hs linkChanUsb
  exact ⟨s, hs, hframes, hwritten, hqueue⟩

end BoredomOS.Link
