/-
The write queue of a port between `TaskMavlink`, `TaskSdWrite` and the port's writer, and the count
of dropped frames `SYS_STATUS` reports. `enqueueWrite` of `src/mavlink.cpp` counts what the full queue
refuses; `TaskSdWrite` sends past it and looks at no result, so its refused frames are missing from the
count until that has saturated without them.
-/
import BoredomOS.Lib.Fifo
import BoredomOS.Lib.Runs
import BoredomOS.Link.LinkMsg

namespace BoredomOS.Link

open Runs

/-! ## The queue and its users -/

inductive Producer
  | taskMavlink | taskSdWrite
  deriving DecidableEq, Repr

/-- Kept beside the queue and the count: how many sends of each producer were refused. -/
structure Outbound where
  writeQueue : List LinkMsg := []
  writeDropCount : UInt16 := 0
  refused : Producer → Nat := fun _ => 0

/-- What `sendSysStatus` reads beside the count. -/
structure SysReadings where
  sdCardAvailable : Bool
  reducedConfiguration : Bool
  millivolts : UInt16
  remaining : Int8
  rxDropCount : UInt16

def sensorLogging : UInt32 := 16777216
def sensorBattery : UInt32 := 33554432

namespace Outbound

def xQueueSend (o : Outbound) (producer : Producer) (intent : LinkMsg) : Bool × Outbound :=
  let (accepted, writeQueue) := Fifo.send writeQueueDepth o.writeQueue intent
  let refused := o.refused producer + if accepted then 0 else 1
  (accepted, { o with writeQueue, refused := Function.update o.refused producer refused })

def enqueueWrite (o : Outbound) (intent : LinkMsg) : Outbound :=
  let (accepted, o) := o.xQueueSend .taskMavlink intent
  if !accepted && o.writeDropCount < 65535 then { o with writeDropCount := o.writeDropCount + 1 } else o

/-- The message of `sendSysStatus`. -/
def sysStatus (o : Outbound) (r : SysReadings) : SysStatus where
  sensors := (if r.sdCardAvailable then sensorLogging else 0) ||| if r.reducedConfiguration then 0 else sensorBattery
  voltageMv := if r.reducedConfiguration then 65535 else r.millivolts
  batteryRemaining := if r.reducedConfiguration then -1 else r.remaining
  errorsComm := r.rxDropCount
  errorsCount1 := o.writeDropCount

def sendSysStatus (o : Outbound) (r : SysReadings) : Outbound := o.enqueueWrite (.sysStatus (o.sysStatus r))

end Outbound

inductive OutboundEv
  /-- any other message of `TaskMavlink` -/
  | enqueueWrite (intent : LinkMsg)
  | sendSysStatus (r : SysReadings)
  /-- a LOG_ENTRY or LOG_DATA of `TaskSdWrite` -/
  | logProtocol (m : Log.LinkMsg)
  | xQueueReceive

def Outbound.step (o : Outbound) : OutboundEv → Option Outbound
  | .enqueueWrite intent => some (o.enqueueWrite intent)
  | .sendSysStatus r => some (o.sendSysStatus r)
  | .logProtocol m => some (o.xQueueSend .taskSdWrite (.ofLog m)).2
  | .xQueueReceive => if o.writeQueue.isEmpty then none else some { o with writeQueue := (Fifo.receive o.writeQueue).2 }

/-- The two ports, each with its own queue and count. -/
abbrev portStep : (Fin 2 → Outbound) → Fin 2 × OutboundEv → Option (Fin 2 → Outbound) := stepAt fun _ => Outbound.step

/-! ## What is counted -/

/-- The count saturates, and has seen what `TaskMavlink` was refused. -/
def Outbound.Counted (o : Outbound) : Prop := o.writeDropCount.toNat = min 65535 (o.refused .taskMavlink)

theorem enqueueWrite_counted {o : Outbound} (h : o.Counted) (intent : LinkMsg) : (o.enqueueWrite intent).Counted := by
  unfold Outbound.Counted at h ⊢
  unfold Outbound.enqueueWrite Outbound.xQueueSend
  by_cases hroom : o.writeQueue.length < writeQueueDepth
  · simpa [Fifo.send, hroom] using h
  · by_cases hsat : o.writeDropCount < 65535
    · have hlt : o.writeDropCount.toNat < 65535 := hsat
      simp only [Fifo.send, hroom, hsat, if_false, if_true, Bool.not_false, Bool.true_and, decide_true,
        Bool.false_eq_true, Function.update_self, UInt16.toNat_add, UInt16.toNat_one]
      omega
    · have hge : ¬ o.writeDropCount.toNat < 65535 := hsat
      simp only [Fifo.send, hroom, hsat, if_false, Bool.not_false, Bool.true_and, decide_false, Bool.false_eq_true,
        Function.update_self]
      omega

theorem step_counted {o o' : Outbound} {e : OutboundEv} (h : o.Counted) (hs : o.step e = some o') : o'.Counted := by
  cases e with
  | enqueueWrite intent =>
    cases hs
    exact enqueueWrite_counted h intent
  | sendSysStatus r =>
    cases hs
    exact enqueueWrite_counted h _
  | logProtocol m =>
    cases hs
    exact h
  | xQueueReceive =>
    obtain ⟨-, rfl⟩ : ¬ o.writeQueue.isEmpty ∧ { o with writeQueue := (Fifo.receive o.writeQueue).2 } = o' := by
      simpa [Outbound.step] using hs
    exact h

/-- No step takes a refusal back. -/
theorem step_refused_le {o o' : Outbound} {e : OutboundEv} (hs : o.step e = some o') (producer : Producer) :
    o.refused producer ≤ o'.refused producer := by
  have hsend : ∀ p intent, o.refused producer ≤ (o.xQueueSend p intent).2.refused producer := by
    intro p intent
    unfold Outbound.xQueueSend
    by_cases hp : producer = p
    · subst hp
      simp
    · simp [Function.update_of_ne hp]
  have henqueue : ∀ intent, o.refused producer ≤ (o.enqueueWrite intent).refused producer := by
    intro intent
    have h := hsend .taskMavlink intent
    unfold Outbound.enqueueWrite
    dsimp only
    split
    · exact h
    · exact h
  cases e with
  | enqueueWrite intent =>
    cases hs
    exact henqueue intent
  | sendSysStatus r =>
    cases hs
    exact henqueue _
  | logProtocol m =>
    cases hs
    exact hsend .taskSdWrite _
  | xQueueReceive =>
    obtain ⟨-, rfl⟩ : ¬ o.writeQueue.isEmpty ∧ { o with writeQueue := (Fifo.receive o.writeQueue).2 } = o' := by
      simpa [Outbound.step] using hs
    exact le_rfl

theorem run_counted {es : List OutboundEv} {o o' : Outbound} (h : o.Counted) (hrun : run Outbound.step o es = some o') :
    o'.Counted := inv (fun _ _ _ => step_counted) h hrun

theorem run_refused_le {es : List OutboundEv} {o o' : Outbound} (hrun : run Outbound.step o es = some o')
    (producer : Producer) : o.refused producer ≤ o'.refused producer :=
  inv (P := fun m => o.refused producer ≤ m.refused producer)
    (fun _ _ _ hle hs => hle.trans (step_refused_le hs producer)) le_rfl hrun

/-- `errors_count1` is right in a state exactly if `TaskSdWrite` was refused nothing or the count has
saturated on what `TaskMavlink` was refused; it never decreases. -/
theorem errors_count1_iff (es : List (Fin 2 × OutboundEv)) (s : Fin 2 → Outbound)
    (h : run portStep (fun _ => {}) es = some s) (port : Fin 2) (r : SysReadings) :
    (((s port).sysStatus r).errorsCount1.toNat =
        min 65535 ((s port).refused .taskMavlink + (s port).refused .taskSdWrite) ∧
      ∀ more s' r', run portStep s more = some s' →
        ((s port).sysStatus r).errorsCount1 ≤ ((s' port).sysStatus r').errorsCount1) ↔
    (s port).refused .taskSdWrite = 0 ∨ 65535 ≤ (s port).refused .taskMavlink := by
  have hboot : Outbound.Counted {} := rfl
  have hcount : (s port).Counted := run_counted hboot (run_stepAt port h)
  have hmono : ∀ more s' r', run portStep s more = some s' →
      ((s port).sysStatus r).errorsCount1 ≤ ((s' port).sysStatus r').errorsCount1 := by
    intro more s' r' hrun
    have hown := run_stepAt port hrun
    have hcount' : (s' port).writeDropCount.toNat = min 65535 ((s' port).refused .taskMavlink) := run_counted hcount hown
    have hle := run_refused_le hown .taskMavlink
    change (s port).writeDropCount.toNat ≤ (s' port).writeDropCount.toNat
    unfold Outbound.Counted at hcount
    omega
  rw [and_iff_left hmono]
  change (s port).writeDropCount.toNat = _ ↔ _
  unfold Outbound.Counted at hcount
  omega

/-! ## A frame that is not counted -/

/-- Nine heartbeats fill the USB port's queue while its host does not read, then a LOG_DATA is posted. -/
def fullQueue : List (Fin 2 × OutboundEv) :=
  List.replicate 9 (linkChanUsb, .enqueueWrite .heartbeat) ++
    [(linkChanUsb, .logProtocol (.logData { ofs := 0, id := 1, count := 0, data := Log.chars 90 [] }))]

def readings : SysReadings where
  sdCardAvailable := true
  reducedConfiguration := false
  millivolts := 3700
  remaining := 80
  rxDropCount := 0

theorem fullQueue_uncounted : ¬ ∀ (es : List (Fin 2 × OutboundEv)) (s : Fin 2 → Outbound),
    run portStep (fun _ => {}) es = some s → ∀ port r, ((s port).sysStatus r).errorsCount1.toNat =
      min 65535 ((s port).refused .taskMavlink + (s port).refused .taskSdWrite) := by
  intro h
  have hrun : (run portStep (fun _ => {}) fullQueue).map (fun s =>
      (((s 1).sysStatus readings).errorsCount1, (s 1).refused .taskMavlink, (s 1).refused .taskSdWrite)) =
      some (0, 0, 1) := by decide +kernel
  obtain ⟨s, hs, hcounts⟩ := Option.map_eq_some_iff.1 hrun
  have hwrong := h fullQueue s hs 1 readings
  simp only [Prod.mk.injEq] at hcounts
  rw [hcounts.1, hcounts.2.1, hcounts.2.2] at hwrong
  revert hwrong
  decide

theorem errors_count1_iff_full : ∃ s, run portStep (fun _ => {}) fullQueue = some s ∧
    ((((s 1).sysStatus readings).errorsCount1.toNat =
        min 65535 ((s 1).refused .taskMavlink + (s 1).refused .taskSdWrite) ∧
      ∀ more s' r', run portStep s more = some s' →
        ((s 1).sysStatus readings).errorsCount1 ≤ ((s' 1).sysStatus r').errorsCount1) ↔
    (s 1).refused .taskSdWrite = 0 ∨ 65535 ≤ (s 1).refused .taskMavlink) := by
  have hrun : (run portStep (fun _ => {}) fullQueue).isSome = true := by decide +kernel
  obtain ⟨s, hs⟩ := Option.isSome_iff_exists.1 hrun
  exact ⟨s, hs, errors_count1_iff fullQueue s hs 1 readings⟩

end BoredomOS.Link
