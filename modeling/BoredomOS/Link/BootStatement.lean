/-
What a boot says of the one before it, on the link: the phase in the heartbeat's `custom_mode` and
the boot statement of `src/mavlink.cpp`. The statement is built with bounded appends in a field of
50 characters, and no combination that can arise is cut short by them.
-/
import Mathlib.Data.List.TakeWhile
import BoredomOS.Link.LinkMsg

namespace BoredomOS.Link

open Log (ascii strncpy)
open Recovery (Regs BootInfo BootPhase ResetReason)

def packCustomMode (info : BootInfo) (regs : Regs) : UInt32 :=
  let consecutive := min (Recovery.getConsecutiveCount regs) Recovery.consecutiveThreshold
  let cumulative := min (Recovery.getCumulativeCount regs) Recovery.cumulativeThreshold
  info.previousResetReason.toByte.toUInt32 ||| info.previousBootPhase.toByte.toUInt32 <<< 8 |||
    consecutive.toUInt32 <<< 16 ||| cumulative.toUInt32 <<< 24

def resetReasonText : ResetReason → List UInt8
  | .powerOn => ascii "power-on"
  | .lowVoltage => ascii "low voltage"
  | .watchdog => ascii "watchdog"
  | .software => ascii "software"
  | .externalUnknown => ascii "external/unknown"
  | .backupStateInvalid => ascii "backup state invalid"
  | .unnamed _ => ascii "unknown"

def bootPhaseText : BootPhase → List UInt8
  | .start => ascii "start"
  | .linkDone => ascii "link"
  | .clockDone => ascii "clock"
  | .cardDone => ascii "card"
  | .queuesDone => ascii "queues"
  | .tasksDone => ascii "tasks"
  | .schedulerStarted => ascii "scheduler"
  | .stackOverflowFault => ascii "stack overflow"
  | .mallocFailedFault => ascii "malloc failed"
  | .unnamed _ => ascii "unknown"

/-- `strncat`, on what stands before the terminator. -/
def strncat (text src : List UInt8) (n : Nat) : List UInt8 := text ++ (src.takeWhile (· ≠ 0)).take n

/-- How a fault is introduced in the statement, if the phase is one. -/
def faultText : BootPhase → Option (List UInt8)
  | .stackOverflowFault => some (ascii ", overflow ")
  | .mallocFailedFault => some (ascii ", malloc ")
  | _ => none

/-- In a `char[51]`. -/
def buildBootStatement (info : BootInfo) : List UInt8 :=
  let text := strncat [] (ascii "Reset: ") 50
  let text := strncat text (resetReasonText info.previousResetReason) (50 - text.length)
  match faultText info.previousBootPhase with
  | some fault =>
    let text := strncat text fault (50 - text.length)
    strncat text info.previousFaultTask (50 - text.length)
  | none =>
    let text := strncat text (ascii ", phase ") (50 - text.length)
    strncat text (bootPhaseText info.previousBootPhase) (50 - text.length)

/-- `MAV_SEVERITY_CRITICAL` -/
def severityCritical : UInt8 := 2

/-- What `sendStatusText` queues. -/
def sendStatusText (text : List UInt8) (severity : UInt8) : LinkMsg :=
  .statusText { severity, text := strncpy 50 text }

/-- What `sendBootStatement` queues, at boot and on request. -/
def sendBootStatement (info : BootInfo) : LinkMsg := sendStatusText (buildBootStatement info) severityCritical

/-! ## Nothing is cut short -/

theorem strncat_whole {src : List UInt8} {n : Nat} (text : List UInt8) (hchars : ∀ c ∈ src, c ≠ 0) (hlen : src.length ≤ n) :
    strncat text src n = text ++ src := by
  have htake : src.takeWhile (· ≠ 0) = src := List.takeWhile_eq_self_iff.2 fun c hc => by simpa using hchars c hc
  rw [strncat, htake, List.take_of_length_le hlen]

theorem forall_ne_zero {text : List UInt8} (h : text.all (· ≠ 0) = true) : ∀ c ∈ text, c ≠ 0 := by
  simpa using h

theorem resetReasonText_spec (reason : ResetReason) : (∀ c ∈ resetReasonText reason, c ≠ 0) ∧
    (resetReasonText reason).length ≤ 20 ∧
      (reason ≠ .backupStateInvalid → (resetReasonText reason).length ≤ 16) := by
  cases reason with
  | backupStateInvalid => exact ⟨forall_ne_zero (by decide), by decide, fun h => absurd rfl h⟩
  | unnamed raw =>
    simp only [resetReasonText]
    exact ⟨forall_ne_zero (by decide), by decide, fun _ => by decide⟩
  | _ => exact ⟨forall_ne_zero (by decide), by decide, fun _ => by decide⟩

theorem bootPhaseText_spec (phase : BootPhase) : (∀ c ∈ bootPhaseText phase, c ≠ 0) ∧
    (faultText phase = none → (bootPhaseText phase).length ≤ 9) := by
  cases phase with
  | stackOverflowFault => exact ⟨forall_ne_zero (by decide), fun h => by cases h⟩
  | mallocFailedFault => exact ⟨forall_ne_zero (by decide), fun h => by cases h⟩
  | unnamed raw =>
    simp only [bootPhaseText]
    exact ⟨forall_ne_zero (by decide), fun _ => by decide⟩
  | _ => exact ⟨forall_ne_zero (by decide), fun _ => by decide⟩

theorem faultText_spec {phase : BootPhase} {fault : List UInt8} (h : faultText phase = some fault) :
    (∀ c ∈ fault, c ≠ 0) ∧ fault.length ≤ 11 := by
  cases phase <;> simp only [faultText, reduceCtorEq, Option.some.injEq] at h <;> subst h <;>
    exact ⟨forall_ne_zero (by decide), by decide⟩

/-- The head of every statement. -/
theorem strncat_reason (reason : ResetReason) :
    strncat (strncat [] (ascii "Reset: ") 50) (resetReasonText reason) (50 - (strncat [] (ascii "Reset: ") 50).length) =
      ascii "Reset: " ++ resetReasonText reason := by
  obtain ⟨hchars, hlen, -⟩ := resetReasonText_spec reason
  have hhead : strncat [] (ascii "Reset: ") 50 = ascii "Reset: " := by decide
  rw [hhead, strncat_whole _ hchars]
  have : (ascii "Reset: ").length = 7 := by decide
  omega

/-- After a fault the statement names it and the whole task, in at most 49 characters, unless the
block was lost, which never meets a fault phase. -/
theorem buildBootStatement_fault {info : BootInfo} {fault : List UInt8}
    (hfault : faultText info.previousBootPhase = some fault) (hreason : info.previousResetReason ≠ .backupStateInvalid)
    (hchars : ∀ c ∈ info.previousFaultTask, c ≠ 0) (hlen : info.previousFaultTask.length ≤ 15) :
    buildBootStatement info = ascii "Reset: " ++ resetReasonText info.previousResetReason ++ fault ++
      info.previousFaultTask ∧ (buildBootStatement info).length ≤ 49 := by
  obtain ⟨-, -, hreasonLen⟩ := resetReasonText_spec info.previousResetReason
  obtain ⟨hfaultChars, hfaultLen⟩ := faultText_spec hfault
  have h16 := hreasonLen hreason
  have h7 : (ascii "Reset: ").length = 7 := by decide
  have htext : buildBootStatement info = ascii "Reset: " ++ resetReasonText info.previousResetReason ++ fault ++
      info.previousFaultTask := by
    unfold buildBootStatement
    simp only [hfault, strncat_reason]
    rw [strncat_whole _ hfaultChars (by simp only [List.length_append]; omega),
      strncat_whole _ hchars (by simp only [List.length_append]; omega)]
  refine ⟨htext, ?_⟩
  rw [htext]
  simp only [List.length_append]
  omega

/-- Without a fault it says how far the boot got. -/
theorem buildBootStatement_phase {info : BootInfo} (hfault : faultText info.previousBootPhase = none) :
    buildBootStatement info = ascii "Reset: " ++ resetReasonText info.previousResetReason ++ ascii ", phase " ++
      bootPhaseText info.previousBootPhase := by
  obtain ⟨-, hreasonLen, -⟩ := resetReasonText_spec info.previousResetReason
  obtain ⟨hphaseChars, hphaseLen⟩ := bootPhaseText_spec info.previousBootPhase
  have h9 := hphaseLen hfault
  have h7 : (ascii "Reset: ").length = 7 := by decide
  have h8 : (∀ c ∈ ascii ", phase ", c ≠ 0) ∧ (ascii ", phase ").length = 8 :=
    ⟨forall_ne_zero (by decide), by decide⟩
  unfold buildBootStatement
  simp only [hfault, strncat_reason]
  rw [strncat_whole _ h8.1 (by simp only [List.length_append]; omega),
    strncat_whole _ hphaseChars (by simp only [List.length_append]; omega)]

/-- The text speaks of a fault. -/
def NamesFault (text : List UInt8) : Prop := ascii ", overflow " <:+: text ∨ ascii ", malloc " <:+: text

instance (text : List UInt8) : Decidable (NamesFault text) := by unfold NamesFault; infer_instance

def reasonTexts : List (List UInt8) :=
  [.powerOn, .lowVoltage, .watchdog, .software, .externalUnknown, .backupStateInvalid, .unnamed 255].map resetReasonText

def phaseTexts : List (List UInt8) :=
  [.start, .linkDone, .clockDone, .cardDone, .queuesDone, .tasksDone, .schedulerStarted, .unnamed 255].map bootPhaseText

theorem resetReasonText_mem (reason : ResetReason) : resetReasonText reason ∈ reasonTexts := by
  cases reason <;> simp [reasonTexts, resetReasonText]

theorem bootPhaseText_mem {phase : BootPhase} (hfault : faultText phase = none) : bootPhaseText phase ∈ phaseTexts := by
  cases phase with
  | stackOverflowFault => cases hfault
  | mallocFailedFault => cases hfault
  | _ => simp [phaseTexts, bootPhaseText]

/-- No reason and no phase reads like a fault. -/
theorem not_namesFault_phase {reason : ResetReason} {phase : BootPhase} (hfault : faultText phase = none) :
    ¬ NamesFault (ascii "Reset: " ++ resetReasonText reason ++ ascii ", phase " ++ bootPhaseText phase) := by
  have h : ∀ r ∈ reasonTexts, ∀ p ∈ phaseTexts, ¬ NamesFault (ascii "Reset: " ++ r ++ ascii ", phase " ++ p) := by
    decide +kernel
  exact h _ (resetReasonText_mem reason) _ (bootPhaseText_mem hfault)

theorem namesFault_of_faultText {phase : BootPhase} {fault : List UInt8} (h : faultText phase = some fault)
    (head task : List UInt8) : NamesFault (head ++ fault ++ task) := by
  cases phase with
  | stackOverflowFault =>
    cases h
    exact Or.inl ⟨head, task, rfl⟩
  | mallocFailedFault =>
    cases h
    exact Or.inr ⟨head, task, rfl⟩
  | _ => cases h

end BoredomOS.Link
