/-
The boot decision and the resets around it: `decodeAndClearResetReason`,
`updateCountersAndDecideConfiguration` and the head of `setup()` in `src/main.cpp`, the reboot
command and the end of a pass of `TaskMavlink` in `src/mavlink.cpp`, the hooks of `src/hooks.cpp`.
`Board` puts them together: one board over any number of boots, with every way a boot can end.
-/
import BoredomOS.Lib.Runs
import BoredomOS.Recovery.Block

namespace BoredomOS.Recovery

open Steps

/-! ## The reset reason -/

/-- The flags of `RSTSR0`, `RSTSR1` and `RSTSR2` the firmware touches. -/
structure ResetStatus where
  iwdtrf : Bool := false
  wdtrf : Bool := false
  swrf : Bool := false
  lvd0rf : Bool := false
  lvd1rf : Bool := false
  lvd2rf : Bool := false
  porf : Bool := false
  dpsrstf : Bool := false
  cwsf : Bool := false
  deriving DecidableEq, Repr

def decodeAndClearResetReason (status : ResetStatus) : ResetReason × ResetStatus :=
  let watchdog := status.iwdtrf || status.wdtrf
  let software := status.swrf
  let lowVoltage := status.lvd0rf || status.lvd1rf || status.lvd2rf
  let powerOn := status.porf
  let reason : ResetReason :=
    if watchdog then .watchdog else if software then .software else if lowVoltage then .lowVoltage
    else if powerOn then .powerOn else .externalUnknown
  (reason, { cwsf := true })

/-! ## The boot decision -/

def updateCountersAndDecideConfiguration (reason : ResetReason) : Prog Regs Bool := do
  let deliberate ← consumeDeliberateReset
  let advancesConsecutive : Bool :=
    (reason = .watchdog || reason = .software) && deliberate = .none
  let stored ← .get getConsecutiveCount
  let counted ← .get getCumulativeCount
  let consecutive := if advancesConsecutive then stored + 1 else stored
  .when advancesConsecutive (setConsecutiveCount consecutive)
  let cumulative := counted + 1
  setCumulativeCount cumulative
  let overThreshold : Bool := consecutiveThreshold ≤ consecutive || cumulativeThreshold ≤ cumulative
  let snapshot ← .get getCumulativeSnapshot
  let startReduced : Bool :=
    if !overThreshold then false
    else if deliberate = .retry && cumulative.toNat ≤ snapshot.toNat + 1 then false
    else true
  .when startReduced (setCumulativeSnapshot cumulative)
  return startReduced

/-- The globals `setup()` fills before the first milestone. -/
structure BootInfo where
  previousBootPhase : BootPhase
  previousFaultTask : List UInt8
  previousResetReason : ResetReason
  reducedConfiguration : Bool
  bootConsecutiveCount : UInt8
  bootCumulativeCount : UInt8
  deriving DecidableEq, Repr

/-- `setup()` up to and including its `setPhase(Start)`, with the flags the reset left. -/
def setup (status : ResetStatus) : Prog Regs BootInfo := do
  let previousBootPhase ← .get getPhase
  let previousFaultTask ← .get getFaultTask
  let backupStateWasInvalid ← .get fun regs => !isValid regs
  .when backupStateWasInvalid reinitialise
  let reason :=
    if backupStateWasInvalid then .backupStateInvalid else (decodeAndClearResetReason status).1
  setReason reason
  let reducedConfiguration ← updateCountersAndDecideConfiguration reason
  let bootConsecutiveCount ← .get getConsecutiveCount
  let bootCumulativeCount ← .get getCumulativeCount
  setPhase .start
  return { previousBootPhase, previousFaultTask, previousResetReason := reason, reducedConfiguration,
           bootConsecutiveCount, bootCumulativeCount }

/-! ## A running boot -/

def stabilityWindowMs : Nat := 5 * 60 * 1000
def retryIntervalMs : Nat := 30 * 60 * 1000

/-- A boot past `setPhase(Start)`: what `setup()` found, how long the boot has run, the two flags
of `TaskMavlink`, and the marker behind a `NVIC_SystemReset()` that `TaskMavlink` is about to make. -/
structure Running where
  info : BootInfo
  elapsed : Nat := 0
  stabilityCleared : Bool := false
  retryAttempted : Bool := false
  resetting : Option DeliberateReset := none
  deriving DecidableEq, Repr

/-- The end of one pass of `TaskMavlink`'s loop, up to the `NVIC_SystemReset()` of the retry. -/
def endOfPass (r : Running) : Prog Regs Running := do
  -- a `uint32_t` of milliseconds, so a boot of more than 49 days reads its age modulo 2^32
  let elapsedMs := r.elapsed % 2 ^ 32
  let clear : Bool := !r.stabilityCleared && stabilityWindowMs ≤ elapsedMs
  .when clear (setConsecutiveCount 0)
  let retry : Bool :=
    r.info.reducedConfiguration && !r.retryAttempted && retryIntervalMs ≤ elapsedMs
  .when retry (setDeliberateReset .retry)
  return { r with
    stabilityCleared := r.stabilityCleared || clear
    retryAttempted := r.retryAttempted || retry
    resetting := if retry then some .retry else r.resetting }

/-- `MAV_CMD_PREFLIGHT_REBOOT_SHUTDOWN`, up to its `vTaskDelay`. -/
def rebootCommand : Prog Regs Unit := do
  reinitialise
  setDeliberateReset .commanded

/-! ## The board over its boots -/

/-- A reset nothing in the firmware asks for. -/
inductive Cause
  | watchdog | independentWatchdog | lowVoltage0 | lowVoltage1 | lowVoltage2 | powerOn | external
  deriving DecidableEq, Repr

/-- The flag the hardware raises. -/
def Cause.raise (status : ResetStatus) : Cause → ResetStatus
  | .watchdog => { status with wdtrf := true }
  | .independentWatchdog => { status with iwdtrf := true }
  | .lowVoltage0 => { status with lvd0rf := true }
  | .lowVoltage1 => { status with lvd1rf := true }
  | .lowVoltage2 => { status with lvd2rf := true }
  | .powerOn => { status with porf := true }
  | .external => status

/-- A boot, for the record: when it began, which configuration it selected, the cumulative count it
found with its own reset counted, and whether it followed an automatic retry. -/
structure BootRecord where
  start : Nat
  reduced : Bool
  cumulative : UInt8
  retried : Bool
  deriving DecidableEq, Repr

/-- The board: its backup registers and reset flags, the boot in progress if one is, and for the
record the time spent running so far and the boots, newest first. -/
structure Board where
  regs : Regs
  status : ResetStatus := {}
  running : Option Running := none
  clock : Nat := 0
  boots : List BootRecord := []

inductive Ev
  /-- the reset is released and `setup()` runs to `setPhase(Start)` -/
  | boot
  /-- a later `setPhase()` of `setup()` -/
  | milestone (phase : BootPhase)
  | wait (ms : Nat)
  /-- the end of a pass of `TaskMavlink` -/
  | pass
  /-- the ground's reboot command -/
  | reboot
  /-- the `NVIC_SystemReset()` behind the reboot command or the retry -/
  | nvicReset
  /-- a fault hook: `recordFault()`, then `NVIC_SystemReset()` -/
  | fault (phase : BootPhase) (taskName : Option (Nat → UInt8))
  | reset (cause : Cause)
  /-- the backup domain loses the block: what it holds next does not read as valid -/
  | lose (regs : Regs)

/-- One event; `none` where it cannot happen. -/
def Board.step (b : Board) : Ev → Option Board
  | .boot => match b.running with
    | some _ => none
    | none =>
      let o := (setup b.status).run b.regs
      some { b with
        regs := o.2, status := (decodeAndClearResetReason b.status).2, running := some { info := o.1 }
        boots := ⟨b.clock, o.1.reducedConfiguration, o.1.bootCumulativeCount, storedMarker b.regs = .retry⟩
          :: b.boots }
  | .milestone phase => match b.running with
    | some ⟨_, _, _, _, none⟩ => some { b with regs := ((setPhase phase).run b.regs).2 }
    | _ => none
  | .wait ms => match b.running with
    | some r => some { b with running := some { r with elapsed := r.elapsed + ms }, clock := b.clock + ms }
    | none => none
  | .pass => match b.running with
    | some r =>
      if r.resetting.isSome then none
      else
        let o := (endOfPass r).run b.regs
        some { b with regs := o.2, running := some o.1 }
    | none => none
  | .reboot => match b.running with
    | some r =>
      if r.resetting.isSome then none
      else some { b with
        regs := (rebootCommand.run b.regs).2, running := some { r with resetting := some .commanded } }
    | none => none
  | .nvicReset => match b.running with
    | some ⟨_, _, _, _, some _⟩ => some { b with status := { b.status with swrf := true }, running := none }
    | _ => none
  | .fault phase taskName => match b.running with
    | some _ => some { b with
        regs := ((recordFault phase taskName).run b.regs).2
        status := { b.status with swrf := true }, running := none }
    | none => none
  | .reset cause => match b.running with
    | some _ => some { b with status := cause.raise b.status, running := none }
    | none => none
  | .lose regs => match b.running with
    | some _ => none
    | none => if isValid regs then none else some { b with regs }

def Ev.isBoot : Ev → Bool
  | .boot => true
  | _ => false

/-- A board that is off, before its first recorded boot. -/
def Board.off (regs : Regs) (status : ResetStatus) : Board := { regs, status }

abbrev Board.run : Board → List Ev → Option Board := Runs.run Board.step

end BoredomOS.Recovery
