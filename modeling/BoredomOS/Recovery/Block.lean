/-
The backup-register block of `src/recovery.cpp` and `include/Recovery.h`: the bytes of
`R_SYSTEM->VBTBKR`, the accessors of the counters and markers, and what each write leaves. A write
is a program of single byte stores, so the states a reset can find inside it are its crash points.
-/
import BoredomOS.Lib.Steps
import Mathlib.Tactic

namespace BoredomOS.Recovery

open Steps

/-- `R_SYSTEM->VBTBKR` by byte offset; `[0..3]` is the bootloader's. -/
abbrev Regs := Nat → UInt8

def validityMagic : UInt8 := 0xB5

inductive ResetReason
  | powerOn | lowVoltage | watchdog | software | externalUnknown | backupStateInvalid
  /-- a stored byte no enumerator names: the cast keeps it -/
  | unnamed (raw : UInt8)
  deriving DecidableEq, Repr

inductive BootPhase
  | start | linkDone | clockDone | cardDone | queuesDone | tasksDone | schedulerStarted
  | stackOverflowFault | mallocFailedFault
  | unnamed (raw : UInt8)
  deriving DecidableEq, Repr

inductive DeliberateReset
  | none | commanded | retry
  | unnamed (raw : UInt8)
  deriving DecidableEq, Repr

def ResetReason.toByte : ResetReason → UInt8
  | .powerOn => 0 | .lowVoltage => 1 | .watchdog => 2 | .software => 3 | .externalUnknown => 4
  | .backupStateInvalid => 5 | .unnamed raw => raw

def ResetReason.ofByte (b : UInt8) : ResetReason :=
  if b = 0 then .powerOn else if b = 1 then .lowVoltage else if b = 2 then .watchdog
  else if b = 3 then .software else if b = 4 then .externalUnknown
  else if b = 5 then .backupStateInvalid else .unnamed b

def BootPhase.toByte : BootPhase → UInt8
  | .start => 0 | .linkDone => 1 | .clockDone => 2 | .cardDone => 3 | .queuesDone => 4
  | .tasksDone => 5 | .schedulerStarted => 6 | .stackOverflowFault => 7 | .mallocFailedFault => 8
  | .unnamed raw => raw

def BootPhase.ofByte (b : UInt8) : BootPhase :=
  if b = 0 then .start else if b = 1 then .linkDone else if b = 2 then .clockDone
  else if b = 3 then .cardDone else if b = 4 then .queuesDone else if b = 5 then .tasksDone
  else if b = 6 then .schedulerStarted else if b = 7 then .stackOverflowFault
  else if b = 8 then .mallocFailedFault else .unnamed b

def DeliberateReset.toByte : DeliberateReset → UInt8
  | .none => 0 | .commanded => 1 | .retry => 2 | .unnamed raw => raw

def DeliberateReset.ofByte (b : UInt8) : DeliberateReset :=
  if b = 0 then .none else if b = 1 then .commanded else if b = 2 then .retry else .unnamed b

def offsetValidityMagic : Nat := 4
def offsetChecksum : Nat := 5
def offsetConsecutiveCount : Nat := 6
def offsetCumulativeCount : Nat := 7
def offsetCumulativeSnapshot : Nat := 8
def offsetPhase : Nat := 9
def offsetReason : Nat := 10
def offsetDeliberate : Nat := 11
def offsetFaultTask : Nat := 12
def faultTaskLen : Nat := 15
def offsetLast : Nat := offsetFaultTask + faultTaskLen - 1

def consecutiveThreshold : UInt8 := 3
def cumulativeThreshold : UInt8 := 10

/-- The offsets the checksum covers, `[OFFSET_CONSECUTIVE_COUNT..OFFSET_LAST]`. -/
def covered : List Nat := List.range' offsetConsecutiveCount (offsetLast + 1 - offsetConsecutiveCount)

def computeChecksum (regs : Regs) : UInt8 := covered.foldl (fun sum offset => sum + regs offset) 0

def isValid (regs : Regs) : Bool :=
  regs offsetValidityMagic == validityMagic && regs offsetChecksum == computeChecksum regs

/-! ## Writes -/

def poke (offset : Nat) (value : UInt8) : Prog Regs Unit :=
  .modify fun regs => Function.update regs offset value

/-- The end of every write: a checksum over what is stored now, then the magic. -/
def refresh : Prog Regs Unit := do
  poke offsetChecksum (← .get computeChecksum)
  poke offsetValidityMagic validityMagic

def zeroFrom (offset : Nat) : Nat → Prog Regs Unit
  | 0 => pure ()
  | n + 1 => do poke offset 0; zeroFrom (offset + 1) n

def reinitialise : Prog Regs Unit := do
  zeroFrom offsetConsecutiveCount (offsetLast + 1 - offsetConsecutiveCount)
  refresh

def writeByte (offset : Nat) (value : UInt8) : Prog Regs Unit := do
  poke offset value
  refresh

def getConsecutiveCount (regs : Regs) : UInt8 := if isValid regs then regs offsetConsecutiveCount else 0

def setConsecutiveCount (value : UInt8) : Prog Regs Unit := writeByte offsetConsecutiveCount value

def getCumulativeCount (regs : Regs) : UInt8 := if isValid regs then regs offsetCumulativeCount else 0

def setCumulativeCount (value : UInt8) : Prog Regs Unit := writeByte offsetCumulativeCount value

def getCumulativeSnapshot (regs : Regs) : UInt8 :=
  if isValid regs then regs offsetCumulativeSnapshot else 0

def setCumulativeSnapshot (value : UInt8) : Prog Regs Unit := writeByte offsetCumulativeSnapshot value

def getPhase (regs : Regs) : BootPhase :=
  if isValid regs then .ofByte (regs offsetPhase) else .start

def setPhase (phase : BootPhase) : Prog Regs Unit := writeByte offsetPhase phase.toByte

/-- `recordFault`'s copy of the task name: `n` bytes from the `i`-th on, zeros once a NUL ended it. -/
def copyFaultTask (taskName : Nat → UInt8) : (n i : Nat) → (ended : Bool) → Prog Regs Unit
  | 0, _, _ => pure ()
  | n + 1, i, ended => do
    let c := if ended then 0 else taskName i
    poke (offsetFaultTask + i) c
    copyFaultTask taskName n (i + 1) (ended || c == 0)

/-- `taskName` is the memory the pointer names, `none` for `nullptr`. -/
def recordFault (phase : BootPhase) (taskName : Option (Nat → UInt8)) : Prog Regs Unit := do
  copyFaultTask (taskName.getD fun _ => 0) faultTaskLen 0 taskName.isNone
  poke offsetPhase phase.toByte
  refresh

def printable (c : UInt8) : UInt8 := if 0x20 ≤ c ∧ c < 0x7F then c else 63

/-- The bytes `getFaultTask` puts before the terminator. -/
def getFaultTask (regs : Regs) : List UInt8 :=
  if isValid regs then
    (((List.range' offsetFaultTask faultTaskLen).map regs).takeWhile (· ≠ 0)).map printable
  else []

def getReason (regs : Regs) : ResetReason :=
  if isValid regs then .ofByte (regs offsetReason) else .backupStateInvalid

def setReason (reason : ResetReason) : Prog Regs Unit := writeByte offsetReason reason.toByte

def setDeliberateReset (value : DeliberateReset) : Prog Regs Unit :=
  writeByte offsetDeliberate value.toByte

def storedMarker (regs : Regs) : DeliberateReset :=
  if isValid regs then .ofByte (regs offsetDeliberate) else .none

def consumeDeliberateReset : Prog Regs DeliberateReset := do
  let value ← .get storedMarker
  .when (value ≠ .none) (writeByte offsetDeliberate DeliberateReset.none.toByte)
  return value

/-! ## What a write leaves -/

theorem mem_covered {o : Nat} : o ∈ covered ↔ 6 ≤ o ∧ o ≤ 26 := by
  simp [covered, List.mem_range'_1, offsetConsecutiveCount, offsetLast, offsetFaultTask, faultTaskLen]
  omega

theorem foldl_sum_congr {f g : Nat → UInt8} : ∀ (l : List Nat) (a : UInt8), (∀ o ∈ l, f o = g o) →
    l.foldl (fun sum o => sum + f o) a = l.foldl (fun sum o => sum + g o) a
  | [], _, _ => rfl
  | o :: l, a, h => by
    simp only [List.foldl_cons]
    rw [h o (List.mem_cons_self ..)]
    exact foldl_sum_congr l _ fun o' ho => h o' (List.mem_cons_of_mem _ ho)

theorem computeChecksum_congr {r r' : Regs} (h : ∀ o, 6 ≤ o → o ≤ 26 → r o = r' o) :
    computeChecksum r = computeChecksum r' :=
  foldl_sum_congr _ _ fun o ho => h o (mem_covered.1 ho).1 (mem_covered.1 ho).2

/-- Refreshing makes the block valid and moves no covered byte. -/
theorem run_refresh (r : Regs) : isValid (refresh.run r).2 = true ∧ ∀ o, 6 ≤ o → (refresh.run r).2 o = r o := by
  have other : ∀ o, 6 ≤ o → (refresh.run r).2 o = r o := by
    intro o ho
    have h4 : o ≠ 4 := by omega
    have h5 : o ≠ 5 := by omega
    simp [refresh, poke, offsetChecksum, offsetValidityMagic, Function.update, h4, h5]
  refine ⟨?_, other⟩
  have hc : computeChecksum (refresh.run r).2 = computeChecksum r :=
    computeChecksum_congr fun o ho _ => other o ho
  unfold isValid
  rw [hc]
  simp [refresh, poke, offsetChecksum, offsetValidityMagic, Function.update]

/-- A covered byte of a valid block, 0 of an invalid one: what the counters' getters return. -/
def field (regs : Regs) (o : Nat) : UInt8 := if isValid regs then regs o else 0

theorem field_of_valid {r : Regs} (hv : isValid r = true) (o : Nat) : field r o = r o := by
  simp [field, hv]

theorem isValid_writeByte (off : Nat) (v : UInt8) (r : Regs) : isValid ((writeByte off v).run r).2 = true := by
  simp only [writeByte, Prog.run_bind]
  exact (run_refresh _).1

/-- A byte write to a valid block stores that byte and changes no other field. -/
theorem field_writeByte {r : Regs} (hv : isValid r = true) (off : Nat) (v : UInt8) {o : Nat} (ho : 6 ≤ o) :
    field ((writeByte off v).run r).2 o = if o = off then v else field r o := by
  rw [field_of_valid (isValid_writeByte off v r), field_of_valid hv]
  simp only [writeByte, Prog.run_bind]
  rw [(run_refresh _).2 o ho]
  simp [poke, Function.update]

theorem run_zeroFrom (n : Nat) : ∀ (off : Nat) (r : Regs) (o : Nat),
    ((zeroFrom off n).run r).2 o = if off ≤ o ∧ o < off + n then 0 else r o := by
  induction n with
  | zero => intro off r o; simp [zeroFrom]
  | succ n ih =>
    intro off r o
    simp only [zeroFrom, Prog.run_bind, ih]
    by_cases h : o = off
    · subst h; simp [poke]
    · have he : ((poke off 0).run r).2 o = r o := by simp [poke, Function.update_of_ne h]
      rw [he]
      by_cases h' : off ≤ o ∧ o < off + (n + 1)
      · rw [if_pos h', if_pos (by omega)]
      · rw [if_neg h', if_neg (by omega)]

theorem isValid_reinitialise (r : Regs) : isValid (reinitialise.run r).2 = true := by
  simp only [reinitialise, Prog.run_bind]
  exact (run_refresh _).1

theorem field_reinitialise (r : Regs) {o : Nat} (ho : 6 ≤ o) (ho' : o ≤ 26) :
    field (reinitialise.run r).2 o = 0 := by
  rw [field_of_valid (isValid_reinitialise r)]
  simp only [reinitialise, Prog.run_bind]
  rw [(run_refresh _).2 o ho, run_zeroFrom]
  simp [offsetConsecutiveCount, offsetLast, offsetFaultTask, faultTaskLen, ho]
  omega

theorem run_copyFaultTask (name : Nat → UInt8) (n : Nat) : ∀ (i : Nat) (ended : Bool) (r : Regs) (o : Nat),
    o < 12 → ((copyFaultTask name n i ended).run r).2 o = r o := by
  induction n with
  | zero => intro i ended r o _; rfl
  | succ n ih =>
    intro i ended r o ho
    simp only [copyFaultTask, Prog.run_bind]
    rw [ih _ _ _ _ ho]
    have : o ≠ 12 + i := by omega
    simp [poke, offsetFaultTask, Function.update, this]

theorem isValid_recordFault (p : BootPhase) (name : Option (Nat → UInt8)) (r : Regs) :
    isValid ((recordFault p name).run r).2 = true := by
  simp only [recordFault, Prog.run_bind]
  exact (run_refresh _).1

/-- A fault record changes no counter and no marker. -/
theorem field_recordFault {r : Regs} (hv : isValid r = true) (p : BootPhase) (name : Option (Nat → UInt8))
    {o : Nat} (ho : 6 ≤ o) (ho' : o < 12) (hp : o ≠ 9) :
    field ((recordFault p name).run r).2 o = field r o := by
  rw [field_of_valid (isValid_recordFault p name r), field_of_valid hv]
  simp only [recordFault, Prog.run_bind]
  rw [(run_refresh _).2 o ho]
  simp only [poke, Prog.run_modify, offsetPhase, Function.update, hp]
  exact run_copyFaultTask _ _ _ _ _ _ ho'

end BoredomOS.Recovery
