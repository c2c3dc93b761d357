/-
What `TaskMavlink` of `src/mavlink.cpp` knows of the messages it sends by itself and on request:
the schedule table of a port, the table `kMessages` that names rows of it by index, and the way a
message id is read from a float parameter. The two tables are written apart from each other, and
only their order says which row streams which message.
-/
import Mathlib.Data.Fin.VecNotation
import Mathlib.Data.Rat.Floor
import Mathlib.Tactic.Linarith
import BoredomOS.Link.MavlinkPack

namespace BoredomOS.Link

/-! ## The schedule -/

/-- The functions a row of the schedule or an entry of `kMessages` points to. -/
inductive SendFunction
  | sendHeartbeat | sendSystemTime | sendBatteryStatus | sendHousekeeping | sendSysStatus
  | sendAutopilotVersion | sendProtocolVersion | sendBootStatement
  deriving DecidableEq, Repr

structure ScheduleEntry where
  function : SendFunction
  intervalMs : UInt32
  lastMs : UInt32
  enabled : Bool
  deriving DecidableEq, Repr

namespace ScheduleEntry

/-- What the firing loop asks of a row. -/
def isDue (entry : ScheduleEntry) (now : UInt32) : Bool := entry.enabled && entry.intervalMs ≤ now - entry.lastMs

/-- What is left of the interval, for the wait. -/
def due (entry : ScheduleEntry) (now : UInt32) : UInt32 :=
  let elapsed := now - entry.lastMs
  if entry.intervalMs ≤ elapsed then 0 else entry.intervalMs - elapsed

/-- A fired row advances by its interval, not to now. -/
def advance (entry : ScheduleEntry) : ScheduleEntry := { entry with lastMs := entry.lastMs + entry.intervalMs }

end ScheduleEntry

/-- The rows of one port, `kScheduleRows` of them. -/
abbrev Schedule := Fin 5 → ScheduleEntry

def kHeartbeatScheduleIndex : Fin 5 := 0
def kSystemTimeScheduleIndex : Fin 5 := 1
def kBatteryScheduleIndex : Fin 5 := 2
def kHousekeepingScheduleIndex : Fin 5 := 3
def kSysStatusScheduleIndex : Fin 5 := 4

/-- A port's rows as `TaskMavlink` begins, in the order of its initialiser. -/
def schedule (startMs : UInt32) (reducedConfiguration : Bool) : Schedule :=
  ![⟨.sendHeartbeat, 1000, startMs - 1000, true⟩,
    ⟨.sendSystemTime, 1000, startMs - 500, true⟩,
    ⟨.sendBatteryStatus, 2000, startMs - 2000, !reducedConfiguration⟩,
    ⟨.sendHousekeeping, 1000, startMs, false⟩,
    ⟨.sendSysStatus, 1000, startMs - 250, true⟩]

/-! ## The messages that can be asked about -/

/-- `send` is missing for a message with no one-shot form, `scheduleRow` for one that never streams. -/
structure MessageEntry where
  id : UInt16
  send : Option SendFunction
  scheduleRow : Option (Fin 5)
  deriving DecidableEq, Repr

def kMessages : List MessageEntry :=
  [⟨0, some .sendHeartbeat, some kHeartbeatScheduleIndex⟩,
   ⟨1, some .sendSysStatus, some kSysStatusScheduleIndex⟩,
   ⟨2, some .sendSystemTime, some kSystemTimeScheduleIndex⟩,
   ⟨147, some .sendBatteryStatus, some kBatteryScheduleIndex⟩,
   ⟨148, some .sendAutopilotVersion, none⟩,
   ⟨300, some .sendProtocolVersion, none⟩,
   ⟨253, some .sendBootStatement, none⟩,
   ⟨252, none, some kHousekeepingScheduleIndex⟩]

def findMessage (id : UInt16) : Option MessageEntry := kMessages.find? (·.id = id)

/-! ## Float parameters -/

/-- A `float` of a COMMAND_LONG, by its value. -/
inductive Param
  | finite (value : ℚ)
  | infinite (negative : Bool)
  | nan
  deriving DecidableEq

/-- `param >= low && param <= high`, false of what is no number. -/
def Param.within (low high : ℚ) : Param → Bool
  | .finite value => low ≤ value && value ≤ high
  | _ => false

/-- Toward zero. -/
def truncate (value : ℚ) : ℤ := if 0 ≤ value then ⌊value⌋ else ⌈value⌉

/-- The conversion of a `float` to an integer: it truncates where the language defines it, and yields
anything elsewhere. -/
structure Conversion where
  toUInt16 : Param → UInt16
  toInt32 : Param → Int32
  toUInt16_eq : ∀ value : ℚ, -1 < value → value < 65536 → ((toUInt16 (.finite value)).toNat : ℤ) = truncate value
  toInt32_eq : ∀ value : ℚ, -2147483649 < value → value < 2147483648 →
    (toInt32 (.finite value)).toInt = truncate value

theorem truncate_bounds {value : ℚ} {low high : ℤ} (hlow : (low : ℚ) - 1 < value) (hhigh : value < high) (h : low ≤ 0)
    (h' : 0 < high) : low ≤ truncate value ∧ truncate value < high := by
  unfold truncate
  split
  · rename_i hpos
    have hfloor : 0 ≤ ⌊value⌋ := Int.floor_nonneg.2 hpos
    exact ⟨by omega, Int.floor_lt.2 hhigh⟩
  · rename_i hneg
    have hceil : ⌈value⌉ ≤ 0 := Int.ceil_le.2 (by push_cast; linarith)
    have hlow' : low - 1 < ⌈value⌉ := Int.lt_ceil.2 (by push_cast; exact hlow)
    exact ⟨by omega, by omega⟩

/-- What the processor's own conversion makes of a number: the nearest of its range, in 32 bits. -/
def saturate (low high : ℤ) : Param → ℤ
  | .finite value => max low (min high (truncate value))
  | .infinite negative => if negative then low else high
  | .nan => 0

/-- The conversion of this processor; a 16-bit result is the low half of a 32-bit one. -/
def Conversion.vcvt : Conversion where
  toUInt16 param := UInt16.ofNat (saturate 0 4294967295 param).toNat
  toInt32 param := Int32.ofInt (saturate (-2147483648) 2147483647 param)
  toUInt16_eq value hlow hhigh := by
    obtain ⟨hl, hh⟩ := @truncate_bounds value 0 65536 (by simpa using hlow) (by simpa using hhigh) (by omega)
      (by omega)
    rw [saturate, UInt16.toNat_ofNat']
    omega
  toInt32_eq value hlow hhigh := by
    obtain ⟨hl, hh⟩ := @truncate_bounds value (-2147483648) 2147483648
      (by push_cast; linarith) (by push_cast; linarith) (by omega) (by omega)
    rw [saturate, Int32.toInt_ofInt_of_le (by omega) (by omega)]
    omega

def messageIdFromParam (c : Conversion) (param : Param) : Option UInt16 :=
  if !param.within 0 65535 then none
  else
    let narrowed := c.toUInt16 param
    if .finite narrowed.toNat ≠ param then none else some narrowed

end BoredomOS.Link
