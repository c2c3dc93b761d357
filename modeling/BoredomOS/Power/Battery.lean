/-
The battery's voltage as `lib/Battery/Battery.cpp` reports it: the ADC is read when the last reading is
more than 125 ms old, by a millisecond counter of 32 bits, and every call in between gets what was read
then. Time here is the milliseconds since boot, which do not wrap; the counter shows them modulo 2^32.
What the ADC would say is an input of each call. The millivolts and the charge are computed from a reading in
binary32, as the board computes them.
-/
import BoredomOS.Lib.Binary32
import BoredomOS.Lib.Mealy
import BoredomOS.Log.Record
import Mathlib.Data.List.Chain
import Mathlib.Tactic

namespace BoredomOS.Power

variable {V : Type}

structure Battery (V : Type) where
  cachedVoltage : V
  lastRead : UInt32 := 0

namespace Battery

/-- Whether a call at this reading of `millis()` reads the ADC. -/
def readsAdc (b : Battery V) (now : UInt32) : Bool := now - b.lastRead > 125

/-- `readVoltage` is what the ADC would say now. -/
def voltage (b : Battery V) (now : UInt32) (readVoltage : V) : Battery V × V :=
  let b := if b.readsAdc now then { cachedVoltage := readVoltage, lastRead := now } else b
  (b, b.cachedVoltage)

end Battery

/-- A call: the milliseconds since boot, and what the ADC would say. -/
structure Call (V : Type) where
  time : Nat
  readVoltage : V

def Call.millis (c : Call V) : UInt32 := UInt32.ofNat c.time

def Battery.call (b : Battery V) (c : Call V) : Battery V × V := b.voltage c.millis c.readVoltage

/-- As it is constructed. -/
def Battery.new (zero : V) : Battery V := { cachedVoltage := zero }

/-- The cache after the calls since boot. -/
abbrev Battery.after (zero : V) (calls : List (Call V)) : Battery V := Mealy.state Battery.call (Battery.new zero) calls

/-- The calls that read the ADC. -/
def readings : Battery V → List (Call V) → List (Call V)
  | _, [] => []
  | b, c :: cs => (if b.readsAdc c.millis then [c] else []) ++ readings (b.call c).1 cs

/-- A call is no earlier than the one before it, and before the counter has come round to its cache. -/
def Follows (before after : Nat) : Prop := before ≤ after ∧ after ≤ before + (2 ^ 32 - 126)

/-! ## The age of the cache -/

theorem Battery.call_of_reads {b : Battery V} {c : Call V} (h : b.readsAdc c.millis = true) :
    b.call c = ({ cachedVoltage := c.readVoltage, lastRead := c.millis }, c.readVoltage) := by
  simp only [Battery.call, Battery.voltage, if_pos h]

theorem Battery.call_of_not_reads {b : Battery V} {c : Call V} (h : ¬b.readsAdc c.millis = true) :
    b.call c = (b, b.cachedVoltage) := by
  simp only [Battery.call, Battery.voltage, if_neg h]

theorem readings_concat (cs : List (Call V)) (c : Call V) : ∀ b : Battery V,
    readings b (cs ++ [c]) = readings b cs ++ if (Mealy.state Battery.call b cs).readsAdc c.millis then [c] else [] := by
  induction cs with
  | nil => exact fun b => List.append_nil _
  | cons d cs ih =>
    intro b
    rw [List.cons_append, readings, ih, readings, List.append_assoc]
    rfl

/-- The time of the last of these calls, and the boot if there is none. -/
def lastTime (cs : List (Call V)) : Nat := (cs.getLast?.map Call.time).getD 0

@[simp] theorem lastTime_concat (taken : List (Call V)) (c : Call V) : lastTime (taken ++ [c]) = c.time := by simp [lastTime]

theorem getLast?_times (taken : List (Call V)) : (0 :: taken.map Call.time).getLast? = some (lastTime taken) := by
  rw [List.getLast?_cons, List.getLast?_map, lastTime]

/-- The counter shows how old the cache is while that fits it. -/
theorem readsAdc_iff {b : Battery V} {c : Call V} {read : Nat} (hlast : b.lastRead = UInt32.ofNat read)
    (hle : read ≤ c.time) (hlt : c.time - read < 2 ^ 32) : b.readsAdc c.millis = true ↔ read + 125 < c.time := by
  have hage : (c.millis - b.lastRead).toNat = c.time - read := by
    rw [hlast, Call.millis, ← UInt32.ofNat_sub hle]
    exact Nat.mod_eq_of_lt hlt
  rw [Battery.readsAdc, decide_eq_true_iff, gt_iff_lt, UInt32.lt_iff_toNat_lt, hage]
  change 125 < c.time - read ↔ read + 125 < c.time
  omega

/-- The cache after a call at `last`, with the readings `taken` so far. -/
structure Cached (zero : V) (taken : List (Call V)) (last : Nat) (b : Battery V) : Prop where
  cachedVoltage : b.cachedVoltage = (taken.getLast?.map Call.readVoltage).getD zero
  lastRead : b.lastRead = UInt32.ofNat (lastTime taken)
  lastTime_le : lastTime taken ≤ last
  recent : last ≤ lastTime taken + 125
  late : ∀ d ∈ taken, 125 < d.time
  spaced : (0 :: taken.map Call.time).IsChain fun a b => a + 125 < b

namespace Cached

variable {zero : V} {taken : List (Call V)} {last : Nat} {b : Battery V}

theorem new (zero : V) : Cached zero [] 0 (Battery.new zero) where
  cachedVoltage := rfl
  lastRead := rfl
  lastTime_le := Nat.le_refl _
  recent := Nat.zero_le _
  late _ h := absurd h List.not_mem_nil
  spaced := List.isChain_singleton _

theorem call (h : Cached zero taken last b) {c : Call V} (hc : Follows last c.time) :
    Cached zero (taken ++ if b.readsAdc c.millis then [c] else []) c.time (b.call c).1 := by
  obtain ⟨hle, hnext⟩ := hc
  have hlast := h.lastTime_le
  have hrecent := h.recent
  have hiff := readsAdc_iff h.lastRead (hlast.trans hle) (by omega)
  by_cases hread : b.readsAdc c.millis = true
  · rw [if_pos hread, Battery.call_of_reads hread]
    have hdue := hiff.1 hread
    refine ⟨by simp, by rw [lastTime_concat]; rfl, by rw [lastTime_concat], by rw [lastTime_concat]; omega, ?_, ?_⟩
    · intro d hd
      rcases List.mem_append.1 hd with hd | hd
      · exact h.late d hd
      · rw [List.mem_singleton.1 hd]
        omega
    rw [List.map_append, ← List.cons_append, List.isChain_append]
    refine ⟨h.spaced, List.isChain_singleton _, fun x hx y hy => ?_⟩
    rw [getLast?_times, Option.mem_some_iff] at hx
    obtain rfl : c.time = y := by simpa using hy
    exact hx ▸ hdue
  · rw [if_neg hread, Battery.call_of_not_reads hread, List.append_nil]
    exact ⟨h.cachedVoltage, h.lastRead, hlast.trans hle, Nat.le_of_not_lt (mt hiff.2 hread), h.late, h.spaced⟩

theorem run {cs : List (Call V)} (hcs : (0 :: cs.map Call.time).IsChain Follows) :
    Cached zero (readings (Battery.new zero) cs) (lastTime cs) (Mealy.state Battery.call (Battery.new zero) cs) := by
  induction cs using List.reverseRecOn with
  | nil => exact new zero
  | append_singleton cs c ih =>
    rw [List.map_append, ← List.cons_append, List.isChain_append] at hcs
    obtain ⟨hcs, -, hlink⟩ := hcs
    rw [readings_concat, lastTime_concat, Mealy.state_concat]
    exact (ih hcs).call (hlink _ (getLast?_times cs) _ rfl)

/-- What a call returns is of the last reading there is. -/
theorem value (h : Cached zero taken last b) : (last ≤ 125 ∧ b.cachedVoltage = zero) ∨
    (125 < last ∧ ∃ d ∈ taken, d.time = lastTime taken ∧ b.cachedVoltage = d.readVoltage) := by
  have hle := h.lastTime_le
  rcases List.eq_nil_or_concat' taken with rfl | ⟨taken, d, rfl⟩
  · exact .inl ⟨h.recent, h.cachedVoltage⟩
  · have hlate := h.late d (by simp)
    rw [lastTime_concat] at hle
    exact .inr ⟨by omega, d, by simp, by simp, by simpa using h.cachedVoltage⟩

end Cached

/-- Readings are at least 126 ms apart, and no call returns one that is older than 125 ms; before the first one
it returns what the cache was built with. -/
theorem voltage_fresh (zero : V) (calls : List (Call V)) (hcalls : (0 :: calls.map Call.time).IsChain Follows) :
    (0 :: (readings (.new zero) calls).map Call.time).IsChain (fun a b => a + 125 < b) ∧
      ∀ before c after, calls = before ++ c :: after →
        (c.time ≤ 125 ∧ ((Battery.after zero before).call c).2 = zero) ∨
        (125 < c.time ∧ ∃ d ∈ readings (.new zero) (before ++ [c]),
          d.time ≤ c.time ∧ c.time ≤ d.time + 125 ∧ ((Battery.after zero before).call c).2 = d.readVoltage) := by
  refine ⟨(Cached.run hcalls).spaced, ?_⟩
  rintro before c after rfl
  rw [List.append_cons, List.map_append, ← List.cons_append] at hcalls
  have h : Cached zero _ _ _ := Cached.run hcalls.left_of_append
  have hage := And.intro h.lastTime_le h.recent
  rw [lastTime_concat, Mealy.state_concat] at h
  rw [lastTime_concat] at hage
  rcases h.value with ⟨hearly, hzero⟩ | ⟨hlate, d, hd, hlast, hvalue⟩
  · exact .inl ⟨hearly, hzero⟩
  · exact .inr ⟨hlate, d, hd, hlast ▸ hage.1, hlast ▸ hage.2, hvalue⟩

theorem voltage_fresh_wrapped : ∃ calls : List (Call Nat), (0 :: calls.map Call.time).IsChain Follows ∧
    Mealy.outputs Battery.call (.new 0) calls = [0, 4000, 4000, 3900, 3900, 3800] ∧
      (0 :: (readings (.new 0) calls).map Call.time).IsChain (fun a b => a + 125 < b) := by
  let calls : List (Call Nat) := [⟨100, 4100⟩, ⟨200, 4000⟩, ⟨325, 4050⟩, ⟨4294967200, 3900⟩, ⟨4294967300, 3950⟩, ⟨4294967326, 3800⟩]
  have hcalls : (0 :: calls.map Call.time).IsChain Follows := by
    simp only [calls, List.map_cons, List.map_nil, List.isChain_cons_cons, Follows]
    simp
  exact ⟨calls, hcalls, by decide +kernel, (voltage_fresh 0 calls hcalls).1⟩

/-! ## The battery record -/

namespace Battery

/-- Volts to millivolts. The cast goes by way of 32 bits, saturating there, and keeps the lower half. -/
def toMillivolts (voltage : Float32) : UInt16 := (voltage * 1000.0).toUInt32.toUInt16

/-- A signed conversion drops the fraction. -/
def toInt8 (percent : Float32) : Int8 := percent.toModel.unpack.toInt32.toInt8

/-- The charge in per cent, from empty at 3.5 V to full at 4.2 V. -/
def toRemaining (voltage : Float32) : Int8 :=
  let percent := (voltage - 3.5) / (4.2 - 3.5) * 100.0
  let percent := if percent > 100.0 then 100.0 else percent
  let percent := if percent < 0.0 then 0.0 else percent
  toInt8 percent

def millivolts (b : Battery Float32) (c : Call Float32) : Battery Float32 × UInt16 :=
  let (b, voltage) := b.call c
  (b, toMillivolts voltage)

def remaining (b : Battery Float32) (c : Call Float32) : Battery Float32 × Int8 :=
  let (b, voltage) := b.call c
  (b, toRemaining voltage)

example : toMillivolts 3.78 = 3780 ∧ toRemaining 3.78 = 40 ∧ toRemaining 4.3 = 100 ∧ toRemaining 3.2 = 0 := by decide +kernel

/-- `logBattery`, with the two calls it may make of `voltage` and the stamp it takes in between. -/
def logBattery (b : Battery Float32) (taskSdWriteHandler : Bool) (first second : Call Float32) (sinceBootUsec : UInt64) :
    Battery Float32 × Option Log.SdRecord :=
  if !taskSdWriteHandler then (b, none)
  else
    let (b, millivolts) := b.millivolts first
    if millivolts = 0 then (b, none)
    else
      let (b, remaining) := b.remaining second
      (b, some (.pwr { timeUs := sinceBootUsec, millivolts, remaining }))

/-- The record is the one of the figures the two calls give. -/
theorem logBattery_record (b : Battery Float32) (taskSdWriteHandler : Bool) (first second : Call Float32)
    (sinceBootUsec : UInt64) : (b.logBattery taskSdWriteHandler first second sinceBootUsec).2 =
      Log.logBattery taskSdWriteHandler (toMillivolts (b.call first).2) sinceBootUsec
        (toRemaining ((b.call first).1.call second).2) := by
  unfold logBattery Log.logBattery millivolts remaining
  split
  · rfl
  · dsimp only
    split
    · rfl
    · rfl

end Battery

/-- What the cache is built with is no voltage. -/
theorem toMillivolts_zero : Battery.toMillivolts 0.0 = 0 := by decide +kernel

/-- A number from 0 to 100 fits eight bits. -/
theorem toInt8_range {percent : Float32} (hlow : ¬percent < 0.0) (hhigh : ¬percent > 100.0) :
    0 ≤ Battery.toInt8 percent ∧ Battery.toInt8 percent ≤ 100 := by
  let truncate := Binary32.truncate Int32.minValue.toInt Int32.maxValue.toInt
  have hhundred : (100.0 : Float32).toModel.unpack = .finite .positive 13107200 (-17) (by decide) := rfl
  have hnonneg : 0 ≤ truncate percent := Binary32.truncate_nonneg hlow _ (by decide)
  have hle : truncate percent ≤ truncate 100.0 := Binary32.truncate_le hhundred hlow hhigh _ _
  have hmost : truncate 100.0 = 100 := by decide +kernel
  have hfits : ∀ n ≤ 100, 0 ≤ (Int32.ofIntClamp (n : Nat)).toInt8 ∧ (Int32.ofIntClamp (n : Nat)).toInt8 ≤ 100 := by decide
  obtain ⟨n, hn⟩ := Int.eq_ofNat_of_zero_le hnonneg
  change 0 ≤ (Int32.ofIntClamp (truncate percent)).toInt8 ∧ (Int32.ofIntClamp (truncate percent)).toInt8 ≤ 100
  rw [hn]
  exact hfits n (by omega)

/-- The charge is between 0 and 100 per cent, whatever the ADC says: of NaN it is 0. -/
theorem toRemaining_range (voltage : Float32) : 0 ≤ Battery.toRemaining voltage ∧ Battery.toRemaining voltage ≤ 100 := by
  unfold Battery.toRemaining
  extract_lets percent clamped raised
  have hclamped : ¬clamped > 100.0 := by
    unfold clamped
    split
    · decide +kernel
    · assumption
  unfold raised
  split
  · exact toInt8_range (by decide +kernel) (by decide +kernel)
  · rename_i hlow
    exact toInt8_range hlow hclamped

/-- A battery record is of readings that were taken, each at most 125 ms old: the charge is of the reading the
voltage is of, or of one taken for it. There is no record without a voltage, and none with a charge outside 0 to
100 per cent. -/
theorem logBattery_measured (calls : List (Call Float32)) (first second : Call Float32)
    (hcalls : (0 :: (calls ++ [first, second]).map Call.time).IsChain Follows) (taskSdWriteHandler : Bool)
    (sinceBootUsec : UInt64) (record : Log.SdRecord)
    (hrecord : ((Battery.after 0.0 calls).logBattery taskSdWriteHandler first second sinceBootUsec).2 = some record) :
    125 < first.time ∧ ∃ d ∈ readings (.new 0.0) (calls ++ [first]), ∃ e, (e = d ∨ e = second) ∧
      d.time ≤ first.time ∧ first.time ≤ d.time + 125 ∧ e.time ≤ second.time ∧ second.time ≤ e.time + 125 ∧
      record = .pwr ⟨sinceBootUsec, Battery.toMillivolts d.readVoltage, Battery.toRemaining e.readVoltage⟩ ∧
      Battery.toMillivolts d.readVoltage ≠ 0 ∧ 0 ≤ Battery.toRemaining e.readVoltage ∧
      Battery.toRemaining e.readVoltage ≤ 100 := by
  rw [Battery.logBattery_record, Log.logBattery] at hrecord
  split at hrecord
  · cases hrecord
  split at hrecord
  · cases hrecord
  rename_i hread
  rw [Option.some.injEq] at hrecord
  rw [List.append_cons, List.map_append, ← List.cons_append] at hcalls
  have hfirst : Cached (0.0 : Float32) _ _ _ := Cached.run hcalls.left_of_append
  rw [lastTime_concat, Mealy.state_concat] at hfirst
  have hfollows : Follows first.time second.time := by
    rw [List.isChain_append] at hcalls
    exact hcalls.2.2 _ ((getLast?_times _).trans (by rw [lastTime_concat])) _ rfl
  rcases hfirst.value with ⟨-, hcached⟩ | ⟨hlate, d, hd, hlast, hcached⟩
  · -- nothing has been read yet, and the record would carry zero
    exact absurd ((congrArg Battery.toMillivolts hcached).trans toMillivolts_zero) hread
  have hold := hfirst.lastTime_le
  have hfresh := hfirst.recent
  rw [← hlast] at hold hfresh
  refine ⟨hlate, d, hd, ?_⟩
  have hsecond := (hfirst.call hfollows).recent
  have hvoltage : Battery.toMillivolts d.readVoltage ≠ 0 := fun hzero =>
    hread ((congrArg Battery.toMillivolts hcached).trans hzero)
  by_cases hreads : ((Battery.after 0.0 calls).call first).1.readsAdc second.millis = true
  · refine ⟨second, .inr rfl, hold, hfresh, Nat.le_refl _, Nat.le_add_right _ _, ?_, hvoltage, toRemaining_range _⟩
    rw [← hrecord, Battery.call_of_reads hreads, ← hcached]
    rfl
  · rw [if_neg hreads, List.append_nil, ← hlast] at hsecond
    refine ⟨d, .inl rfl, hold, hfresh, hold.trans hfollows.1, hsecond, ?_, hvoltage, toRemaining_range _⟩
    rw [← hrecord, Battery.call_of_not_reads hreads, ← hcached]
    rfl

theorem logBattery_measured_crossing : ∃ (calls : List (Call Float32)) (first second : Call Float32) (record : Log.SdRecord),
    (0 :: (calls ++ [first, second]).map Call.time).IsChain Follows ∧
      ((Battery.after 0.0 calls).logBattery true first second 126000).2 = some record ∧
      record = .pwr ⟨126000, 4000, 40⟩ ∧
      125 < first.time ∧ ∃ d ∈ readings (.new 0.0) (calls ++ [first]), ∃ e, (e = d ∨ e = second) ∧
        d.time ≤ first.time ∧ first.time ≤ d.time + 125 ∧ e.time ≤ second.time ∧ second.time ≤ e.time + 125 ∧
        record = .pwr ⟨126000, Battery.toMillivolts d.readVoltage, Battery.toRemaining e.readVoltage⟩ ∧
        Battery.toMillivolts d.readVoltage ≠ 0 ∧ 0 ≤ Battery.toRemaining e.readVoltage ∧
        Battery.toRemaining e.readVoltage ≤ 100 := by
  let calls : List (Call Float32) := [⟨0, 4.1⟩, ⟨126, 4.0⟩]
  let first : Call Float32 := ⟨251, 3.99⟩
  let second : Call Float32 := ⟨252, 3.78⟩
  have hcalls : (0 :: (calls ++ [first, second]).map Call.time).IsChain Follows := by
    simp [calls, first, second, List.isChain_cons_cons, Follows]
  have hrecord : ((Battery.after 0.0 calls).logBattery true first second 126000).2 = some (.pwr ⟨126000, 4000, 40⟩) := by
    decide +kernel
  exact ⟨calls, first, second, _, hcalls, hrecord, rfl, logBattery_measured calls first second hcalls true 126000 _ hrecord⟩

end BoredomOS.Power
