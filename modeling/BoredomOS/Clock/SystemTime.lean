/-
`SystemTime` of `src/lib/SystemTime`: the internal RTC with its sub-second counter, the DS1307
beside it, the boot epoch and the ladder of sources. Every access to a clock register or to a
member another task also touches is one atomic step, so that a reader can be preempted between
any two of them and the RTC can tick between any two steps of a writer.
-/
import Mathlib.Algebra.Ring.Int.Defs
import Mathlib.Algebra.Ring.Nat
import BoredomOS.Lib.Steps

namespace BoredomOS.Clock

open Steps

inductive Source
  | ground | ds1307 | survived | none
  deriving DecidableEq, Repr

/-- `(uint8_t)source`: the lower, the better. -/
def Source.rank : Source → Nat
  | .ground => 0
  | .ds1307 => 1
  | .survived => 2
  | .none => 3

def kOldestAcceptable : Nat := 1640995200
def kR64TicksPerSec : Nat := 128
def kUsecPerR64TickNum : Nat := 15625
def kUsecPerR64TickDen : Nat := 2
def usecPerSec : Nat := 1000000

/-- The internal RTC: the calendar second and `R64CNT` below it, as one count of 1/128 s, and
whether `getTime` and `setTime` succeed. -/
structure Rtc where
  ticks : Nat
  running : Bool
  readable : Bool
  writable : Bool
  deriving DecidableEq, Repr

def Rtc.second (r : Rtc) : Nat := r.ticks / kR64TicksPerSec

/-- `R64CNT & 0x7F` -/
def Rtc.fraction (r : Rtc) : Nat := r.ticks % kR64TicksPerSec

/-- `RTC.setTime` replaces the second and leaves the fraction running. -/
def Rtc.setTime (r : Rtc) (seconds : Nat) : Rtc :=
  if r.writable then { r with ticks := seconds * kR64TicksPerSec + r.fraction, running := true } else r

/-- The object and the two clocks behind it. `ds1307` counts in 1/128 s too. `elapsed` is kept for
the record and never read: the ticks since the second that `begin()` latched. -/
structure SystemTime where
  rtc : Rtc
  ds1307 : Nat
  ds1307Present : Bool
  bootEpoch : Nat := 0
  source : Source := .none
  foundRunning : Bool := false
  elapsed : Nat := 0
  deriving DecidableEq, Repr

namespace SystemTime

/-- `n` ticks pass. -/
def wait (n : Nat) (s : SystemTime) : SystemTime :=
  { s with
    rtc := if s.rtc.running then { s.rtc with ticks := s.rtc.ticks + n } else s.rtc
    ds1307 := s.ds1307 + n, elapsed := s.elapsed + n }

/-- `_ds1307.now().unixtime()` -/
def ds1307Now (s : SystemTime) : Nat := s.ds1307 / kR64TicksPerSec

/-- `_ds1307.adjust(DateTime((uint32_t)unix_time))` -/
def adjust (unixTime : Int) (s : SystemTime) : SystemTime :=
  { s with ds1307 := (unixTime % 2 ^ 32).toNat * kR64TicksPerSec }

end SystemTime

def isPlausible (unixTime : Int) : Bool := kOldestAcceptable ≤ unixTime && unixTime ≤ 0xFFFFFFFF

/-! ## Reading -/

def readSeconds : Prog SystemTime (Option Nat) :=
  .get fun s => if s.rtc.readable then some s.rtc.second else none

def getUnixTime : Prog SystemTime Nat := do
  let seconds ← readSeconds
  return seconds.getD 0

/-- The attempts left, and the whole second once there are none. The `uint64_t` holds the
microseconds of any second below 2^44. -/
def getUnixTimeUsecIn : Nat → Prog SystemTime Nat
  | 0 => do
    let seconds ← getUnixTime
    return seconds * usecPerSec
  | attempts + 1 => do
    match ← readSeconds with
    | none => return 0
    | some before =>
      let fraction ← .get fun s => s.rtc.fraction
      match ← readSeconds with
      | none => return 0
      | some after =>
        if before = after then
          return before * usecPerSec + fraction * kUsecPerR64TickNum / kUsecPerR64TickDen
        else getUnixTimeUsecIn attempts

def getUnixTimeUsec : Prog SystemTime Nat := getUnixTimeUsecIn 4

def sinceBootUsec : Prog SystemTime Nat := do
  let now ← getUnixTimeUsec
  let bootEpoch ← .get fun s => s.bootEpoch
  let base := bootEpoch * usecPerSec
  return if base < now then now - base else 0

/-! ## Writing -/

/-- The correction of the DS1307 behind an accepted time. -/
def correctDs1307 (unixTime : Int) (wanted : Bool) : Prog SystemTime Unit := do
  let present ← .get fun s => s.ds1307Present
  let now ← .get fun s => s.ds1307Now
  .when (wanted && present && (now : Int) ≠ unixTime) (.modify (SystemTime.adjust unixTime))

/-- The clock write and the epoch correction, with the scheduler suspended. -/
def setClockAndEpoch (unixTime : Int) (previous : Nat) (s : SystemTime) : Bool × SystemTime :=
  if s.rtc.writable then
    (true, { s with
      rtc := s.rtc.setTime unixTime.toNat
      bootEpoch := ((s.bootEpoch + (unixTime - previous)) % 2 ^ 32).toNat })
  else (false, s)

/-- Whether the time was accepted, and whether the clock moved. -/
def setUnixTime (unixTime : Int) (from_ : Source) : Prog SystemTime (Bool × Bool) := do
  if !isPlausible unixTime then return (false, false)
  else
    let source ← .get fun s => s.source
    if source.rank < from_.rank then return (false, false)
    else
      let previous ← getUnixTime
      if (previous : Int) = unixTime then
        let promoting := from_ ≠ source
        .modify fun s => { s with source := from_ }
        correctDs1307 unixTime (promoting && from_ ≠ .ds1307)
        return (true, false)
      else
        let clockWritten ← .act (setClockAndEpoch unixTime previous)
        if !clockWritten then return (false, false)
        else
          correctDs1307 unixTime (from_ ≠ .ds1307)
          .modify fun s => { s with source := from_ }
          return (true, true)

def reseedFromDs1307 : Prog SystemTime (Bool × Bool) := do
  let present ← .get fun s => s.ds1307Present
  if !present then return (false, false)
  else
    let now ← .get fun s => s.ds1307Now
    setUnixTime now .ds1307

def pushToDs1307 : Prog SystemTime Bool := do
  let present ← .get fun s => s.ds1307Present
  if !present then return false
  else
    let internal ← getUnixTime
    if !isPlausible internal then return false
    else
      let now ← .get fun s => s.ds1307Now
      if now = internal then return false
      else
        .modify (SystemTime.adjust internal)
        return true

/-- A plausible time in a DS1307 that answered goes into the internal RTC. -/
def seedFromDs1307 (s : SystemTime) : Bool × SystemTime :=
  if s.ds1307Present && isPlausible s.ds1307Now then
    (s.rtc.writable, { s with rtc := s.rtc.setTime s.ds1307Now })
  else (false, s)

/-- The initial source; with none, an RTC that stands still starts counting from the epoch. -/
def selectSource (seededFromDs1307 : Bool) (s : SystemTime) : SystemTime :=
  if seededFromDs1307 then { s with source := .ds1307 }
  else if s.foundRunning then { s with source := .survived }
  else { s with rtc := if s.rtc.running then s.rtc else s.rtc.setTime 0, source := .none }

/-- The second read now is the boot epoch, and its ticks are where the elapsed time starts from. -/
def latchBootEpoch (s : SystemTime) : SystemTime :=
  { s with bootEpoch := (if s.rtc.readable then s.rtc.second else 0) % 2 ^ 32, elapsed := s.rtc.fraction }

/-- `begin()`, with `_ds1307.begin()`'s answer in `ds1307Present`. -/
def begin : Prog SystemTime Bool := do
  let running ← .get fun s => s.rtc.running
  let found ← getUnixTime
  .modify fun s => { s with foundRunning := running && isPlausible found }
  let seededFromDs1307 ← .act seedFromDs1307
  .modify (selectSource seededFromDs1307)
  .modify latchBootEpoch
  let source ← .get fun s => s.source
  return source ≠ .none

/-! ## What the other task may do -/

/-- What `TaskMavlink` asks of the clock. -/
inductive Call
  | setUnixTime (unixTime : Int) (from_ : Source)
  | reseedFromDs1307
  | pushToDs1307
  deriving DecidableEq, Repr

def Call.prog : Call → Prog SystemTime Unit
  | .setUnixTime unixTime from_ => do let _ ← Clock.setUnixTime unixTime from_
  | .reseedFromDs1307 => do let _ ← Clock.reseedFromDs1307
  | .pushToDs1307 => do let _ ← Clock.pushToDs1307

end BoredomOS.Clock
