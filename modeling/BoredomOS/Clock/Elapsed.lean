/-
The elapsed time of `SystemTime` against the ticks that really passed. As long as the boot epoch
and the clock are corrected by the same amount, the clock is the epoch plus the ticks since boot;
a reader whose second, fraction and epoch belong to one such clock therefore reads a time that lay
within its own call, retries and the fallback to whole seconds included.
-/
import Mathlib.Tactic.NormNum
import Mathlib.Tactic.Ring
import BoredomOS.Clock.SystemTime

namespace BoredomOS.Clock

open Steps

/-- A count of 1/128 s in whole microseconds, rounded down as the code rounds the fraction. -/
def usec (ticks : Nat) : Nat := ticks * kUsecPerR64TickNum / kUsecPerR64TickDen

theorem usec_mono {a b : Nat} (h : a ≤ b) : usec a ≤ usec b :=
  Nat.div_le_div_right (Nat.mul_le_mul_right _ h)

/-- A whole second is a whole number of microseconds, so only the fraction is rounded. -/
theorem usec_split (n : Nat) : usec n = n / 128 * usecPerSec + n % 128 * kUsecPerR64TickNum / kUsecPerR64TickDen := by
  simp only [usec, usecPerSec, kUsecPerR64TickNum, kUsecPerR64TickDen]
  omega

/-- The uptime up to which no accepted time can take the epoch below zero. -/
def epochBound : Nat := kOldestAcceptable * kR64TicksPerSec

/-- The clock stands at the boot epoch plus the ticks since boot. -/
structure Sound (s : SystemTime) : Prop where
  readable : s.rtc.readable = true
  writable : s.rtc.writable = true
  running : s.rtc.running = true
  ticks : s.elapsed ≤ epochBound → s.rtc.ticks = s.bootEpoch * 128 + s.elapsed

theorem Sound.second {s : SystemTime} (h : Sound s) (he : s.elapsed ≤ epochBound) :
    s.rtc.second = s.bootEpoch + s.elapsed / 128 := by
  rw [Rtc.second, h.ticks he, kR64TicksPerSec]; omega

theorem Sound.fraction {s : SystemTime} (h : Sound s) (he : s.elapsed ≤ epochBound) :
    s.rtc.fraction = s.elapsed % 128 := by
  rw [Rtc.fraction, h.ticks he, kR64TicksPerSec]; omega

/-! ## What keeps the clock sound -/

namespace SystemTime

variable (s : SystemTime) (n : Nat)

@[simp] theorem elapsed_wait : (s.wait n).elapsed = s.elapsed + n := rfl

@[simp] theorem bootEpoch_wait : (s.wait n).bootEpoch = s.bootEpoch := rfl

@[simp] theorem source_wait : (s.wait n).source = s.source := rfl

@[simp] theorem ds1307Present_wait : (s.wait n).ds1307Present = s.ds1307Present := rfl

theorem wait_zero : s.wait 0 = s := by
  unfold wait; simp

end SystemTime

theorem Sound.wait {s : SystemTime} (h : Sound s) (n : Nat) : Sound (s.wait n) := by
  refine ⟨?_, ?_, ?_, fun he => ?_⟩
  · simp [SystemTime.wait, h.running, h.readable]
  · simp [SystemTime.wait, h.running, h.writable]
  · simp [SystemTime.wait, h.running]
  · simp only [SystemTime.elapsed_wait] at he
    have := h.ticks (by omega)
    simp only [SystemTime.wait, h.running, if_true, this]; omega

/-- What leaves the internal clock, the epoch and the record alone keeps the clock sound. -/
theorem Sound.congr {s s' : SystemTime} (h : Sound s) (hr : s'.rtc = s.rtc) (he : s'.bootEpoch = s.bootEpoch)
    (hn : s'.elapsed = s.elapsed) : Sound s' :=
  ⟨by rw [hr]; exact h.readable, by rw [hr]; exact h.writable, by rw [hr]; exact h.running,
    by rw [hr, he, hn]; exact h.ticks⟩

theorem isPlausible_iff {unixTime : Int} :
    isPlausible unixTime = true ↔ 1640995200 ≤ unixTime ∧ unixTime ≤ 4294967295 := by
  simp only [isPlausible, Bool.and_eq_true, decide_eq_true_eq, kOldestAcceptable]
  norm_num

/-- The update moves clock and epoch alike, when the clock still shows the second it was read at. -/
theorem Sound.setClockAndEpoch {s : SystemTime} (h : Sound s) {unixTime : Int} (hp : isPlausible unixTime = true)
    {previous : Nat} (hprev : s.rtc.second = previous) : Sound (setClockAndEpoch unixTime previous s).2 := by
  rw [isPlausible_iff] at hp
  rw [Clock.setClockAndEpoch, if_pos h.writable]
  refine ⟨?_, ?_, ?_, fun he => ?_⟩
  · simpa [Rtc.setTime, h.writable] using h.readable
  · simp [Rtc.setTime, h.writable]
  · simp [Rtc.setTime, h.writable]
  · have hsec := h.second he
    have hfrac := h.fraction he
    simp only [epochBound, kOldestAcceptable, kR64TicksPerSec] at he
    simp only [Rtc.setTime, h.writable, if_true, hfrac, kR64TicksPerSec]
    obtain ⟨t, rfl⟩ := Int.eq_ofNat_of_zero_le (show 0 ≤ unixTime by omega)
    have hq : s.elapsed / 128 ≤ t := by omega
    have hnew : (((s.bootEpoch : Int) + (t - previous)) % 2 ^ 32).toNat = t - s.elapsed / 128 := by
      rw [← hprev, hsec, show (s.bootEpoch : Int) + (t - (s.bootEpoch + s.elapsed / 128 : Nat)) =
        (t - s.elapsed / 128 : Nat) by push_cast [Nat.cast_sub hq]; ring]
      omega
    rw [hnew, Int.toNat_natCast]
    omega

/-- An internal RTC as the hardware has it: it answers, and shows a second of its calendar. -/
structure Rtc.Answers (r : Rtc) : Prop where
  readable : r.readable = true
  writable : r.writable = true
  second : r.second < 2 ^ 32

theorem Rtc.Answers.setTime {r : Rtc} (h : r.Answers) {t : Nat} (ht : t < 2 ^ 32) :
    (r.setTime t).Answers ∧ (r.setTime t).running = true := by
  rw [Rtc.setTime, if_pos h.writable]
  refine ⟨⟨h.readable, h.writable, ?_⟩, rfl⟩
  simp only [Rtc.second, Rtc.fraction, kR64TicksPerSec]
  omega

theorem seedFromDs1307_answers {s : SystemTime} (h : s.rtc.Answers) : (seedFromDs1307 s).2.rtc.Answers ∧
    ((seedFromDs1307 s).1 = true ∨ (s.rtc.running = true) → (seedFromDs1307 s).2.rtc.running = true) ∧
      (seedFromDs1307 s).2.foundRunning = s.foundRunning := by
  unfold seedFromDs1307
  split
  · rename_i hp
    simp only [Bool.and_eq_true, isPlausible_iff] at hp
    obtain ⟨ha, hrun⟩ := h.setTime (t := s.ds1307Now) (by omega)
    exact ⟨ha, fun _ => hrun, rfl⟩
  · exact ⟨h, fun hr => hr.resolve_left (by simp), rfl⟩

theorem selectSource_answers {s : SystemTime} (h : s.rtc.Answers) {seeded : Bool}
    (hrun : seeded = true ∨ s.foundRunning = true → s.rtc.running = true) :
    (selectSource seeded s).rtc.Answers ∧ (selectSource seeded s).rtc.running = true := by
  unfold selectSource
  split
  · rename_i hs; exact ⟨h, hrun (Or.inl hs)⟩
  · split
    · rename_i hf; exact ⟨h, hrun (Or.inr hf)⟩
    · cases hr : s.rtc.running with
      | true => simpa [hr] using h
      | false => simpa [hr] using h.setTime (t := 0) (by omega)

theorem latchBootEpoch_sound {s : SystemTime} (h : s.rtc.Answers) (hrun : s.rtc.running = true) :
    Sound (latchBootEpoch s) := by
  refine ⟨h.readable, h.writable, hrun, fun _ => ?_⟩
  have := Nat.mod_eq_of_lt h.second
  simp only [latchBootEpoch, h.readable, if_true, this]
  simp only [Rtc.second, Rtc.fraction, kR64TicksPerSec]
  omega

/-- `begin()` leaves a sound clock, whichever source it finds. -/
theorem begin_sound {s : SystemTime} (h : s.rtc.Answers) : Sound (begin.run s).2 := by
  have hget : (getUnixTime.run s).2 = s := rfl
  simp only [begin, Prog.run_bind, Prog.run_get, Prog.run_modify, Prog.run_act, Prog.run_pure, hget]
  obtain ⟨h1, hrun1, hfound⟩ := seedFromDs1307_answers
    (s := { s with foundRunning := s.rtc.running && isPlausible (getUnixTime.run s).1 }) h
  obtain ⟨h2, hrun2⟩ := selectSource_answers h1 fun hs => hrun1 (hs.imp_right fun hf => by
    rw [hfound] at hf
    exact (Bool.and_eq_true _ _ ▸ hf).1)
  exact latchBootEpoch_sound h2 hrun2

/-- A board whose DS1307 answers, its RTC stopped at a second and a half. -/
def seeded : SystemTime where
  rtc := { ticks := 192, running := false, readable := true, writable := true }
  ds1307 := 1700000000 * 128
  ds1307Present := true

theorem seeded_answers : seeded.rtc.Answers := ⟨rfl, rfl, by decide⟩

/-! ## A call of the writer -/

/-- A call with `g k` ticks before its `k`-th step. -/
def Call.made (g : Nat → Nat) (c : Call) (s : SystemTime) : SystemTime :=
  (c.prog.runWith (fun k => SystemTime.wait (g k)) 0 s).2.2

/-- A set, from its step `n` on, that moves the clock, with a second boundary between its read of
the previous second and its update. -/
def SetCrosses (g : Nat → Nat) (n : Nat) (unixTime : Int) (from_ : Source) (s : SystemTime) : Prop :=
  let read := (s.wait (g n)).wait (g (n + 1))
  isPlausible unixTime = true ∧ from_.rank ≤ s.source.rank ∧ (read.rtc.second : Int) ≠ unixTime ∧
    (read.wait (g (n + 2))).rtc.second ≠ read.rtc.second

def Call.Crosses (g : Nat → Nat) (s : SystemTime) : Call → Prop
  | .setUnixTime unixTime from_ => SetCrosses g 0 unixTime from_ s
  | .reseedFromDs1307 =>
    let read := (s.wait (g 0)).wait (g 1)
    s.ds1307Present = true ∧ SetCrosses g 2 read.ds1307Now .ds1307 read
  | .pushToDs1307 => False

/-- Only time passes between the steps of the call, `g k` ticks before the `k`-th. -/
def Ticking (g : Nat → Nat) (k : Nat) (s s' : SystemTime) : Prop := s' = s.wait (g k)

/-- The clock is sound, no earlier than `e`. -/
def SoundFrom (e : Nat) {α : Type} (_ : α) (_ : Nat) (s : SystemTime) : Prop := Sound s ∧ e ≤ s.elapsed

theorem correctDs1307_sound (unixTime : Int) (wanted : Bool) (g : Nat → Nat) (n e : Nat) {s : SystemTime} (h : Sound s)
    (he : e ≤ s.elapsed) : Prog.rely (Ticking g) (correctDs1307 unixTime wanted) (SoundFrom e) n s := by
  simp only [correctDs1307, Prog.rely_bind, Prog.rely_get, Prog.rely_when, Ticking, forall_eq]
  split
  · simp only [Prog.rely_modify, Ticking, forall_eq]
    exact ⟨(((h.wait _).wait _).wait _).congr rfl rfl rfl, by simp [SystemTime.adjust]; omega⟩
  · exact ⟨(h.wait _).wait _, by simp; omega⟩

/-- A set that does not meet a second boundary keeps the clock sound, whether it is refused, finds
the second already held, or moves the clock either way. -/
theorem setUnixTime_sound (unixTime : Int) (from_ : Source) (g : Nat → Nat) (n e : Nat) {s : SystemTime} (h : Sound s)
    (he : e ≤ s.elapsed) (hcross : ¬ SetCrosses g n unixTime from_ s) :
    Prog.rely (Ticking g) (setUnixTime unixTime from_) (SoundFrom e) n s := by
  unfold setUnixTime
  split
  · exact ⟨h, he⟩
  rename_i hp
  simp only [Prog.rely_bind, Prog.rely_get, Ticking, forall_eq]
  split
  · exact ⟨h.wait _, by simp; omega⟩
  rename_i hrank
  have h2 : Sound ((s.wait (g n)).wait (g (n + 1))) := (h.wait _).wait _
  simp only [getUnixTime, readSeconds, Prog.rely_bind, Prog.rely_get, Prog.rely_pure, Ticking, forall_eq, h2.readable,
    if_true, Option.getD_some]
  split
  · -- the second is already held: only the source and the DS1307 can change
    simp only [Prog.rely_bind, Prog.rely_modify, Prog.rely_pure, Ticking, forall_eq]
    refine Prog.rely_mono (fun _ _ s' hs' => hs') _ _ _ (correctDs1307_sound unixTime _ g _ e ?_ ?_)
    · exact (h2.wait _).congr rfl rfl rfl
    · simp; omega
  · rename_i hne
    simp only [Prog.rely_bind, Prog.rely_act, Ticking, forall_eq]
    have h3 := h2.wait (g (n + 2))
    have hstill : (((s.wait (g n)).wait (g (n + 1))).wait (g (n + 2))).rtc.second =
        ((s.wait (g n)).wait (g (n + 1))).rtc.second := by
      by_contra hmoved
      exact hcross ⟨by simpa using hp, by simpa using hrank, hne, hmoved⟩
    have h4 := h3.setClockAndEpoch (by simpa using hp : isPlausible unixTime = true) hstill
    rw [setClockAndEpoch, if_pos h3.writable] at h4 ⊢
    simp only [Bool.not_true, Bool.false_eq_true, if_false, Prog.rely_bind, Prog.rely_modify, Prog.rely_pure, Ticking,
      forall_eq]
    refine Prog.rely_mono (fun _ _ s' hs' => ?_) _ _ _ (correctDs1307_sound unixTime _ g _ e h4 ?_)
    · exact ⟨(hs'.1.wait _).congr rfl rfl rfl, by have := hs'.2; simp; omega⟩
    · simp; omega

theorem pushToDs1307_sound (g : Nat → Nat) (n e : Nat) {s : SystemTime} (h : Sound s) (he : e ≤ s.elapsed) :
    Prog.rely (Ticking g) pushToDs1307 (SoundFrom e) n s := by
  simp only [pushToDs1307, Prog.rely_bind, Prog.rely_get, Ticking, forall_eq]
  split
  · exact ⟨h.wait _, by simp; omega⟩
  have h2 : Sound ((s.wait (g n)).wait (g (n + 1))) := (h.wait _).wait _
  simp only [getUnixTime, readSeconds, Prog.rely_bind, Prog.rely_get, Prog.rely_pure, Ticking, forall_eq, h2.readable,
    if_true, Option.getD_some]
  split
  · exact ⟨h2, by simp; omega⟩
  simp only [Prog.rely_bind, Prog.rely_get, Ticking, forall_eq]
  split
  · exact ⟨h2.wait _, by simp; omega⟩
  · simp only [Prog.rely_bind, Prog.rely_modify, Prog.rely_pure, Ticking, forall_eq]
    exact ⟨((h2.wait _).wait _).congr rfl rfl rfl, by simp [SystemTime.adjust]; omega⟩

theorem call_sound (c : Call) (g : Nat → Nat) {s : SystemTime} (h : Sound s) (hcross : ¬ c.Crosses g s) :
    Sound (c.made g s) ∧ s.elapsed ≤ (c.made g s).elapsed := by
  have halong : Prog.Along (Ticking g) (fun k => SystemTime.wait (g k)) c.prog 0 s :=
    Prog.along_of_forall (fun _ _ => by exact rfl) _ _ _
  refine Prog.rely_sound _ c.prog 0 s (Q := SoundFrom s.elapsed) ?_ halong
  cases c with
  | setUnixTime unixTime from_ =>
    simp only [Call.prog, Prog.rely_bind, Prog.rely_pure]
    exact Prog.rely_mono (fun _ _ _ hs => hs) _ _ _ (setUnixTime_sound unixTime from_ g 0 _ h (le_refl _) hcross)
  | reseedFromDs1307 =>
    simp only [Call.prog, reseedFromDs1307, Prog.rely_bind, Prog.rely_pure, Prog.rely_get, Ticking, forall_eq]
    split
    · exact ⟨h.wait _, by simp⟩
    rename_i hpresent
    simp only [Prog.rely_bind, Prog.rely_get, Ticking, forall_eq]
    refine Prog.rely_mono (fun _ _ _ hs => hs) _ _ _
      (setUnixTime_sound _ .ds1307 g 2 _ ((h.wait _).wait _) (by simp; omega) fun hc => hcross ⟨by simpa using hpresent, hc⟩)
  | pushToDs1307 =>
    simp only [Call.prog, Prog.rely_bind, Prog.rely_pure]
    exact Prog.rely_mono (fun _ _ _ hs => hs) _ _ _ (pushToDs1307_sound g 0 _ h (le_refl _))

/-- An atomic call meets no boundary. -/
theorem not_crosses_zero (c : Call) (s : SystemTime) : ¬ c.Crosses (fun _ => 0) s := by
  cases c <;> simp [Call.Crosses, SetCrosses, SystemTime.wait_zero]

end BoredomOS.Clock
