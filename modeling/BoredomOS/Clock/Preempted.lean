/-
`sinceBootUsec` preempted by the clock's writer. `TaskMavlink` outranks the tasks that read the
elapsed time, so between two of their reads it may complete any calls; each is indivisible for the
reader, but the second, the fraction and the epoch of one reading are not. A correction that lands
between the read of the second and the read of `_bootEpoch` goes into the result, and stays there unless
the call is as long as the correction.
-/
import BoredomOS.Clock.Elapsed

namespace BoredomOS.Clock

open Steps

/-- What happens between two reads: time passes, or the writer completes a call. -/
inductive Move
  | wait (ticks : Nat)
  | call (c : Call)
  deriving DecidableEq, Repr

def Move.act (s : SystemTime) : Move → SystemTime
  | .wait ticks => s.wait ticks
  | .call c => (c.prog.run s).2

def meanwhile (moves : List Move) (s : SystemTime) : SystemTime := moves.foldl Move.act s

/-- One reading, with `moves n` before its `n`-th read: the result, the number of reads made, and
the clock it leaves. -/
def reading (moves : Nat → List Move) (s : SystemTime) : Nat × Nat × SystemTime :=
  sinceBootUsec.runWith (fun n => meanwhile (moves n)) 0 s

/-- The clock after the moves before the first `n` reads, so that the `n`-th of them reads it. -/
def clockAfter (moves : Nat → List Move) (s : SystemTime) : Nat → SystemTime
  | 0 => s
  | n + 1 => meanwhile (moves n) (clockAfter moves s n)

/-- What one reading puts together: the clock its second is from, the fraction beside it, and the clock
its epoch is from, with which the call ends. -/
structure Pairing where
  second : SystemTime
  fraction : Nat
  epoch : SystemTime

/-- The pairing of the first attempt whose two seconds agree, and of the fallback when none does, with
the attempts left and the reads made so far. -/
def pairing (moves : Nat → List Move) (s : SystemTime) : Nat → Nat → Pairing
  | 0, n => ⟨clockAfter moves s (n + 1), 0, clockAfter moves s (n + 2)⟩
  | attempts + 1, n =>
    if (clockAfter moves s (n + 1)).rtc.second = (clockAfter moves s (n + 3)).rtc.second then
      ⟨clockAfter moves s (n + 1), (clockAfter moves s (n + 2)).rtc.fraction, clockAfter moves s (n + 4)⟩
    else pairing moves s attempts (n + 3)

namespace Pairing

variable (p : Pairing)

/-- The net correction, in ticks, that the epoch has and the second has not: the second's clock is ahead of its
elapsed time by the boot epoch it was kept with. -/
def correction : Int := 128 * p.epoch.bootEpoch + p.second.elapsed - p.second.rtc.ticks

/-- By how much the reading stands before its read of the second: the correction, and the ticks of that
second which the fraction leaves out. -/
def setBack : Int := p.correction + (p.second.rtc.fraction - p.fraction)

/-- A call that started at the tick `start` had run for as long as it is set back when it read the
second, or started at the epoch itself; and it still ran for as long as it is set forward. -/
def Absorbed (start : Nat) : Prop :=
  (start = 0 ∨ p.setBack ≤ p.second.elapsed - start) ∧ -p.setBack ≤ p.epoch.elapsed - p.second.elapsed

instance (start : Nat) : Decidable (p.Absorbed start) := inferInstanceAs (Decidable (_ ∧ _))

end Pairing

theorem run_eq_made (c : Call) (s : SystemTime) : (c.prog.run s).2 = c.made (fun _ => 0) s := by
  have hzero : (fun _ : Nat => SystemTime.wait 0) = fun _ s => s := funext fun _ => funext SystemTime.wait_zero
  rw [Call.made, hzero, ← Prog.runWith_id c.prog 0 s]

theorem move_sound (m : Move) {s : SystemTime} (h : Sound s) : Sound (m.act s) ∧ s.elapsed ≤ (m.act s).elapsed := by
  cases m with
  | wait ticks => exact ⟨h.wait ticks, Nat.le_add_right _ _⟩
  | call c =>
    rw [Move.act, run_eq_made]
    exact call_sound c _ h (not_crosses_zero c s)

theorem meanwhile_sound : ∀ (moves : List Move) {s : SystemTime}, Sound s →
    Sound (meanwhile moves s) ∧ s.elapsed ≤ (meanwhile moves s).elapsed
  | [], _, h => ⟨h, le_refl _⟩
  | m :: moves, _, h => by
    obtain ⟨h₁, hle₁⟩ := move_sound m h
    obtain ⟨h₂, hle₂⟩ := meanwhile_sound moves h₁
    exact ⟨h₂, le_trans hle₁ hle₂⟩

theorem clockAfter_succ (moves : Nat → List Move) (s : SystemTime) (n : Nat) :
    meanwhile (moves n) (clockAfter moves s n) = clockAfter moves s (n + 1) := rfl

theorem clockAfter_sound (moves : Nat → List Move) {s : SystemTime} (h : Sound s) : ∀ n, Sound (clockAfter moves s n)
  | 0 => h
  | n + 1 => (meanwhile_sound (moves n) (clockAfter_sound moves h n)).1

/-! ## What the reads make of it -/

section

variable {moves : Nat → List Move} {s : SystemTime}

theorem readSeconds_clockAfter (h : Sound s) (n : Nat) :
    readSeconds.runWith (fun n => meanwhile (moves n)) n (clockAfter moves s n) =
      (some (clockAfter moves s (n + 1)).rtc.second, n + 1, clockAfter moves s (n + 1)) := by
  simp only [readSeconds, Prog.runWith_get, clockAfter_succ, (clockAfter_sound moves h (n + 1)).readable, if_true]

/-- The attempts left return what the pairing puts together, one read before the epoch's. -/
theorem getUnixTimeUsecIn_clockAfter (moves : Nat → List Move) {s : SystemTime} (h : Sound s) : ∀ attempts n : Nat, ∃ m,
    (getUnixTimeUsecIn attempts).runWith (fun n => meanwhile (moves n)) n (clockAfter moves s n) =
      ((pairing moves s attempts n).second.rtc.second * usecPerSec +
        (pairing moves s attempts n).fraction * kUsecPerR64TickNum / kUsecPerR64TickDen, m, clockAfter moves s m) ∧
      (pairing moves s attempts n).epoch = clockAfter moves s (m + 1)
  | 0, n => by
    refine ⟨n + 1, ?_, rfl⟩
    simp only [getUnixTimeUsecIn, getUnixTime, Prog.runWith_bind, readSeconds_clockAfter h, Prog.runWith_pure, Option.getD_some,
      pairing, Nat.zero_mul, Nat.zero_div, Nat.add_zero]
  | attempts + 1, n => by
    simp only [getUnixTimeUsecIn, Prog.runWith_bind, readSeconds_clockAfter h, Prog.runWith_get, clockAfter_succ, pairing]
    by_cases hagree : (clockAfter moves s (n + 1)).rtc.second = (clockAfter moves s (n + 3)).rtc.second
    · rw [if_pos hagree, if_pos hagree]
      exact ⟨n + 3, rfl, rfl⟩
    · rw [if_neg hagree, if_neg hagree]
      exact getUnixTimeUsecIn_clockAfter moves h attempts (n + 3)

end

/-- Seconds and fraction over an epoch are the ticks between them, and none from before it. -/
theorem sinceBase_eq (second bootEpoch fraction : Nat) (_ : fraction < 128) :
    (if bootEpoch * usecPerSec < second * usecPerSec + fraction * kUsecPerR64TickNum / kUsecPerR64TickDen then
        second * usecPerSec + fraction * kUsecPerR64TickNum / kUsecPerR64TickDen - bootEpoch * usecPerSec
      else 0) = usec (128 * second + fraction - 128 * bootEpoch : Int).toNat := by
  split <;> simp only [usec, usecPerSec, kUsecPerR64TickNum, kUsecPerR64TickDen] at * <;> omega

theorem pairing_fraction_lt (moves : Nat → List Move) (s : SystemTime) : ∀ attempts n, (pairing moves s attempts n).fraction < 128
  | 0, _ => Nat.zero_lt_succ _
  | attempts + 1, n => by
    rw [pairing]
    split
    · exact Nat.mod_lt _ (by decide)
    · exact pairing_fraction_lt moves s attempts (n + 3)

/-- A reading is the ticks at its second, set back. -/
theorem reading_eq (moves : Nat → List Move) {s : SystemTime} (h : Sound s) :
    (reading moves s).1 = usec ((pairing moves s 4 0).second.elapsed - (pairing moves s 4 0).setBack).toNat ∧
      (reading moves s).2.2 = (pairing moves s 4 0).epoch := by
  obtain ⟨m, hread, hepoch⟩ := getUnixTimeUsecIn_clockAfter moves h 4 0
  have hlt := pairing_fraction_lt moves s 4 0
  rw [clockAfter] at hread
  rw [reading, sinceBootUsec, getUnixTimeUsec, Prog.runWith_bind, hread]
  simp only [Prog.runWith_bind, Prog.runWith_get, Prog.runWith_pure, clockAfter_succ, ← hepoch]
  generalize pairing moves s 4 0 = p at hlt ⊢
  refine ⟨?_, trivial⟩
  rw [sinceBase_eq _ _ _ hlt]
  congr 2
  simp only [Pairing.setBack, Pairing.correction, Rtc.second, Rtc.fraction, kR64TicksPerSec]
  omega

theorem usec_le_usec_iff {a b : Nat} : usec a ≤ usec b ↔ a ≤ b := by
  simp only [usec, kUsecPerR64TickNum, kUsecPerR64TickDen]
  omega

end BoredomOS.Clock
