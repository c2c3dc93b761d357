/-
A timer that is looked at from time to time, in time that does not wrap: a look that finds it due moves
it on by its period, however late the look is. What it has fired is then a matter of arithmetic, and a
counter of any width shows the same elapsed time while that fits it.
-/
import Mathlib.Data.Int.Cast.Lemmas
import Mathlib.Tactic.Linarith
import Mathlib.Tactic.Ring

namespace Periodic

variable (period : ℤ)

/-- When the timer last was due, behind a look at this time. -/
def after (last now : ℤ) : ℤ := if period ≤ now - last then last + period else last

/-- How many of the looks find it due. -/
def fired : ℤ → List ℤ → ℕ
  | _, [] => 0
  | last, now :: nows => (if period ≤ now - last then 1 else 0) + fired (after period last now) nows

/-- The timer goes by its period from where it began, not from where it was looked at. -/
theorem foldl_after : ∀ (nows : List ℤ) (last : ℤ), nows.foldl (after period) last = last + period * fired period last nows
  | [], last => by simp [fired]
  | now :: nows, last => by
    rw [List.foldl_cons, foldl_after nows, fired]
    unfold after
    split
    · push_cast
      ring
    · push_cast
      ring

theorem fired_append (nows nows' : List ℤ) (last : ℤ) :
    fired period last (nows ++ nows') = fired period last nows + fired period (nows.foldl (after period) last) nows' := by
  induction nows generalizing last with
  | nil => simp [fired]
  | cons now nows ih => rw [List.cons_append, fired, fired, ih, List.foldl_cons, Nat.add_assoc]

variable {period}

/-- A look that finds it due comes no earlier than the time it then moves to. -/
theorem after_le_of_due {last now : ℤ} (h : period ≤ now - last) : last + period ≤ now := by linarith

/-- A look less than two periods behind leaves less than one, so the firings are the whole periods gone. -/
theorem fired_eq_div {seed now : ℤ} {nows : List ℤ} (hle : nows.foldl (after period) seed ≤ now)
    (hlt : now - nows.foldl (after period) seed < 2 * period) :
    (fired period seed (nows ++ [now]) : ℤ) = (now - seed) / period := by
  have hlast := foldl_after period nows seed
  rw [fired_append, fired, fired]
  have hpositive : 0 < period := by linarith
  symm
  rw [Int.ediv_eq_iff_of_pos hpositive]
  push_cast
  split
  · rename_i hdue
    constructor <;> linarith
  · rename_i hdue
    constructor <;> linarith

/-- On a counter of `w` bits the elapsed time shows while it fits. -/
theorem elapsed_ofInt {w : ℕ} {last now : ℤ} (hle : last ≤ now) (hlt : now - last < 2 ^ w) :
    ((BitVec.ofInt w now - BitVec.ofInt w last).toNat : ℤ) = now - last := by
  rw [BitVec.sub_eq_add_neg, ← BitVec.ofInt_neg, ← BitVec.ofInt_add, ← Int.sub_eq_add_neg, BitVec.toNat_ofInt]
  have hmod : (now - last) % (2 ^ w : ℕ) = now - last := Int.emod_eq_of_lt (by omega) (by exact_mod_cast hlt)
  rw [hmod]
  omega

end Periodic
