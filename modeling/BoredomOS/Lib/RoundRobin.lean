/-
A cursor that goes round a table and stops at the next entry that is live. One lap from the cursor with
the others left out says all about it: a stop is at the first entry of the lap and leaves the lap rotated
by one, so the `k`-th stop is at the entry `k` of the lap, counted round.
-/
import Mathlib.Data.List.Rotate

namespace RoundRobin

variable {α : Type*} (live : α → Bool) (table : List α)

/-- The live entries in the order of one lap from the cursor. -/
def lap (cursor : ℕ) : List α := (table.rotate cursor).filter live

/-- The cursor may wrap. -/
theorem lap_mod (cursor : ℕ) : lap live table (cursor % table.length) = lap live table cursor := by
  unfold lap
  rw [List.rotate_mod]

theorem mem_lap {cursor : ℕ} {x : α} : x ∈ lap live table cursor ↔ x ∈ table ∧ live x = true := by
  unfold lap
  rw [List.mem_filter, List.mem_rotate]

variable {live table} {cursor : ℕ} {x : α}

/-- The cursor moves on by one entry. -/
theorem rotate_succ (hx : (table.rotate cursor).head? = some x) :
    ∃ rest, table.rotate cursor = x :: rest ∧ table.rotate (cursor + 1) = rest ++ [x] := by
  obtain ⟨rest, hrest⟩ := List.head?_eq_some_iff.1 hx
  refine ⟨rest, hrest, ?_⟩
  rw [← List.rotate_rotate, hrest, List.rotate_cons_succ, List.rotate_zero]

theorem lap_of_live (hx : (table.rotate cursor).head? = some x) (hlive : live x = true) :
    (lap live table cursor).head? = some x ∧ lap live table (cursor + 1) = (lap live table cursor).rotate 1 := by
  obtain ⟨rest, hcursor, hnext⟩ := rotate_succ hx
  unfold lap
  rw [hcursor, hnext, List.filter_append, List.filter_cons_of_pos hlive, List.filter_singleton, hlive]
  constructor
  · rfl
  · rw [List.rotate_cons_succ, List.rotate_zero]
    rfl

theorem lap_of_not_live (hx : (table.rotate cursor).head? = some x) (hlive : live x = false) :
    lap live table (cursor + 1) = lap live table cursor := by
  obtain ⟨rest, hcursor, hnext⟩ := rotate_succ hx
  unfold lap
  have hnot : ¬ live x = true := by simp [hlive]
  rw [hcursor, hnext, List.filter_append, List.filter_cons_of_neg hnot, List.filter_cons_of_neg hnot]
  exact List.append_nil _

/-- The first entry of a list that has been rotated so often. -/
theorem head?_rotate_mod (l : List α) (k : ℕ) : (l.rotate k).head? = l[k % l.length]? := by
  rcases l with _ | ⟨y, l⟩
  · simp
  · rw [← List.rotate_mod]
    exact List.head?_rotate (Nat.mod_lt _ (Nat.succ_pos _))

end RoundRobin
