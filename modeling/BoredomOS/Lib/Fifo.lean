/-
A queue of bounded depth that refuses what it has no room for, and the life of one marked item in
it: while the marked item waits, what was ahead of it is taken from the front and what comes after
it gathers behind.
-/
import Mathlib.Data.List.Basic

namespace Fifo

variable {α : Type*}

/-- Append at the back if there is room; the flag says whether it was accepted. -/
def send (depth : Nat) (q : List α) (x : α) : Bool × List α :=
  if q.length < depth then (true, q ++ [x]) else (false, q)

/-- Take from the front, if anything waits. -/
def receive : List α → Option α × List α
  | [] => (none, [])
  | x :: q => (some x, q)

def spaces (depth : Nat) (q : List α) : Nat := depth - q.length

@[simp] theorem send_fst (depth : Nat) (q : List α) (x : α) : (send depth q x).1 = decide (q.length < depth) := by
  unfold send; split <;> simp [*]

theorem send_room {depth : Nat} {q : List α} (h : q.length < depth) (x : α) : (send depth q x).2 = q ++ [x] := by
  simp [send, h]

theorem send_full {depth : Nat} {q : List α} (h : ¬ q.length < depth) (x : α) : (send depth q x).2 = q := by
  simp [send, h]

theorem mem_send {depth : Nat} {q : List α} {x y : α} (h : y ∈ (send depth q x).2) : y ∈ q ∨ y = x := by
  unfold send at h
  split at h
  · simpa using h
  · exact Or.inl h

theorem send_sublist (depth : Nat) (q : List α) (x : α) : (send depth q x).2.Sublist (q ++ [x]) := by
  unfold send
  split
  · exact .refl _
  · exact List.sublist_append_left _ _

theorem mem_receive {q : List α} {y : α} (h : y ∈ (receive q).2) : y ∈ q := by
  cases q with
  | nil => exact h
  | cons x q => exact List.mem_cons_of_mem _ h

/-- What is received comes from ahead of the marked item, while anything is there. -/
theorem receive_ahead {ahead : List α} (h : ahead ≠ []) (behind : List α) (x : α) :
    (receive (ahead ++ x :: behind)).2 = ahead.tail ++ x :: behind := by
  cases ahead with
  | nil => exact absurd rfl h
  | cons a ahead => rfl

theorem length_receive_le (q : List α) : (receive q).2.length ≤ q.length := by
  cases q <;> simp [receive]

end Fifo
