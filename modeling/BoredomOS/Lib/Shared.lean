/-
Something that one party sends to while others use it: what it has become, told by what was sent, in order, and
by what the others do in between. Where they do nothing, it is what was sent and no more.
-/
import Mathlib.Data.List.Basic

namespace Shared

variable {σ α : Type*}

/-- `Sent use send xs s s'`: the party sent `xs`, the others had their use in between, and `s` became `s'`. -/
inductive Sent (use : σ → σ → Prop) (send : σ → α → σ) : List α → σ → σ → Prop
  | nothing (s : σ) : Sent use send [] s s
  | used {xs : List α} {s s' s'' : σ} (before : Sent use send xs s s') (used : use s' s'') : Sent use send xs s s''
  | sent {xs : List α} {s s' : σ} (before : Sent use send xs s s') (x : α) : Sent use send (xs ++ [x]) s (send s' x)

namespace Sent

variable {use use' : σ → σ → Prop} {send : σ → α → σ} {xs ys : List α} {s s' s'' : σ}

/-- A send to what the others left. -/
theorem one (h : use s s') (x : α) : Sent use send [x] s (send s' x) := ((nothing s).used h).sent x

theorem trans (h : Sent use send xs s s') (h' : Sent use send ys s' s'') : Sent use send (xs ++ ys) s s'' := by
  induction h' with
  | nothing => rwa [List.append_nil]
  | used _ hused ih => exact (ih h).used hused
  | sent _ x ih =>
    rw [← List.append_assoc]
    exact (ih h).sent x

theorem mono (huse : ∀ s s', use s s' → use' s s') (h : Sent use send xs s s') : Sent use' send xs s s' := by
  induction h with
  | nothing => exact nothing _
  | used _ hused ih => exact ih.used (huse _ _ hused)
  | sent _ x ih => exact ih.sent x

/-- With the others idle. -/
theorem eq_foldl (hidle : ∀ s s', use s s' → s' = s) (h : Sent use send xs s s') : s' = xs.foldl send s := by
  induction h with
  | nothing => rfl
  | used _ hused ih => rw [hidle _ _ hused, ih]
  | sent _ x ih => rw [List.foldl_append, ← ih, List.foldl_cons, List.foldl_nil]

end Sent

end Shared
