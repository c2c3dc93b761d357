/-
A machine that turns each input into one output and its next state. Where a run of inputs is cut makes
no difference: the outputs of the whole are those of the parts, one after the other.
-/
import Mathlib.Data.List.Infix

namespace Mealy

variable {σ ι ω : Type*} (f : σ → ι → σ × ω)

/-- The state after the inputs. -/
def state (s : σ) (xs : List ι) : σ := xs.foldl (fun s x => (f s x).1) s

/-- One output for each input. -/
def outputs : σ → List ι → List ω
  | _, [] => []
  | s, x :: xs => (f s x).2 :: outputs (f s x).1 xs

@[simp] theorem state_nil (s : σ) : state f s [] = s := rfl

@[simp] theorem outputs_nil (s : σ) : outputs f s [] = [] := rfl

theorem state_append (s : σ) (xs ys : List ι) : state f s (xs ++ ys) = state f (state f s xs) ys := List.foldl_append

theorem outputs_append (xs ys : List ι) : ∀ s, outputs f s (xs ++ ys) = outputs f s xs ++ outputs f (state f s xs) ys := by
  induction xs with
  | nil => intro s; rfl
  | cons x xs ih =>
    intro s
    rw [List.cons_append, outputs, ih]
    rfl

theorem state_concat (s : σ) (xs : List ι) (x : ι) : state f s (xs ++ [x]) = (f (state f s xs) x).1 := by
  rw [state_append]
  rfl

theorem outputs_concat (s : σ) (xs : List ι) (x : ι) :
    outputs f s (xs ++ [x]) = outputs f s xs ++ [(f (state f s xs) x).2] := by
  rw [outputs_append]
  rfl

@[simp] theorem length_outputs (xs : List ι) : ∀ s, (outputs f s xs).length = xs.length := by
  induction xs with
  | nil => intro s; rfl
  | cons x xs ih =>
    intro s
    rw [outputs, List.length_cons, ih, List.length_cons]

end Mealy
