/-
Programs made of atomic steps on a shared state, for two questions about such a program: what an
interruption between any two steps can leave behind (crash points), and what the program returns
when something else moves the state between its steps (interference). Each question has a weakest
precondition defined by recursion on the program, with the rules that take it through a bind, and
a soundness theorem against the execution it speaks of. Under interference one can also ask whether
a step of some kind is made.
-/
import Mathlib.Logic.Basic
import Mathlib.Data.List.Basic

namespace Steps

/-- A program over the state `σ`: a result, or one atomic step followed by the rest. -/
inductive Prog (σ α : Type) : Type 1
  | pure (a : α)
  | step {β : Type} (f : σ → β × σ) (k : β → Prog σ α)

namespace Prog

variable {σ α β : Type}

def bind : Prog σ α → (α → Prog σ β) → Prog σ β
  | .pure a, f => f a
  | .step g k, f => .step g fun b => (k b).bind f

instance : Monad (Prog σ) where
  pure := Prog.pure
  bind := Prog.bind

/-- One atomic step that reads the state and may change it. -/
def act (f : σ → β × σ) : Prog σ β := .step f .pure

/-- One atomic step that only reads. -/
def get (f : σ → β) : Prog σ β := act fun s => (f s, s)

/-- One atomic step that only changes the state. -/
def modify (f : σ → σ) : Prog σ Unit := act fun s => ((), f s)

/-- The program, if the condition holds. -/
def when (c : Bool) (m : Prog σ Unit) : Prog σ Unit := if c then m else Pure.pure ()

/-! ## Execution and crash points -/

/-- The undisturbed execution. -/
def run : Prog σ α → σ → α × σ
  | .pure a, s => (a, s)
  | .step f k, s => run (k (f s).1) (f s).2

@[simp] theorem run_pure (a : α) (s : σ) : run (Pure.pure a : Prog σ α) s = (a, s) := rfl

@[simp] theorem run_act (f : σ → α × σ) (s : σ) : run (act f) s = f s := rfl

@[simp] theorem run_get (f : σ → α) (s : σ) : run (get f) s = (f s, s) := rfl

@[simp] theorem run_modify (f : σ → σ) (s : σ) : run (modify f) s = ((), f s) := rfl

theorem run_bind_eq (f : α → Prog σ β) : ∀ (m : Prog σ α) (s : σ),
    run (m.bind f) s = run (f (run m s).1) (run m s).2
  | .pure _, _ => rfl
  | .step g k, s => by
    simp only [bind, run]
    rw [run_bind_eq f (k (g s).1)]

@[simp] theorem run_bind (m : Prog σ α) (f : α → Prog σ β) (s : σ) :
    run (m >>= f) s = run (f (run m s).1) (run m s).2 :=
  run_bind_eq f m s

@[simp] theorem run_when (c : Bool) (m : Prog σ Unit) (s : σ) :
    run (when c m) s = if c then run m s else ((), s) := by
  cases c <;> rfl

/-- The states an undisturbed execution passes through, one before each step: where an
interruption can find it. -/
def points : Prog σ α → σ → List σ
  | .pure _, _ => []
  | .step f k, s => s :: points (k (f s).1) (f s).2

theorem points_bind_eq (f : α → Prog σ β) : ∀ (m : Prog σ α) (s : σ),
    points (m.bind f) s = points m s ++ points (f (run m s).1) (run m s).2
  | .pure _, _ => rfl
  | .step g k, s => by
    simp only [bind, points, run, List.cons_append]
    rw [points_bind_eq f (k (g s).1)]

/-- The states an execution can be cut short in: the crash points and the end. -/
def cuts (m : Prog σ α) (s : σ) : List σ := points m s ++ [(run m s).2]

@[simp] theorem cuts_pure (a : α) (s : σ) : cuts (Pure.pure a : Prog σ α) s = [s] := rfl

@[simp] theorem cuts_get (f : σ → α) (s : σ) : cuts (get f) s = [s, s] := rfl

@[simp] theorem cuts_modify (f : σ → σ) (s : σ) : cuts (modify f) s = [s, f s] := rfl

theorem cuts_bind (m : Prog σ α) (f : α → Prog σ β) (s : σ) :
    cuts (m >>= f) s = points m s ++ cuts (f (run m s).1) (run m s).2 := by
  simp only [cuts, run_bind, ← List.append_assoc]
  exact congrArg (· ++ _) (points_bind_eq f m s)

theorem mem_cuts_of_points {m : Prog σ α} {s p : σ} (h : p ∈ points m s) : p ∈ cuts m s :=
  List.mem_append_left _ h

theorem run_mem_cuts (m : Prog σ α) (s : σ) : (run m s).2 ∈ cuts m s :=
  List.mem_append_right _ (List.mem_singleton_self _)

/-- The state after `k` steps, or at the end if there are fewer. -/
def upTo : Nat → Prog σ α → σ → σ
  | _, .pure _, s => s
  | 0, .step _ _, s => s
  | k + 1, .step f g, s => upTo k (g (f s).1) (f s).2

@[simp] theorem upTo_pure (k : Nat) (a : α) (s : σ) : upTo k (Pure.pure a : Prog σ α) s = s := by
  cases k <;> rfl

@[simp] theorem upTo_zero (m : Prog σ α) (s : σ) : upTo 0 m s = s := by
  cases m <;> rfl

theorem upTo_mem_cuts : ∀ (k : Nat) (m : Prog σ α) (s : σ), upTo k m s ∈ cuts m s
  | k, .pure a, s => by
    rw [show upTo k (.pure a) s = s from upTo_pure k a s]
    exact run_mem_cuts (.pure a : Prog σ α) s
  | 0, .step f g, s => List.mem_cons_self ..
  | k + 1, .step f g, s => List.mem_cons_of_mem _ (upTo_mem_cuts k (g (f s).1) (f s).2)

theorem upTo_length : ∀ (m : Prog σ α) (s : σ), upTo (points m s).length m s = (run m s).2
  | .pure _, _ => rfl
  | .step f g, s => upTo_length (g (f s).1) (f s).2

/-- Within the first part of a sequence, only that part has run. -/
theorem upTo_bind_of_le (f : α → Prog σ β) : ∀ {k : Nat} {m : Prog σ α} {s : σ}, k ≤ (points m s).length →
    upTo k (m >>= f) s = upTo k m s
  | 0, _, _, _ => by simp
  | _ + 1, .pure _, _, h => absurd h (by simp [points])
  | k + 1, .step g k', s, h =>
    upTo_bind_of_le (k := k) (m := k' (g s).1) f (by simpa [points] using h)

/-- Past the first part, that part has run whole. -/
theorem upTo_bind_add (f : α → Prog σ β) (k : Nat) : ∀ (m : Prog σ α) (s : σ),
    upTo ((points m s).length + k) (m >>= f) s = upTo k (f (run m s).1) (run m s).2
  | .pure _, _ => by simp [points, run]; rfl
  | .step g k', s => by
    have := upTo_bind_add f k (k' (g s).1) (g s).2
    simp only [points, List.length_cons, Nat.add_right_comm _ 1 k]
    exact this

/-- From `s`, every crash point of the program satisfies `C` and the execution ends in `Q`. -/
def wp (C : σ → Prop) : Prog σ α → (α → σ → Prop) → σ → Prop
  | .pure a, Q, s => Q a s
  | .step f k, Q, s => C s ∧ wp C (k (f s).1) Q (f s).2

variable {C : σ → Prop} {Q Q' : α → σ → Prop}

@[simp] theorem wp_pure (a : α) (s : σ) : wp C (Pure.pure a : Prog σ α) Q s ↔ Q a s := Iff.rfl

@[simp] theorem wp_act (f : σ → α × σ) (s : σ) : wp C (act f) Q s ↔ C s ∧ Q (f s).1 (f s).2 := Iff.rfl

@[simp] theorem wp_get (f : σ → α) (s : σ) : wp C (get f) Q s ↔ C s ∧ Q (f s) s := Iff.rfl

@[simp] theorem wp_modify (f : σ → σ) (Q : Unit → σ → Prop) (s : σ) :
    wp C (modify f) Q s ↔ C s ∧ Q () (f s) := Iff.rfl

theorem wp_bind_eq (f : α → Prog σ β) (Q : β → σ → Prop) : ∀ (m : Prog σ α) (s : σ),
    wp C (m.bind f) Q s ↔ wp C m (fun a s' => wp C (f a) Q s') s
  | .pure _, _ => Iff.rfl
  | .step g k, s => by
    simp only [bind, wp]
    rw [wp_bind_eq f Q (k (g s).1)]

@[simp] theorem wp_bind (m : Prog σ α) (f : α → Prog σ β) (Q : β → σ → Prop) (s : σ) :
    wp C (m >>= f) Q s ↔ wp C m (fun a s' => wp C (f a) Q s') s :=
  wp_bind_eq f Q m s

@[simp] theorem wp_when (c : Bool) (m : Prog σ Unit) (Q : Unit → σ → Prop) (s : σ) :
    wp C (when c m) Q s ↔ if c then wp C m Q s else Q () s := by
  cases c <;> rfl

theorem wp_mono {C' : σ → Prop} (hC : ∀ s, C s → C' s) (hQ : ∀ a s, Q a s → Q' a s) :
    ∀ (m : Prog σ α) (s : σ), wp C m Q s → wp C' m Q' s
  | .pure a, s, h => hQ a s h
  | .step f k, s, h => ⟨hC s h.1, wp_mono hC hQ (k (f s).1) (f s).2 h.2⟩

/-- The weakest precondition says exactly what its two readings say: of the crash points, and of
the outcome. -/
theorem wp_iff : ∀ (m : Prog σ α) (s : σ),
    wp C m Q s ↔ (∀ p ∈ points m s, C p) ∧ Q (run m s).1 (run m s).2
  | .pure _, _ => by simp [wp, points, run]
  | .step f k, s => by
    simp only [wp, points, run, List.forall_mem_cons]
    rw [wp_iff (k (f s).1) (f s).2, and_assoc]

/-- With nothing asked of the crash points, only the outcome is left. -/
theorem wp_true (m : Prog σ α) (s : σ) : wp (fun _ => True) m Q s ↔ Q (run m s).1 (run m s).2 := by
  simp [wp_iff]

/-- Every step of the program keeps `I`, whatever its reads returned. -/
def Keeps (I : σ → Prop) : Prog σ α → Prop
  | .pure _ => True
  | .step f k => (∀ s, I s → I (f s).2) ∧ ∀ b, Keeps I (k b)

section Keeps

variable {I : σ → Prop}

theorem keeps_pure (a : α) : Keeps I (Pure.pure a : Prog σ α) := trivial

theorem keeps_get (f : σ → α) : Keeps I (get f) := ⟨fun _ h => h, fun _ => trivial⟩

theorem keeps_modify {f : σ → σ} (h : ∀ s, I s → I (f s)) : Keeps I (modify f) := ⟨h, fun _ => trivial⟩

theorem keeps_bind {f : α → Prog σ β} : ∀ {m : Prog σ α}, Keeps I m → (∀ a, Keeps I (f a)) → Keeps I (m >>= f)
  | .pure a, _, hf => hf a
  | .step _ _, hm, hf => ⟨hm.1, fun b => keeps_bind (hm.2 b) hf⟩

theorem keeps_when (c : Bool) {m : Prog σ Unit} (h : Keeps I m) : Keeps I (when c m) := by
  cases c
  · exact trivial
  · exact h

/-- What every step keeps holds at every crash point and at the end. -/
theorem wp_of_keeps : ∀ {m : Prog σ α} {s : σ}, Keeps I m → I s → wp I m (fun _ => I) s
  | .pure _, _, _, hs => hs
  | .step _ _, s, hm, hs => ⟨hs, wp_of_keeps (hm.2 _) (hm.1 s hs)⟩

theorem cuts_of_keeps {m : Prog σ α} {s : σ} (hm : Keeps I m) (hs : I s) : ∀ p ∈ cuts m s, I p := by
  obtain ⟨hpoints, hend⟩ := (wp_iff m s).1 (wp_of_keeps hm hs)
  intro p hp
  rcases List.mem_append.1 hp with hp | hp
  · exact hpoints p hp
  · rw [List.mem_singleton.1 hp]
    exact hend

end Keeps

/-! ## Interference -/

/-- The execution in which `i n` moves the state before the `n`-th step: the result, the number of
the next step, and the state. -/
def runWith (i : Nat → σ → σ) : Prog σ α → Nat → σ → α × Nat × σ
  | .pure a, n, s => (a, n, s)
  | .step f k, n, s => runWith i (k (f (i n s)).1) (n + 1) (f (i n s)).2

theorem runWith_bind_eq (i : Nat → σ → σ) (f : α → Prog σ β) : ∀ (m : Prog σ α) (n : Nat) (s : σ),
    runWith i (m.bind f) n s = runWith i (f (runWith i m n s).1) (runWith i m n s).2.1 (runWith i m n s).2.2
  | .pure _, _, _ => rfl
  | .step g k, n, s => by
    simp only [bind, runWith]
    exact runWith_bind_eq i f (k (g (i n s)).1) (n + 1) (g (i n s)).2

section RunWith

variable (i : Nat → σ → σ) (n : Nat) (s : σ)

@[simp] theorem runWith_bind (m : Prog σ α) (f : α → Prog σ β) :
    runWith i (m >>= f) n s = runWith i (f (runWith i m n s).1) (runWith i m n s).2.1 (runWith i m n s).2.2 :=
  runWith_bind_eq i f m n s

@[simp] theorem runWith_pure (a : α) : runWith i (Pure.pure a : Prog σ α) n s = (a, n, s) := rfl

@[simp] theorem runWith_get (f : σ → α) : runWith i (get f) n s = (f (i n s), n + 1, i n s) := rfl

@[simp] theorem runWith_act (f : σ → α × σ) : runWith i (act f) n s = ((f (i n s)).1, n + 1, (f (i n s)).2) := rfl

@[simp] theorem runWith_modify (f : σ → σ) : runWith i (modify f) n s = ((), n + 1, f (i n s)) := rfl

@[simp] theorem runWith_when (c : Bool) (m : Prog σ Unit) :
    runWith i (when c m) n s = if c then runWith i m n s else ((), n, s) := by
  cases c <;> rfl

end RunWith

/-- Undisturbed, the two executions agree. -/
theorem runWith_id : ∀ (m : Prog σ α) (n : Nat) (s : σ),
    ((runWith (fun _ s => s) m n s).1, (runWith (fun _ s => s) m n s).2.2) = run m s
  | .pure _, _, _ => rfl
  | .step f k, n, s => runWith_id (k (f s).1) (n + 1) (f s).2

/-- What every step and every interference keep holds at the end. -/
theorem runWith_of_keeps {I : σ → Prop} {i : Nat → σ → σ} (hi : ∀ n s, I s → I (i n s)) : ∀ (m : Prog σ α) (n : Nat) (s : σ),
    Keeps I m → I s → I (runWith i m n s).2.2
  | .pure _, _, _, _, hs => hs
  | .step f k, n, s, hm, hs =>
    runWith_of_keeps hi (k (f (i n s)).1) (n + 1) (f (i n s)).2 (hm.2 _) (hm.1 _ (hi n s hs))

/-- In the execution a step of the kind `K` is made on a state of `C`, as the interference left it. -/
def occurs (K : (σ → σ) → Prop) (C : σ → Prop) (i : Nat → σ → σ) : Prog σ α → Nat → σ → Prop
  | .pure _, _, _ => False
  | .step f k, n, s => (K fun s => (f s).2) ∧ C (i n s) ∨ occurs K C i (k (f (i n s)).1) (n + 1) (f (i n s)).2

theorem occurs_bind_eq (K : (σ → σ) → Prop) (C : σ → Prop) (i : Nat → σ → σ) (f : α → Prog σ β) :
    ∀ (m : Prog σ α) (n : Nat) (s : σ), occurs K C i (m.bind f) n s ↔
      occurs K C i m n s ∨ occurs K C i (f (runWith i m n s).1) (runWith i m n s).2.1 (runWith i m n s).2.2
  | .pure _, _, _ => (iff_of_eq (false_or _)).symm
  | .step g k, n, s => by
    simp only [bind, occurs, runWith]
    rw [occurs_bind_eq K C i f (k (g (i n s)).1) (n + 1) (g (i n s)).2, or_assoc]

section Occurs

variable (K : (σ → σ) → Prop) (C : σ → Prop) (i : Nat → σ → σ) (n : Nat) (s : σ)

@[simp] theorem occurs_bind (m : Prog σ α) (f : α → Prog σ β) : occurs K C i (m >>= f) n s ↔
    occurs K C i m n s ∨ occurs K C i (f (runWith i m n s).1) (runWith i m n s).2.1 (runWith i m n s).2.2 :=
  occurs_bind_eq K C i f m n s

@[simp] theorem occurs_pure (a : α) : occurs K C i (Pure.pure a : Prog σ α) n s ↔ False := Iff.rfl

@[simp] theorem occurs_act (f : σ → α × σ) : occurs K C i (act f) n s ↔ (K fun s => (f s).2) ∧ C (i n s) :=
  iff_of_eq (or_false _)

@[simp] theorem occurs_get (f : σ → α) : occurs K C i (get f) n s ↔ (K fun s => s) ∧ C (i n s) := iff_of_eq (or_false _)

@[simp] theorem occurs_modify (f : σ → σ) : occurs K C i (modify f) n s ↔ K f ∧ C (i n s) := iff_of_eq (or_false _)

@[simp] theorem occurs_when (c : Bool) (m : Prog σ Unit) :
    occurs K C i (when c m) n s ↔ c = true ∧ occurs K C i m n s := by
  cases c
  · exact ⟨False.elim, fun h => Bool.noConfusion h.1⟩
  · exact ⟨fun h => ⟨rfl, h⟩, And.right⟩

end Occurs

/-- Every move the interference makes during the execution is one `R` allows before that step. -/
def Along (R : Nat → σ → σ → Prop) (i : Nat → σ → σ) : Prog σ α → Nat → σ → Prop
  | .pure _, _, _ => True
  | .step f k, n, s => R n s (i n s) ∧ Along R i (k (f (i n s)).1) (n + 1) (f (i n s)).2

/-- From `s` and step `n`, whatever `R` allows before each step, the execution ends in `Q`. -/
def rely (R : Nat → σ → σ → Prop) : Prog σ α → (α → Nat → σ → Prop) → Nat → σ → Prop
  | .pure a, Q, n, s => Q a n s
  | .step f k, Q, n, s => ∀ s', R n s s' → rely R (k (f s').1) Q (n + 1) (f s').2

section Rely

variable {R : Nat → σ → σ → Prop} {Q Q' : α → Nat → σ → Prop}

@[simp] theorem rely_pure (a : α) (n : Nat) (s : σ) : rely R (Pure.pure a : Prog σ α) Q n s ↔ Q a n s := Iff.rfl

@[simp] theorem rely_get (f : σ → α) (n : Nat) (s : σ) :
    rely R (get f) Q n s ↔ ∀ s', R n s s' → Q (f s') (n + 1) s' := Iff.rfl

@[simp] theorem rely_act (f : σ → α × σ) (n : Nat) (s : σ) :
    rely R (act f) Q n s ↔ ∀ s', R n s s' → Q (f s').1 (n + 1) (f s').2 := Iff.rfl

@[simp] theorem rely_modify (f : σ → σ) (Q : Unit → Nat → σ → Prop) (n : Nat) (s : σ) :
    rely R (modify f) Q n s ↔ ∀ s', R n s s' → Q () (n + 1) (f s') := Iff.rfl

theorem rely_bind_eq (f : α → Prog σ β) (Q : β → Nat → σ → Prop) : ∀ (m : Prog σ α) (n : Nat) (s : σ),
    rely R (m.bind f) Q n s ↔ rely R m (fun a n' s' => rely R (f a) Q n' s') n s
  | .pure _, _, _ => Iff.rfl
  | .step g k, n, s => by
    simp only [bind, rely]
    exact forall₂_congr fun s' _ => rely_bind_eq f Q (k (g s').1) (n + 1) (g s').2

@[simp] theorem rely_bind (m : Prog σ α) (f : α → Prog σ β) (Q : β → Nat → σ → Prop) (n : Nat) (s : σ) :
    rely R (m >>= f) Q n s ↔ rely R m (fun a n' s' => rely R (f a) Q n' s') n s :=
  rely_bind_eq f Q m n s

@[simp] theorem rely_when (c : Bool) (m : Prog σ Unit) (Q : Unit → Nat → σ → Prop) (n : Nat) (s : σ) :
    rely R (when c m) Q n s ↔ if c then rely R m Q n s else Q () n s := by
  cases c <;> rfl

theorem rely_mono (hQ : ∀ a n s, Q a n s → Q' a n s) : ∀ (m : Prog σ α) (n : Nat) (s : σ),
    rely R m Q n s → rely R m Q' n s
  | .pure a, n, s, h => hQ a n s h
  | .step f k, n, _, h => fun s' hs' => rely_mono hQ (k (f s').1) (n + 1) (f s').2 (h s' hs')

/-- An execution whose interference keeps to `R` ends where `rely` says. -/
theorem rely_sound (i : Nat → σ → σ) : ∀ (m : Prog σ α) (n : Nat) (s : σ), rely R m Q n s →
    Along R i m n s → Q (runWith i m n s).1 (runWith i m n s).2.1 (runWith i m n s).2.2
  | .pure _, _, _, h, _ => h
  | .step f k, n, s, h, ha =>
    rely_sound i (k (f (i n s)).1) (n + 1) (f (i n s)).2 (h _ ha.1) ha.2

theorem along_of_forall {i : Nat → σ → σ} (h : ∀ n s, R n s (i n s)) : ∀ (m : Prog σ α) (n : Nat) (s : σ),
    Along R i m n s
  | .pure _, _, _ => True.intro
  | .step f k, n, s => ⟨h n s, along_of_forall h (k (f (i n s)).1) (n + 1) (f (i n s)).2⟩

end Rely

end Prog

end Steps
