/-
Runs of a deterministic transition function that refuses what cannot happen: the state after a
list of events, the states visited on the way, invariants by induction on the run, the transfer of a
run along a simulation, and the runs of the components of a system whose steps are theirs. Runs that put
something out at each step, and runs that come to an end by spending what they have.
-/
import Mathlib.Data.List.Induction
import Mathlib.Logic.Function.Basic

namespace Runs

variable {σ ε τ : Type*}

/-- The state after the events, `none` as soon as one cannot happen. -/
def run (step : σ → ε → Option σ) : σ → List ε → Option σ
  | s, [] => some s
  | s, e :: es => (step s e).bind fun s' => run step s' es

/-- The states visited, the first one included, up to the event that cannot happen. -/
def trace (step : σ → ε → Option σ) : σ → List ε → List σ
  | s, [] => [s]
  | s, e :: es => s :: match step s e with
    | some s' => trace step s' es
    | none => []

variable {step : σ → ε → Option σ}

@[simp] theorem run_nil (s : σ) : run step s [] = some s := rfl

@[simp] theorem run_cons (s : σ) (e : ε) (es : List ε) :
    run step s (e :: es) = (step s e).bind fun s' => run step s' es := rfl

theorem run_append (es fs : List ε) : ∀ s, run step s (es ++ fs) = (run step s es).bind fun s' => run step s' fs := by
  induction es with
  | nil => intro s; rfl
  | cons e es ih =>
    intro s
    simp only [List.cons_append, run_cons, Option.bind_assoc]
    exact congrArg _ (funext ih)

/-- A run ends with its last event. -/
theorem run_concat {s s' : σ} {es : List ε} {e : ε} :
    run step s (es ++ [e]) = some s' ↔ ∃ m, run step s es = some m ∧ step m e = some s' := by
  simp only [run_append, run_cons, run_nil, Option.bind_eq_some_iff, Option.some.injEq, exists_eq_right]

theorem trace_concat {m s' : σ} {e : ε} : ∀ {es : List ε} {s : σ}, run step s es = some m →
    step m e = some s' → trace step s (es ++ [e]) = trace step s es ++ [s']
  | [], _, h, hs => by
    cases h
    simp [trace, hs]
  | f :: es, s, h, hs => by
    obtain ⟨t, ht, h⟩ := Option.bind_eq_some_iff.1 h
    simp only [List.cons_append, trace, ht]
    exact congrArg _ (trace_concat h hs)

/-- The state a run ends in is one it visits. -/
theorem mem_trace {s' : σ} : ∀ {es : List ε} {s : σ}, run step s es = some s' → s' ∈ trace step s es
  | [], _, h => by cases h; simp [trace]
  | e :: es, s, h => by
    obtain ⟨t, ht, h⟩ := Option.bind_eq_some_iff.1 h
    simp only [trace, ht]
    exact List.mem_cons_of_mem _ (mem_trace h)

/-- What holds at the start and survives every step holds at the end. -/
theorem inv {P : σ → Prop} (hstep : ∀ s e s', P s → step s e = some s' → P s') :
    ∀ {es : List ε} {s s' : σ}, P s → run step s es = some s' → P s'
  | [], _, _, hs, h => by cases h; exact hs
  | e :: es, s, _, hs, h => by
    obtain ⟨t, ht, h⟩ := Option.bind_eq_some_iff.1 h
    exact inv hstep (hstep s e t hs ht) h

/-- An invariant may rest on what is known of each step of the run. -/
theorem inv_along {P : σ → Prop} {b : σ} {es : List ε} (hb : P b)
    (hstep : ∀ es₁ e es₂ s s', es = es₁ ++ e :: es₂ → run step b es₁ = some s → step s e = some s' → P s → P s') :
    ∀ {es₁ es₂ : List ε} {s : σ}, es = es₁ ++ es₂ → run step b es₁ = some s → P s := by
  intro es₁
  induction es₁ using List.reverseRecOn with
  | nil =>
    intro es₂ s _ h
    cases h
    exact hb
  | append_singleton es₁ e ih =>
    intro es₂ s hes h
    obtain ⟨m, hm, hs⟩ := run_concat.1 h
    have hsplit : es = es₁ ++ e :: es₂ := by rw [hes, List.append_assoc, List.singleton_append]
    exact hstep es₁ e es₂ m s hsplit hm hs (ih hsplit hm)

/-- A run, seen through a map that commutes with every step from a state of the invariant. -/
theorem map_run {step' : τ → ε → Option τ} {abs : σ → τ} {P : σ → Prop}
    (hinv : ∀ s e s', P s → step s e = some s' → P s')
    (hsim : ∀ s e, P s → (step s e).map abs = step' (abs s) e) :
    ∀ (es : List ε) {s : σ}, P s → (run step s es).map abs = run step' (abs s) es
  | [], _, _ => rfl
  | e :: es, s, hs => by
    have h := hsim s e hs
    simp only [run_cons]
    cases ht : step s e with
    | none => rw [ht] at h; rw [← h]; rfl
    | some t =>
      rw [ht] at h
      rw [← h]
      exact map_run hinv hsim es (hinv s e t hs ht)

theorem map_trace {step' : τ → ε → Option τ} {abs : σ → τ} {P : σ → Prop}
    (hinv : ∀ s e s', P s → step s e = some s' → P s')
    (hsim : ∀ s e, P s → (step s e).map abs = step' (abs s) e) :
    ∀ (es : List ε) {s : σ}, P s → (trace step s es).map abs = trace step' (abs s) es
  | [], _, _ => rfl
  | e :: es, s, hs => by
    have h := hsim s e hs
    simp only [trace, List.map_cons]
    cases ht : step s e with
    | none => rw [ht] at h; rw [← h]; rfl
    | some t =>
      rw [ht] at h
      rw [← h]
      exact congrArg _ (map_trace hinv hsim es (hinv s e t hs ht))

/-- One step of the component an event names. -/
def stepAt {ι : Type*} [DecidableEq ι] (part : ι → σ → ε → Option σ) (s : ι → σ) (e : ι × ε) : Option (ι → σ) :=
  (part e.1 (s e.1) e.2).map (Function.update s e.1)

/-- In a run of components, each one makes its own run of its own events. -/
theorem run_stepAt {ι : Type*} [DecidableEq ι] {part : ι → σ → ε → Option σ} (i : ι) : ∀ {es : List (ι × ε)} {s s' : ι → σ},
    run (stepAt part) s es = some s' → run (part i) (s i) ((es.filter fun e => e.1 = i).map Prod.snd) = some (s' i)
  | [], _, _, h => by cases h; rfl
  | e :: es, s, s', h => by
    obtain ⟨t, ht, h⟩ := Option.bind_eq_some_iff.1 h
    obtain ⟨p, hp, rfl⟩ := Option.map_eq_some_iff.1 ht
    have hrest := run_stepAt i h
    by_cases he : e.1 = i
    · subst he
      rw [List.filter_cons_of_pos (by simp), List.map_cons, run_cons, hp]
      rw [Function.update_self] at hrest
      exact hrest
    · rw [List.filter_cons_of_neg (by simpa using he)]
      rw [Function.update_of_ne (Ne.symm he)] at hrest
      exact hrest

/-! ## What a run puts out -/

/-- An invariant may speak of the events so far. -/
theorem inv_history {P : List ε → σ → Prop} {b : σ} (hb : P [] b)
    (hstep : ∀ es s e s', run step b es = some s → P es s → step s e = some s' → P (es ++ [e]) s') :
    ∀ {es : List ε} {s : σ}, run step b es = some s → P es s := by
  intro es
  induction es using List.reverseRecOn with
  | nil =>
    intro s h
    cases h
    exact hb
  | append_singleton es e ih =>
    intro s h
    obtain ⟨m, hm, hs⟩ := run_concat.1 h
    exact hstep es m e s hm (ih hm) hs

/-- What the steps put out, one after the other, up to the event that cannot happen. -/
def collect (step : σ → ε → Option σ) (out : σ → ε → List τ) : σ → List ε → List τ
  | _, [] => []
  | s, e :: es => match step s e with
    | some s' => out s e ++ collect step out s' es
    | none => []

theorem collect_concat {out : σ → ε → List τ} {m s' : σ} {e : ε} : ∀ {es : List ε} {s : σ}, run step s es = some m →
    step m e = some s' → collect step out s (es ++ [e]) = collect step out s es ++ out m e
  | [], _, h, hs => by
    cases h
    simp [collect, hs]
  | f :: es, s, h, hs => by
    obtain ⟨t, ht, h⟩ := Option.bind_eq_some_iff.1 h
    simp only [List.cons_append, collect, ht, List.append_assoc]
    exact congrArg _ (collect_concat h hs)

/-- What was put out was put out by one of the steps. -/
theorem mem_collect {out : σ → ε → List τ} {y : τ} : ∀ {es : List ε} {s : σ}, y ∈ collect step out s es →
    ∃ e ∈ es, ∃ m, y ∈ out m e
  | [], _, h => absurd h List.not_mem_nil
  | e :: es, s, h => by
    unfold collect at h
    split at h
    · rcases List.mem_append.1 h with h | h
      · exact ⟨e, List.mem_cons_self, s, h⟩
      · obtain ⟨f, hf, hy⟩ := mem_collect h
        exact ⟨f, List.mem_cons_of_mem _ hf, hy⟩
    · cases h

/-! ## Runs that spend -/

/-- A number that no step adds to, and that steps of one kind take from while there is any of it left: as many
of these steps as it says, among any others, use it up. -/
theorem spent {P : σ → Prop} {Φ : σ → ℕ} {A : ε → Prop} {B : ε → Bool}
    (hinv : ∀ s e s', P s → step s e = some s' → P s')
    (hstep : ∀ s e, P s → A e →
      ∃ s', step s e = some s' ∧ Φ s' ≤ Φ s ∧ (B e = true → 0 < Φ s → Φ s' < Φ s)) :
    ∀ {es : List ε} {s : σ}, P s → (∀ e ∈ es, A e) →
      ∃ s', run step s es = some s' ∧ P s' ∧ Φ s' ≤ Φ s - es.countP B
  | [], s, hs, _ => ⟨s, rfl, hs, Nat.le_refl _⟩
  | e :: es, s, hs, hes => by
    obtain ⟨t, ht, hle, hlt⟩ := hstep s e hs (hes e List.mem_cons_self)
    obtain ⟨s', hs', hP, hΦ⟩ := spent hinv hstep (hinv s e t hs ht) fun e' he' => hes e' (List.mem_cons_of_mem _ he')
    refine ⟨s', by rw [run_cons, ht]; exact hs', hP, Nat.le_trans hΦ ?_⟩
    rw [List.countP_cons]
    by_cases hB : B e = true
    · rw [if_pos hB]
      rcases Nat.eq_zero_or_pos (Φ s) with hzero | hpos
      · omega
      · have hless := hlt hB hpos
        omega
    · rw [if_neg hB]
      omega

end Runs
