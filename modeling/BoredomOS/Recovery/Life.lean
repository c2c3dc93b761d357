/-
The life of a board on its counts alone: the events of `Board` as steps on a block that is either
lost or a `Counts`, and the simulation of the one by the other. The statements about runs of boots
are proven here and read back on the registers.
-/
import BoredomOS.Recovery.Counts

namespace BoredomOS.Recovery

open Steps

/-- What a running boot needs to know of itself. -/
structure LifeRun where
  reduced : Bool
  elapsed : Nat := 0
  stabilityCleared : Bool := false
  retryAttempted : Bool := false
  resetting : Option DeliberateReset := none
  deriving DecidableEq, Repr

/-- The board without its registers; `counts` is `none` when the block is lost. -/
structure Life where
  counts : Option Counts
  status : ResetStatus := {}
  running : Option LifeRun := none
  clock : Nat := 0
  boots : List BootRecord := []
  deriving DecidableEq, Repr

namespace Life

def found (l : Life) : Counts := l.counts.getD ⟨0, 0, 0, .none⟩

def reason (l : Life) : ResetReason :=
  if l.counts.isSome then (decodeAndClearResetReason l.status).1 else .backupStateInvalid

def boot (l : Life) : Life where
  counts := some (l.found.boot l.reason)
  status := (decodeAndClearResetReason l.status).2
  running := some { reduced := l.found.reduced l.reason }
  clock := l.clock
  boots := ⟨l.clock, l.found.reduced l.reason, l.found.cumulative + 1, l.found.marker = .retry⟩ :: l.boots

def clearDue (r : LifeRun) : Prop := r.stabilityCleared = false ∧ stabilityWindowMs ≤ r.elapsed % 2 ^ 32

def retryDue (r : LifeRun) : Prop :=
  r.reduced = true ∧ r.retryAttempted = false ∧ retryIntervalMs ≤ r.elapsed % 2 ^ 32

instance (r : LifeRun) : Decidable (clearDue r) := by unfold clearDue; infer_instance
instance (r : LifeRun) : Decidable (retryDue r) := by unfold retryDue; infer_instance

/-- The counts after a pass. -/
def passCounts (r : LifeRun) (c : Counts) : Counts where
  consecutive := if clearDue r then 0 else c.consecutive
  cumulative := c.cumulative
  snapshot := c.snapshot
  marker := if retryDue r then .retry else c.marker

def passRun (r : LifeRun) : LifeRun where
  reduced := r.reduced
  elapsed := r.elapsed
  stabilityCleared := r.stabilityCleared || clearDue r
  retryAttempted := r.retryAttempted || retryDue r
  resetting := if retryDue r then some .retry else r.resetting

def step (l : Life) : Ev → Option Life
  | .boot => if l.running.isSome then none else some l.boot
  | .milestone _ => l.running.bind fun r => if r.resetting.isSome then none else some l
  | .wait ms => l.running.map fun r =>
    { l with running := some { r with elapsed := r.elapsed + ms }, clock := l.clock + ms }
  | .pass => l.running.bind fun r =>
    if r.resetting.isSome then none
    else some { l with counts := l.counts.map (passCounts r), running := some (passRun r) }
  | .reboot => l.running.bind fun r =>
    if r.resetting.isSome then none
    else some { l with
      counts := some ⟨0, 0, 0, .commanded⟩, running := some { r with resetting := some .commanded } }
  | .nvicReset => l.running.bind fun r =>
    if r.resetting.isSome then some { l with status := { l.status with swrf := true }, running := none }
    else none
  | .fault _ _ => l.running.map fun _ =>
    { l with status := { l.status with swrf := true }, running := none }
  | .reset cause => l.running.map fun _ => { l with status := cause.raise l.status, running := none }
  | .lose regs =>
    if l.running.isSome then none else if isValid regs then none else some { l with counts := none }

abbrev run : Life → List Ev → Option Life := Runs.run step

/-- A running boot has a valid block. -/
def Live (l : Life) : Prop := ∀ r, l.running = some r → ∃ c, l.counts = some c

end Life

/-! ## The simulation -/

def Running.abs (r : Running) : LifeRun :=
  ⟨r.info.reducedConfiguration, r.elapsed, r.stabilityCleared, r.retryAttempted, r.resetting⟩

def Board.abs (b : Board) : Life where
  counts := if isValid b.regs then some (counts b.regs) else none
  status := b.status
  running := b.running.map Running.abs
  clock := b.clock
  boots := b.boots

/-- A running boot has a valid block. -/
def Board.Live (b : Board) : Prop := ∀ r, b.running = some r → isValid b.regs = true

theorem Board.live_off {b : Board} (h : b.running = none) : b.Live := by
  intro r hr; rw [h] at hr; cases hr

theorem abs_found (b : Board) : b.abs.found = foundCounts b.regs := by
  cases hv : isValid b.regs <;> simp [Life.found, Board.abs, foundCounts, hv]

theorem abs_reason (b : Board) : b.abs.reason = foundReason b.regs b.status := by
  cases hv : isValid b.regs <;> simp [Life.reason, Board.abs, foundReason, hv]

theorem storedMarker_found (r : Regs) : storedMarker r = (foundCounts r).marker := by
  cases hv : isValid r
  · simp [storedMarker, foundCounts, hv]
  · simp [storedMarker_eq hv, foundCounts, hv]

theorem abs_running (b : Board) {r : Running} (h : b.running = some r) : b.abs.running = some r.abs := by
  simp [Board.abs, h]

theorem abs_counts {b : Board} (h : isValid b.regs = true) : b.abs.counts = some (counts b.regs) := by
  simp [Board.abs, h]

/-- The end of a pass acts on the counts as `passCounts`. -/
theorem endOfPass_spec (run : Running) {r : Regs} (hr : isValid r = true) :
    isValid ((endOfPass run).run r).2 = true ∧
      counts ((endOfPass run).run r).2 = Life.passCounts run.abs (counts r) ∧
      ((endOfPass run).run r).1.abs = Life.passRun run.abs := by
  have hclear : (!run.stabilityCleared && decide (stabilityWindowMs ≤ run.elapsed % 2 ^ 32)) =
      decide (Life.clearDue run.abs) := by
    rw [Bool.eq_iff_iff, decide_eq_true_eq]; simp [Life.clearDue, Running.abs]
  have hretry : (run.info.reducedConfiguration && !run.retryAttempted &&
      decide (retryIntervalMs ≤ run.elapsed % 2 ^ 32)) = decide (Life.retryDue run.abs) := by
    rw [Bool.eq_iff_iff, decide_eq_true_eq]; simp [Life.retryDue, Running.abs, and_assoc]
  simp only [endOfPass, Prog.run_bind, Prog.run_pure]
  rw [hclear, hretry]
  obtain ⟨v1, c1⟩ := ((moves_setConsecutiveCount 0).when (Life.clearDue run.abs)).after hr
  obtain ⟨v2, c2⟩ := ((moves_setDeliberateReset (Or.inr (Or.inr rfl))).when (Life.retryDue run.abs)).after v1
  refine ⟨v2, ?_, ?_⟩
  · rw [c2, c1]
    by_cases h1 : Life.clearDue run.abs <;> by_cases h2 : Life.retryDue run.abs <;>
      simp [h1, h2, Life.passCounts]
  · unfold Life.passRun
    by_cases h : Life.retryDue run.abs <;> simp only [h, decide_true, decide_false, if_true, if_false] <;> rfl

theorem rebootCommand_spec (r : Regs) : isValid (rebootCommand.run r).2 = true ∧
    counts (rebootCommand.run r).2 = ⟨0, 0, 0, .commanded⟩ := by
  simp only [rebootCommand, Prog.run_bind]
  obtain ⟨v, c⟩ := (moves_setDeliberateReset (Or.inr (Or.inl rfl))).after (isValid_reinitialise r)
  exact ⟨v, by rw [c, counts_reinitialise]⟩

/-- A running boot keeps its block valid. -/
theorem Board.live_step (b : Board) (e : Ev) (b' : Board) (hb : b.Live) (h : b.step e = some b') : b'.Live := by
  cases hrun : b.running with
  | none =>
    cases e with
    | boot =>
      simp only [Board.step, hrun, Option.some.injEq] at h
      subst h
      exact fun r _ => (setup_spec b.status b.regs).1
    | lose regs =>
      simp only [Board.step, hrun] at h
      split at h
      · cases h
      · cases h; exact Board.live_off rfl
    | _ => simp [Board.step, hrun] at h
  | some r =>
    have hv : isValid b.regs = true := hb r hrun
    cases e with
    | milestone phase =>
      simp only [Board.step, hrun] at h
      split at h
      · cases h; exact fun _ _ => ((moves_setPhase phase).after hv).1
      · cases h
    | wait ms =>
      simp only [Board.step, hrun, Option.some.injEq] at h
      subst h
      exact fun _ _ => hv
    | pass =>
      simp only [Board.step, hrun] at h
      split at h
      · cases h
      · cases h; exact fun _ _ => (endOfPass_spec r hv).1
    | reboot =>
      simp only [Board.step, hrun] at h
      split at h
      · cases h
      · cases h; exact fun _ _ => (rebootCommand_spec b.regs).1
    | nvicReset =>
      simp only [Board.step, hrun] at h
      split at h
      · cases h; exact Board.live_off rfl
      · cases h
    | fault phase name =>
      simp only [Board.step, hrun, Option.some.injEq] at h
      subst h; exact Board.live_off rfl
    | reset cause =>
      simp only [Board.step, hrun, Option.some.injEq] at h
      subst h; exact Board.live_off rfl
    | boot => simp [Board.step, hrun] at h
    | lose regs => simp [Board.step, hrun] at h

/-- Every event of the board is the same event of its life. -/
theorem Board.abs_step (b : Board) (e : Ev) (hb : b.Live) : (b.step e).map Board.abs = b.abs.step e := by
  cases hrun : b.running with
  | none =>
    have habs : b.abs.running = none := by simp [Board.abs, hrun]
    cases e with
    | boot =>
      obtain ⟨v, hred, hcum, hc⟩ := setup_spec b.status b.regs
      simp only [Board.step, hrun, Life.step, habs, Option.map_some, Option.isSome_none]
      simp only [Board.abs, v, if_true, hc, Life.boot, Bool.false_eq_true, if_false, Option.some.injEq]
      change Life.mk _ _ _ _ _ = Life.mk (some (b.abs.found.boot b.abs.reason)) _
        (some { reduced := decide (b.abs.found.reduced b.abs.reason) }) _
        (⟨_, decide (b.abs.found.reduced b.abs.reason), b.abs.found.cumulative + 1,
          decide (b.abs.found.marker = .retry)⟩ :: _)
      rw [abs_found, abs_reason]
      simp [Running.abs, hred, hcum, storedMarker_found]
    | lose regs =>
      cases hv : isValid regs <;> simp [Board.step, Life.step, hrun, hv, Board.abs]
    | _ => simp [Board.step, Life.step, hrun, habs]
  | some r =>
    have hv : isValid b.regs = true := hb r hrun
    have habs : b.abs.running = some r.abs := abs_running b hrun
    have hc : b.abs.counts = some (counts b.regs) := abs_counts hv
    cases e with
    | milestone phase =>
      obtain ⟨v, c⟩ := (moves_setPhase phase).after hv
      obtain ⟨info, el, st, re, rs⟩ := r
      cases rs <;> simp [Board.step, Life.step, hrun, Board.abs, v, c, hv, Running.abs]
    | wait ms => simp [Board.step, Life.step, hrun, Board.abs, Running.abs]
    | pass =>
      obtain ⟨v, c, ha⟩ := endOfPass_spec r hv
      cases hs : r.resetting with
      | none =>
        simp [Board.step, Life.step, hrun, Board.abs, hs, v, c, hv, ha, show r.abs.resetting = none from hs]
      | some d => simp [Board.step, Life.step, hrun, habs, hs, show r.abs.resetting = some d from hs]
    | reboot =>
      obtain ⟨v, c⟩ := rebootCommand_spec b.regs
      cases hs : r.resetting with
      | none => simp [Board.step, Life.step, hrun, Board.abs, hs, v, c, Running.abs]
      | some d => simp [Board.step, Life.step, hrun, habs, hs, show r.abs.resetting = some d from hs]
    | nvicReset =>
      obtain ⟨info, el, st, re, rs⟩ := r
      cases rs <;> simp [Board.step, Life.step, hrun, Board.abs, Running.abs]
    | fault phase name =>
      obtain ⟨v, c⟩ := (moves_recordFault phase name).after hv
      simp [Board.step, Life.step, hrun, Board.abs, v, c, hv]
    | reset cause => simp [Board.step, Life.step, hrun, Board.abs]
    | boot => simp [Board.step, Life.step, hrun, habs]
    | lose regs => simp [Board.step, Life.step, hrun, habs]

/-- A run of the board is the same run of its life. -/
theorem Board.abs_run {b : Board} (hb : b.Live) (es : List Ev) : (b.run es).map Board.abs = b.abs.run es :=
  Runs.map_run Board.live_step Board.abs_step es hb

theorem Board.abs_run_some {b b' : Board} (hb : b.Live) {es : List Ev} (h : b.run es = some b') :
    b.abs.run es = some b'.abs :=
  (Board.abs_run hb es).symm.trans (congrArg (Option.map Board.abs) h)

theorem Board.abs_step_some {b b' : Board} (hb : b.Live) {e : Ev} (h : b.step e = some b') :
    b.abs.step e = some b'.abs :=
  (Board.abs_step b e hb).symm.trans (congrArg (Option.map Board.abs) h)

/-- What a life does from a stored block, a board does on its registers. -/
theorem Board.run_of_abs {regs : Regs} {status : ResetStatus} {es : List Ev} {l : Life} (hv : isValid regs = true)
    (h : Life.run { counts := some (counts regs), status } es = some l) :
    ∃ b, (Board.off regs status).run es = some b ∧ b.abs = l := by
  have habs : (Board.off regs status).abs = { counts := some (counts regs), status } := by simp [Board.abs, Board.off, hv]
  rw [← habs, ← Board.abs_run (Board.live_off rfl)] at h
  exact Option.map_eq_some_iff.1 h

theorem Board.live_run {b b' : Board} (hb : b.Live) {es : List Ev} (h : b.run es = some b') : b'.Live :=
  Runs.inv Board.live_step hb h

end BoredomOS.Recovery
