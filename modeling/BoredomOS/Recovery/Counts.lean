/-
What the fault counters are for, on three counts and a marker: the boot decision as a function of
them, and the simulation by which every register program of the firmware acts on a valid block as a
function of these counts alone.
-/
import BoredomOS.Recovery.Boot

namespace BoredomOS.Recovery

open Steps

/-- The counters and the deliberate-reset marker, freed of the bytes that hold them. -/
structure Counts where
  consecutive : UInt8
  cumulative : UInt8
  snapshot : UInt8
  marker : DeliberateReset
  deriving DecidableEq, Repr

def counts (regs : Regs) : Counts :=
  ⟨field regs 6, field regs 7, field regs 8, .ofByte (field regs 11)⟩

namespace Counts

/-- A reset that counts as a failed boot. -/
def advances (reason : ResetReason) (c : Counts) : Prop :=
  (reason = .watchdog ∨ reason = .software) ∧ c.marker = .none

instance (reason : ResetReason) (c : Counts) : Decidable (advances reason c) := by
  unfold advances; infer_instance

def nextConsecutive (reason : ResetReason) (c : Counts) : UInt8 :=
  if advances reason c then c.consecutive + 1 else c.consecutive

def overThreshold (reason : ResetReason) (c : Counts) : Prop :=
  3 ≤ nextConsecutive reason c ∨ 10 ≤ c.cumulative + 1

instance (reason : ResetReason) (c : Counts) : Decidable (overThreshold reason c) := by
  unfold overThreshold; infer_instance

/-- The retry pardons the reset it made itself. -/
def pardoned (c : Counts) : Prop :=
  c.marker = .retry ∧ (c.cumulative + 1).toNat ≤ c.snapshot.toNat + 1

instance (c : Counts) : Decidable (pardoned c) := by unfold pardoned; infer_instance

def reduced (reason : ResetReason) (c : Counts) : Prop := overThreshold reason c ∧ ¬ pardoned c

instance (reason : ResetReason) (c : Counts) : Decidable (reduced reason c) := by
  unfold reduced; infer_instance

/-- The counts a boot leaves. -/
def boot (reason : ResetReason) (c : Counts) : Counts where
  consecutive := nextConsecutive reason c
  cumulative := c.cumulative + 1
  snapshot := if reduced reason c then c.cumulative + 1 else c.snapshot
  marker := .none

end Counts

/-! ## Register programs that act on the counts -/

/-- On a valid block the program acts on the counts as `f`, and the block stays valid. -/
def Acts {α : Type} (m : Prog Regs α) (f : Counts → α → Counts → Prop) : Prop :=
  ∀ r, isValid r = true → isValid (m.run r).2 = true ∧ f (counts r) (m.run r).1 (counts (m.run r).2)

/-- `Acts`, for a program with no result and a function. -/
def Moves (m : Prog Regs Unit) (f : Counts → Counts) : Prop := Acts m fun c _ c' => c' = f c

theorem Moves.after {m : Prog Regs Unit} {f : Counts → Counts} (h : Moves m f) {r : Regs}
    (hr : isValid r = true) : isValid (m.run r).2 = true ∧ counts (m.run r).2 = f (counts r) :=
  h r hr

theorem Moves.when {m : Prog Regs Unit} {f : Counts → Counts} (h : Moves m f) (p : Prop) [Decidable p] :
    Moves (Prog.when p m) fun c => if p then f c else c := by
  intro r hr
  by_cases hp : p
  · simpa [hp] using h r hr
  · simpa [hp] using hr

theorem counts_ext {r r' : Regs} {c : Counts} (h : counts r = c) (hf : ∀ o ∈ [6, 7, 8, 11], field r' o = field r o) :
    counts r' = c := by
  subst h
  simp only [List.forall_mem_cons, List.not_mem_nil, IsEmpty.forall_iff, implies_true, and_true] at hf
  obtain ⟨h6, h7, h8, h11⟩ := hf
  simp [counts, h6, h7, h8, h11]

theorem moves_writeByte (off : Nat) (v : UInt8) : Moves (writeByte off v) fun c =>
    ⟨if off = 6 then v else c.consecutive, if off = 7 then v else c.cumulative,
      if off = 8 then v else c.snapshot, if off = 11 then .ofByte v else c.marker⟩ := by
  intro r hr
  refine ⟨isValid_writeByte off v r, ?_⟩
  have h := fun o (ho : 6 ≤ o) => field_writeByte hr off v ho
  simp only [counts]
  rw [h 6 (by omega), h 7 (by omega), h 8 (by omega), h 11 (by omega), apply_ite DeliberateReset.ofByte]
  simp only [eq_comm]

theorem moves_setConsecutiveCount (v : UInt8) :
    Moves (setConsecutiveCount v) fun c => { c with consecutive := v } :=
  moves_writeByte offsetConsecutiveCount v

theorem moves_setCumulativeCount (v : UInt8) :
    Moves (setCumulativeCount v) fun c => { c with cumulative := v } :=
  moves_writeByte offsetCumulativeCount v

theorem moves_setCumulativeSnapshot (v : UInt8) :
    Moves (setCumulativeSnapshot v) fun c => { c with snapshot := v } :=
  moves_writeByte offsetCumulativeSnapshot v

theorem moves_setReason (reason : ResetReason) : Moves (setReason reason) id :=
  moves_writeByte offsetReason reason.toByte

theorem moves_setPhase (phase : BootPhase) : Moves (setPhase phase) id :=
  moves_writeByte offsetPhase phase.toByte

/-- The marker read back from its byte, for the three values the firmware stores. -/
theorem ofByte_toByte {d : DeliberateReset} (h : d = .none ∨ d = .commanded ∨ d = .retry) :
    DeliberateReset.ofByte d.toByte = d := by
  rcases h with rfl | rfl | rfl <;> rfl

theorem moves_setDeliberateReset {d : DeliberateReset} (h : d = .none ∨ d = .commanded ∨ d = .retry) :
    Moves (setDeliberateReset d) fun c => { c with marker := d } := by
  simpa [offsetDeliberate, ofByte_toByte h, setDeliberateReset] using moves_writeByte offsetDeliberate d.toByte

theorem moves_recordFault (p : BootPhase) (name : Option (Nat → UInt8)) : Moves (recordFault p name) id := by
  intro r hr
  refine ⟨isValid_recordFault p name r, counts_ext rfl fun o ho => ?_⟩
  refine field_recordFault hr p name ?_ ?_ ?_ <;> (simp at ho; omega)

theorem counts_reinitialise (r : Regs) : counts (reinitialise.run r).2 = ⟨0, 0, 0, .none⟩ := by
  simp only [counts, field_reinitialise r (show 6 ≤ 6 by omega) (by omega),
    field_reinitialise r (show 6 ≤ 7 by omega) (by omega),
    field_reinitialise r (show 6 ≤ 8 by omega) (by omega),
    field_reinitialise r (show 6 ≤ 11 by omega) (by omega)]
  rfl

theorem getConsecutiveCount_eq (r : Regs) : getConsecutiveCount r = (counts r).consecutive := rfl

theorem getCumulativeCount_eq (r : Regs) : getCumulativeCount r = (counts r).cumulative := rfl

theorem getCumulativeSnapshot_eq (r : Regs) : getCumulativeSnapshot r = (counts r).snapshot := rfl

theorem storedMarker_eq {r : Regs} (hr : isValid r = true) : storedMarker r = (counts r).marker := by
  simp [storedMarker, counts, field_of_valid hr, hr, offsetDeliberate]

theorem acts_consumeDeliberateReset :
    Acts consumeDeliberateReset fun c d c' => d = c.marker ∧ c' = { c with marker := .none } := by
  intro r hr
  have hm : storedMarker r = (counts r).marker := storedMarker_eq hr
  simp only [consumeDeliberateReset, Prog.run_bind, Prog.run_get, Prog.run_pure, hm]
  obtain ⟨hv, hc⟩ := ((moves_setDeliberateReset (Or.inl rfl)).when ((counts r).marker ≠ .none)).after hr
  refine ⟨hv, trivial, hc.trans ?_⟩
  by_cases hd : (counts r).marker = .none
  · rw [if_neg (not_not.2 hd), ← hd]
  · rw [if_pos hd]

/-! ## The boot decision -/

theorem reduced_decide (above pardon : Bool) :
    (if (!above) = true then false else if pardon = true then false else true) = (above && !pardon) := by
  cases above <;> cases pardon <;> rfl

/-- The firmware's decision is the decision on the counts. -/
theorem acts_update (reason : ResetReason) :
    Acts (updateCountersAndDecideConfiguration reason) fun c reduced c' =>
      reduced = decide (c.reduced reason) ∧ c' = c.boot reason := by
  intro r hr
  obtain ⟨v1, e1, c1⟩ := acts_consumeDeliberateReset r hr
  simp only [updateCountersAndDecideConfiguration, Prog.run_bind, Prog.run_get, Prog.run_pure]
  generalize (consumeDeliberateReset.run r).2 = r1 at v1 c1 ⊢
  have hadv : ((decide (reason = .watchdog) || decide (reason = .software)) &&
      decide ((counts r).marker = .none)) = decide ((counts r).advances reason) := by
    by_cases h1 : reason = .watchdog <;> by_cases h2 : reason = .software <;> simp [Counts.advances, h1, h2]
  have hnext : (if decide ((counts r).advances reason) = true then (counts r).consecutive + 1
      else (counts r).consecutive) = (counts r).nextConsecutive reason := by
    simp [Counts.nextConsecutive]
  rw [e1, hadv]
  simp only [getConsecutiveCount_eq, getCumulativeCount_eq, getCumulativeSnapshot_eq,
    show (counts r1).consecutive = (counts r).consecutive by rw [c1],
    show (counts r1).cumulative = (counts r).cumulative by rw [c1], hnext]
  -- both counts are stored
  obtain ⟨v2, c2⟩ := ((moves_setConsecutiveCount ((counts r).nextConsecutive reason)).when
    ((counts r).advances reason)).after v1
  generalize ((Prog.when (decide ((counts r).advances reason))
    (setConsecutiveCount ((counts r).nextConsecutive reason))).run r1).2 = r2 at v2 c2 ⊢
  obtain ⟨v3, c3⟩ := (moves_setCumulativeCount ((counts r).cumulative + 1)).after v2
  generalize ((setCumulativeCount ((counts r).cumulative + 1)).run r2).2 = r3 at v3 c3 ⊢
  have hc3 : counts r3 = ⟨(counts r).nextConsecutive reason, (counts r).cumulative + 1,
      (counts r).snapshot, .none⟩ := by
    rw [c3, c2, c1]
    by_cases ha : (counts r).advances reason <;> simp [ha, Counts.nextConsecutive]
  -- the decision, and the snapshot of a reduced one
  have hred : ((decide (consecutiveThreshold ≤ (counts r).nextConsecutive reason) ||
        decide (cumulativeThreshold ≤ (counts r).cumulative + 1)) &&
      !(decide ((counts r).marker = .retry) &&
        decide (((counts r).cumulative + 1).toNat ≤ (counts r).snapshot.toNat + 1))) =
      decide ((counts r).reduced reason) := by
    rw [Bool.eq_iff_iff]
    simp only [Bool.and_eq_true, Bool.or_eq_true, Bool.not_eq_true', Bool.and_eq_false_iff,
      decide_eq_true_eq, decide_eq_false_iff_not]
    simp only [Counts.reduced, Counts.overThreshold, Counts.pardoned, consecutiveThreshold, cumulativeThreshold]
    tauto
  rw [show (counts r3).snapshot = (counts r).snapshot by rw [hc3], reduced_decide, hred]
  obtain ⟨v4, c4⟩ := ((moves_setCumulativeSnapshot ((counts r).cumulative + 1)).when
    ((counts r).reduced reason)).after v3
  refine ⟨v4, rfl, ?_⟩
  rw [c4, hc3]
  by_cases hd : (counts r).reduced reason <;> simp [hd, Counts.boot]

/-- The counts `setup()` decides on: those stored, or zeros when it found no valid block. -/
def foundCounts (regs : Regs) : Counts := if isValid regs then counts regs else ⟨0, 0, 0, .none⟩

/-- The reason `setup()` decides on. -/
def foundReason (regs : Regs) (status : ResetStatus) : ResetReason :=
  if isValid regs then (decodeAndClearResetReason status).1 else .backupStateInvalid

/-- `setup()` on any block whatever: afterwards the block is valid and holds the counts of the
decision it reports. -/
theorem setup_spec (status : ResetStatus) (r : Regs) :
    isValid ((setup status).run r).2 = true ∧
      ((setup status).run r).1.reducedConfiguration =
        decide ((foundCounts r).reduced (foundReason r status)) ∧
      ((setup status).run r).1.bootCumulativeCount = (foundCounts r).cumulative + 1 ∧
      counts ((setup status).run r).2 = (foundCounts r).boot (foundReason r status) := by
  simp only [setup, Prog.run_bind, Prog.run_get, Prog.run_pure]
  -- after the repair, the block is valid and holds the counts found
  have hfound : isValid ((Prog.when (!isValid r) reinitialise).run r).2 = true ∧
      counts ((Prog.when (!isValid r) reinitialise).run r).2 = foundCounts r := by
    cases hv : isValid r
    · simp [foundCounts, hv, isValid_reinitialise, counts_reinitialise]
    · simp [foundCounts, hv]
  have hreason : (if (!isValid r) = true then ResetReason.backupStateInvalid
      else (decodeAndClearResetReason status).1) = foundReason r status := by
    cases hv : isValid r <;> simp [foundReason, hv]
  erw [hreason]
  generalize hr1 : ((Prog.when (!isValid r) reinitialise).run r).2 = r1 at hfound ⊢
  obtain ⟨v2, c2⟩ := (moves_setReason (foundReason r status)).after hfound.1
  rw [hfound.2] at c2
  obtain ⟨v3, e3, c3⟩ := acts_update (foundReason r status) _ v2
  rw [c2] at e3 c3
  obtain ⟨v4, c4⟩ := (moves_setPhase .start).after v3
  refine ⟨v4, e3, ?_, by rw [c4, c3]; rfl⟩
  rw [getCumulativeCount_eq, c3]
  rfl

/-- A block cleared by the ground, holding the cumulative count `n`. -/
def storedCumulative (n : UInt8) : Regs := ((setCumulativeCount n).run (reinitialise.run fun _ => 0).2).2

theorem storedCumulative_spec (n : UInt8) :
    isValid (storedCumulative n) = true ∧ counts (storedCumulative n) = ⟨0, n, 0, .none⟩ := by
  obtain ⟨v, c⟩ := (moves_setCumulativeCount n).after (isValid_reinitialise fun _ => 0)
  exact ⟨v, by rw [storedCumulative, c, counts_reinitialise]⟩

end BoredomOS.Recovery
