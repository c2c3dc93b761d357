/-
Which resets count as failed boots. The decision goes by the hardware's reason and by a marker that
is stored before the reset it announces: another reset that comes first is taken for that one. So a
fault counts exactly if it finds no marker, and a marker is there from its store to the
`NVIC_SystemReset()` behind it.
-/
import BoredomOS.Recovery.Ends

namespace BoredomOS.Recovery

open Steps Steps.Prog

/-! ## Faults and their counting -/

def Cause.isWatchdog : Cause → Bool
  | .watchdog | .independentWatchdog => true
  | _ => false

/-- A watchdog reset, a fault hook, or a software reset that is not the firmware's own. -/
def Ending.isFault : Ending → Bool
  | .hardware cause => cause.isWatchdog
  | .software => true
  | .hook _ _ => true
  | .hookCut _ _ _ cause => cause.isWatchdog

def Moment.isFault : Moment → Bool
  | .ended _ how => how.isFault
  | _ => false

/-- The boot from `b` to `b'` advances the consecutive count by one if a fault ended the boot before,
and leaves it alone otherwise. -/
def Classified (m : Moment) (b b' : Board) : Prop :=
  (getConsecutiveCount b'.regs).toNat = (getConsecutiveCount b.regs).toNat + if m.isFault then 1 else 0

instance (m : Moment) (b b' : Board) : Decidable (Classified m b b') := by unfold Classified; infer_instance

/-! ## The marker of a running boot -/

/-- A running boot has a valid block and no reset flag, and its marker is that of the reset it is
about to make. -/
def Marked (b : Board) : Prop :=
  ∀ r, b.running = some r → isValid b.regs = true ∧ b.status = { cwsf := true } ∧
    (counts b.regs).marker = r.resetting.getD .none ∧ r.resetting ≠ some .none

theorem marked_off {b : Board} (h : b.running = none) : Marked b := by
  intro r hr
  rw [h] at hr
  cases hr

/-- A write of the running firmware. The marker is that of the reset under way, if there is one. -/
theorem marked_write {b b' : Board} (hb : Marked b) {w : Write} (h : b.step w.ev = some b') : Marked b' := by
  cases hrun : b.running with
  | none => cases w <;> simp [Board.step, Write.ev, hrun] at h
  | some r =>
    obtain ⟨hv, hstatus, hmarker, hne⟩ := hb r hrun
    intro r' hr'
    cases w with
    | milestone phase =>
      simp only [Board.step, Write.ev, hrun] at h
      split at h
      · cases h
        obtain ⟨v, c⟩ := (moves_setPhase phase).after hv
        cases hr'
        exact ⟨v, hstatus, by rw [c]; exact hmarker, hne⟩
      · cases h
    | pass =>
      simp only [Board.step, Write.ev, hrun] at h
      split at h
      · cases h
      · rename_i hnone
        cases h
        obtain ⟨v, c, habs⟩ := endOfPass_spec r hv
        rw [Option.not_isSome_iff_eq_none] at hnone
        cases hr'
        have hresetting : ((endOfPass r).run b.regs).1.resetting = (Life.passRun r.abs).resetting :=
          congrArg LifeRun.resetting habs
        have hpass : r.abs.resetting = none := hnone
        rw [hnone] at hmarker
        refine ⟨v, hstatus, ?_, ?_⟩
        · rw [c, hresetting]
          by_cases hdue : Life.retryDue r.abs
          · simp [Life.passCounts, Life.passRun, hdue]
          · simpa [Life.passCounts, Life.passRun, hdue, hpass] using hmarker
        · rw [hresetting]
          by_cases hdue : Life.retryDue r.abs <;> simp [Life.passRun, hdue, hpass]
    | reboot =>
      simp only [Board.step, Write.ev, hrun] at h
      split at h
      · cases h
      · cases h
        obtain ⟨v, c⟩ := rebootCommand_spec b.regs
        cases hr'
        exact ⟨v, hstatus, by rw [c]; rfl, by simp⟩

theorem marked_next (b : Board) (m : Moment) (b' : Board) (hb : Marked b) (h : b.next m = some b') : Marked b' := by
  cases m with
  | boot =>
    obtain ⟨-, hregs, hstatus, hrunning⟩ := next_boot h
    obtain ⟨hv, -, -, hcounts⟩ := setup_spec b.status b.regs
    intro r hr
    rw [hrunning] at hr
    cases hr
    refine ⟨by rw [hregs]; exact hv, hstatus, ?_, by simp⟩
    rw [hregs, hcounts]
    rfl
  | write w => exact marked_write hb h
  | wait ms =>
    change b.step (.wait ms) = some b' at h
    cases hrun : b.running with
    | none => simp [Board.step, hrun] at h
    | some r =>
      simp only [Board.step, hrun, Option.some.injEq] at h
      subst h
      intro r' hr'
      cases hr'
      exact hb r hrun
  | nvicReset =>
    change b.step .nvicReset = some b' at h
    simp only [Board.step] at h
    split at h
    · cases h
      exact marked_off rfl
    · cases h
  | ended spot how =>
    obtain ⟨r, -, -, rfl⟩ := next_ended h
    exact marked_off rfl

theorem marked_run {regs : Regs} {status : ResetStatus} {es : List Moment} {b : Board}
    (h : (Board.off regs status).runAt es = some b) : Marked b :=
  Runs.inv marked_next (marked_off rfl) h

/-! ## The decision that follows -/

/-- The reason the next boot reads for an end that is not the firmware's own. -/
theorem decode_ended (how : Ending) :
    ((decodeAndClearResetReason (how.raise { cwsf := true })).1 = .watchdog ∨
      (decodeAndClearResetReason (how.raise { cwsf := true })).1 = .software) ↔ how.isFault = true := by
  cases how with
  | hardware cause => cases cause <;> decide
  | software => decide
  | hook phase taskName => simp [Ending.raise, Ending.isFault, decodeAndClearResetReason]
  | hookCut phase taskName k cause => cases cause <;> simp [Ending.raise, Ending.isFault, Cause.raise, Cause.isWatchdog,
      decodeAndClearResetReason]

/-- The consecutive count behind a boot that found a valid block. -/
theorem consecutive_boot {b b' : Board} (hv : isValid b.regs = true) (h : b.next .boot = some b') :
    getConsecutiveCount b'.regs = (counts b.regs).nextConsecutive (decodeAndClearResetReason b.status).1 := by
  obtain ⟨-, hregs, -, -⟩ := next_boot h
  obtain ⟨-, -, -, hcounts⟩ := setup_spec b.status b.regs
  have hfound : foundCounts b.regs = counts b.regs := by simp [foundCounts, hv]
  have hreason : foundReason b.regs b.status = (decodeAndClearResetReason b.status).1 := by simp [foundReason, hv]
  rw [getConsecutiveCount_eq, hregs, hcounts, hfound, hreason]
  rfl

theorem toNat_add_one {c : UInt8} (h : c < 255) : (c + 1).toNat = c.toNat + 1 := by
  have : c.toNat < 255 := h
  rw [UInt8.toNat_add, UInt8.toNat_one]
  omega

/-- While the consecutive count is below 255, a boot with a valid block classifies the end of the one
before rightly, unless that was a fault which found the marker of a deliberate reset stored. -/
theorem classified_iff (regs : Regs) (status : ResetStatus) (es : List Moment) (m : Moment) (b b₁ b' : Board)
    (hrun : (Board.off regs status).runAt es = some b) (hends : m.ends = true) (hm : b.next m = some b₁)
    (hvalid : isValid b₁.regs = true) (hcount : getConsecutiveCount b₁.regs < 255) (hboot : b₁.next .boot = some b') :
    Classified m b₁ b' ↔ (m.isFault = true → storedMarker b₁.regs = .none) := by
  have hmarked := marked_run hrun
  have hnext := consecutive_boot hvalid hboot
  rw [storedMarker_eq hvalid]
  unfold Classified
  rw [hnext, Counts.nextConsecutive, getConsecutiveCount_eq]
  rw [getConsecutiveCount_eq] at hcount
  cases m with
  | nvicReset =>
    -- the firmware's own: the marker is stored, and keeps the reset from counting
    change b.step .nvicReset = some b₁ at hm
    simp only [Board.step] at hm
    split at hm
    · rename_i d hr
      cases hm
      obtain ⟨-, -, hmarker, hne⟩ := hmarked _ hr
      have hno : ¬ (counts b.regs).advances (decodeAndClearResetReason { b.status with swrf := true }).1 := by
        rintro ⟨-, hnone⟩
        rw [hmarker] at hnone
        exact hne (congrArg some hnone)
      rw [if_neg hno]
      simp [Moment.isFault]
    · cases hm
  | ended spot how =>
    obtain ⟨r, hr, -, rfl⟩ := next_ended hm
    obtain ⟨-, hstatus, -, -⟩ := hmarked r hr
    dsimp only at hvalid hcount hnext ⊢
    generalize how.regs (spot.regs r b.regs) = ended at *
    have hreason := decode_ended how
    rw [hstatus]
    by_cases hfault : how.isFault = true
    · have hadv : (counts ended).advances (decodeAndClearResetReason (how.raise { cwsf := true })).1 ↔
          (counts ended).marker = .none := ⟨fun h => h.2, fun h => ⟨hreason.2 hfault, h⟩⟩
      by_cases hnone : (counts ended).marker = .none
      · rw [if_pos (hadv.2 hnone), toNat_add_one hcount]
        simp [Moment.isFault, hfault, hnone]
      · rw [if_neg (fun h => hnone (hadv.1 h))]
        simp [Moment.isFault, hfault, hnone]
    · have hno : ¬ (counts ended).advances (decodeAndClearResetReason (how.raise { cwsf := true })).1 :=
        fun h => hfault (hreason.1 h.1)
      rw [if_neg hno]
      simp [Moment.isFault, hfault]
  | boot => cases hends
  | write w => cases hends
  | wait ms => cases hends

/-! ## Where a fault finds the marker -/

theorem keeps_recordFault (phase : BootPhase) (taskName : Option (Nat → UInt8)) (v : UInt8) :
    Keeps (fun p : Regs => p 11 = v) (recordFault phase taskName) :=
  keeps_bind (keeps_copyFaultTask _ v _ _ _ (by omega)) fun _ => keeps_writeByte (by decide) (by decide) (by decide) v _

theorem regs_ending_marker (how : Ending) (r : Regs) : (how.regs r) 11 = r 11 := by
  cases how with
  | hardware cause => rfl
  | software => rfl
  | hook phase taskName => exact cuts_of_keeps (keeps_recordFault phase taskName (r 11)) rfl _ (run_mem_cuts _ _)
  | hookCut phase taskName k cause => exact upTo_of_keeps (keeps_recordFault phase taskName (r 11)) k

/-- A fault that finds the marker fell between its store and the `NVIC_SystemReset()` behind it: into
the delay of the reboot command, or into that command or the end of a pass as it stores it. -/
theorem marker_window {regs : Regs} {status : ResetStatus} {es : List Moment} {spot : Spot} {how : Ending} {b b' : Board}
    (hrun : (Board.off regs status).runAt es = some b) (hm : b.next (.ended spot how) = some b')
    (hmarker : storedMarker b'.regs ≠ .none) :
    ∃ r, b.running = some r ∧ (r.resetting ≠ none ∨ ∃ k, spot = .within .reboot k ∨ spot = .within .pass k) := by
  obtain ⟨r, hr, -, rfl⟩ := next_ended hm
  obtain ⟨hv, -, hb, -⟩ := marked_run hrun r hr
  refine ⟨r, hr, ?_⟩
  by_contra hout
  push Not at hout
  obtain ⟨hnone, hspot⟩ := hout
  rw [hnone] at hb
  -- nothing has moved the marker byte since the boot consumed it
  have hbyte : (spot.regs r b.regs) 11 = b.regs 11 := by
    cases spot with
    | between => rfl
    | within w k =>
      cases w with
      | milestone phase => exact upTo_of_keeps (keeps_writeByte (by decide) (by decide) (by decide) _ _) k
      | pass => exact absurd rfl (hspot k).2
      | reboot => exact absurd rfl (hspot k).1
  apply hmarker
  unfold storedMarker
  split
  · change DeliberateReset.ofByte ((how.regs (spot.regs r b.regs)) 11) = .none
    rw [regs_ending_marker, hbyte]
    simpa [counts, field_of_valid hv] using hb
  · rfl

/-- A watchdog reset between two writes. -/
def hung : Moment := .ended .between (.hardware .watchdog)

/-- A boot, `es`, a hang and the boot behind it, with the block valid and the count below 255. -/
def Hangs (es : List Moment) (b b₁ b' : Board) : Prop :=
  (Board.off (fun _ => 0) {}).runAt (.boot :: es) = some b ∧ b.next hung = some b₁ ∧ isValid b₁.regs = true ∧
    getConsecutiveCount b₁.regs < 255 ∧ b₁.next .boot = some b'

theorem hangs_of_eval (es : List Moment) (f : Board → Board → Bool)
    (h : ((Board.off (fun _ => 0) {}).runAt (.boot :: es ++ [hung])).bind (fun b₁ =>
      (b₁.next .boot).map fun b' => isValid b₁.regs && decide (getConsecutiveCount b₁.regs < 255) && f b₁ b') = some true) :
    ∃ b b₁ b', Hangs es b b₁ b' ∧ f b₁ b' = true := by
  obtain ⟨b₁, h₁, h⟩ := Option.bind_eq_some_iff.1 h
  obtain ⟨b', hboot, h⟩ := Option.map_eq_some_iff.1 h
  obtain ⟨b, hrun, hm⟩ := Runs.run_concat.1 h₁
  simp only [Bool.and_eq_true, decide_eq_true_eq] at h
  exact ⟨b, b₁, b', ⟨hrun, hm, h.1.1, h.1.2, hboot⟩, h.2⟩

/-- A hang before any command counts. -/
theorem classified_hung : ∃ b b₁ b', Hangs [] b b₁ b' ∧ Classified hung b₁ b' := by
  obtain ⟨b, b₁, b', h, hmarker⟩ := hangs_of_eval [] (fun b₁ _ => decide (storedMarker b₁.regs = .none)) (by decide +kernel)
  refine ⟨b, b₁, b', h, ?_⟩
  obtain ⟨hrun, hm, hvalid, hcount, hboot⟩ := h
  exact (classified_iff _ _ _ _ b b₁ b' hrun rfl hm hvalid hcount hboot).2 fun _ => of_decide_eq_true hmarker

/-- In the delay behind the reboot command it does not. -/
theorem hung_in_delay : ∃ b b₁ b', Hangs [.write .reboot] b b₁ b' ∧ ¬ Classified hung b₁ b' := by
  obtain ⟨b, b₁, b', h, hnot⟩ := hangs_of_eval [.write .reboot] (fun b₁ b' => !decide (Classified hung b₁ b'))
    (by decide +kernel)
  exact ⟨b, b₁, b', h, by simpa using hnot⟩

end BoredomOS.Recovery
