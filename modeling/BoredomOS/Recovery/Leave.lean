/-
Leaving the reduced configuration. Throughout a reduced boot the stored snapshot is the stored
cumulative count, so the one reset the retry adds is the one the next boot pardons; the reboot
command leaves an empty block and a marker, which one boot takes to a single counted reset. Either
way the next boot is normal, whatever came before and however often the byte counters have wrapped.
-/
import BoredomOS.Recovery.Life

namespace BoredomOS.Recovery

namespace Life

/-- The counts behind a running boot, by what it is about to do. -/
def Leaving (reduced : Bool) (c : Counts) : Option DeliberateReset → Prop
  | none => reduced = true → c.snapshot = c.cumulative
  | some .retry => reduced = true ∧ c.marker = .retry ∧ c.snapshot = c.cumulative
  | some .commanded => c = ⟨0, 0, 0, .commanded⟩
  | some _ => False

def CanLeave (l : Life) : Prop :=
  ∀ r, l.running = some r → ∃ c, l.counts = some c ∧ Leaving r.reduced c r.resetting

theorem canLeave_off {l : Life} (h : l.running = none) : CanLeave l := by
  intro r hr; rw [h] at hr; cases hr

theorem leaving_boot (reason : ResetReason) (c : Counts) :
    Leaving (decide (c.reduced reason)) (c.boot reason) none := by
  intro h
  simp [Counts.boot, of_decide_eq_true h]

theorem leaving_pass (r : LifeRun) (c : Counts) (hr : r.resetting = none) (h : Leaving r.reduced c none) :
    Leaving (passRun r).reduced (passCounts r c) (passRun r).resetting := by
  by_cases hd : retryDue r
  · have : (passRun r).resetting = some .retry := by simp [passRun, hd]
    rw [this]
    exact ⟨hd.1, by simp [passCounts, hd], h hd.1⟩
  · have : (passRun r).resetting = none := by simp [passRun, hd, hr]
    rw [this]
    exact h

theorem canLeave_step (l : Life) (e : Ev) (l' : Life) (hl : CanLeave l) (h : l.step e = some l') : CanLeave l' := by
  cases e with
  | boot =>
    simp only [step] at h
    split at h
    · cases h
    · cases h
      intro r hr
      cases hr
      exact ⟨_, rfl, leaving_boot _ _⟩
  | milestone phase =>
    obtain ⟨r, -, h⟩ := Option.bind_eq_some_iff.1 h
    split at h
    · cases h
    · cases h; exact hl
  | wait ms =>
    obtain ⟨r, hr, rfl⟩ := Option.map_eq_some_iff.1 h
    intro r' hr'
    cases hr'
    exact hl r hr
  | pass =>
    obtain ⟨r, hr, h⟩ := Option.bind_eq_some_iff.1 h
    obtain ⟨c, hc, hleave⟩ := hl r hr
    split at h
    · cases h
    · rename_i hs
      have hnone : r.resetting = none := by simpa using hs
      cases h
      intro r' hr'
      cases hr'
      exact ⟨passCounts r c, by simp [hc], leaving_pass r c hnone (hnone ▸ hleave)⟩
  | reboot =>
    obtain ⟨r, -, h⟩ := Option.bind_eq_some_iff.1 h
    split at h
    · cases h
    · cases h
      intro r' hr'
      cases hr'
      exact ⟨_, rfl, rfl⟩
  | nvicReset =>
    obtain ⟨r, -, h⟩ := Option.bind_eq_some_iff.1 h
    split at h
    · cases h; exact canLeave_off rfl
    · cases h
  | fault phase name =>
    obtain ⟨r, -, rfl⟩ := Option.map_eq_some_iff.1 h
    exact canLeave_off rfl
  | reset cause =>
    obtain ⟨r, -, rfl⟩ := Option.map_eq_some_iff.1 h
    exact canLeave_off rfl
  | lose regs =>
    simp only [step] at h
    split at h
    · cases h
    · rename_i hoff
      split at h
      · cases h
      · cases h; exact canLeave_off (by simpa using hoff)

/-- The counts a firmware's own reset leaves: the next boot on them is normal. -/
def Forgiven (c : Counts) : Prop :=
  c.marker = .retry ∧ c.snapshot = c.cumulative ∨ c = ⟨0, 0, 0, .commanded⟩

theorem forgiven_not_reduced {c : Counts} (h : Forgiven c) (reason : ResetReason) : ¬ c.reduced reason := by
  rintro ⟨hover, hpardon⟩
  rcases h with ⟨hm, hs⟩ | rfl
  · -- the count grew by one, or wrapped to zero: at most the snapshot and one
    refine hpardon ⟨hm, ?_⟩
    rw [hs, UInt8.toNat_add]
    exact Nat.mod_le _ _
  · revert hover
    simp only [Counts.overThreshold, Counts.nextConsecutive, Counts.advances, reduceCtorEq, and_false, if_false]
    decide

theorem empty_not_reduced (reason : ResetReason) : ¬ (⟨0, 0, 0, .none⟩ : Counts).reduced reason := by
  rintro ⟨hover, -⟩
  simp only [Counts.overThreshold, Counts.nextConsecutive] at hover
  split at hover <;> exact absurd hover (by decide)

/-- The next boot, on a block that is forgiven or lost. -/
theorem boot_forgiven {l : Life} (h : ∀ c, l.counts = some c → Forgiven c) :
    decide (l.found.reduced l.reason) = false := by
  cases hc : l.counts with
  | none => simpa [found, hc] using empty_not_reduced l.reason
  | some c => simpa [found, hc] using forgiven_not_reduced (h c hc) l.reason

/-- The next boot, on an empty block that is marked or lost. -/
theorem boot_commanded {l : Life} (h : ∀ c, l.counts = some c → c = ⟨0, 0, 0, .commanded⟩) :
    (l.found.boot l.reason).consecutive = 0 ∧ (l.found.boot l.reason).cumulative = 1 := by
  cases hc : l.counts with
  | none => simp [found, reason, hc, Counts.boot, Counts.nextConsecutive, Counts.advances]
  | some c =>
    obtain rfl := h c hc
    simp [found, hc, Counts.boot, Counts.nextConsecutive, Counts.advances]

/-- Losing the block while the board is off changes nothing else. -/
theorem run_lose {P : Counts → Prop} : ∀ (lost : List Regs) {l l' : Life}, (∀ c, l.counts = some c → P c) →
    l.run (lost.map .lose) = some l' → ∀ c, l'.counts = some c → P c
  | [], _, _, hl, h => by cases h; exact hl
  | regs :: lost, l, _, hl, h => by
    obtain ⟨t, ht, h⟩ := Option.bind_eq_some_iff.1 h
    refine run_lose lost ?_ h
    simp only [step] at ht
    split at ht
    · cases ht
    · split at ht
      · cases ht
      · cases ht; exact fun c hc => by cases hc

/-- A firmware's own reset, and what it leaves: the counts forgiven, or an empty marked block. -/
theorem nvicReset_leaves {l l₁ : Life} (hl : CanLeave l) (h : l.step .nvicReset = some l₁) :
    ∃ r c, l.running = some r ∧ l₁.counts = some c ∧ Forgiven c ∧
      (r.resetting = some .retry ∧ r.reduced = true ∨
        r.resetting = some .commanded ∧ c = ⟨0, 0, 0, .commanded⟩) := by
  obtain ⟨r, hr, h⟩ := Option.bind_eq_some_iff.1 h
  obtain ⟨c, hc, hleave⟩ := hl r hr
  split at h
  · rename_i hs
    refine ⟨r, c, hr, by rw [← Option.some.inj h]; exact hc, ?_⟩
    obtain ⟨d, hd⟩ := Option.isSome_iff_exists.1 hs
    rw [hd] at hleave ⊢
    cases d with
    | retry => exact ⟨Or.inl hleave.2, Or.inl ⟨rfl, hleave.1⟩⟩
    | commanded => exact ⟨Or.inr hleave, Or.inr ⟨rfl, hleave⟩⟩
    | none => exact hleave.elim
    | unnamed raw => exact hleave.elim
  · cases h

theorem step_boot {l l' : Life} (h : l.step .boot = some l') : l' = l.boot := by
  simp only [step] at h
  split at h
  · cases h
  · exact (Option.some.inj h).symm

/-- The boot after a firmware's own reset, the block kept or lost meanwhile. -/
theorem next_boot {l l₁ l₂ l₃ : Life} {lost : List Regs} (hl : CanLeave l) (hreset : l.step .nvicReset = some l₁)
    (hlost : l₁.run (lost.map .lose) = some l₂) (hboot : l₂.step .boot = some l₃) :
    ∃ r, l.running = some r ∧
      (r.resetting = some .retry ∧ r.reduced = true ∨ r.resetting = some .commanded) ∧
      l₃.running = some { reduced := false } ∧
      (r.resetting = some .commanded → ∃ c, l₃.counts = some c ∧ c.consecutive = 0 ∧ c.cumulative = 1) := by
  obtain ⟨r, c, hr, hc, hforgiven, hcase⟩ := nvicReset_leaves hl hreset
  have kept : ∀ {P : Counts → Prop}, P c → ∀ c', l₂.counts = some c' → P c' := fun {P} hP =>
    run_lose (P := P) lost (fun c' hc' => by rw [hc] at hc'; cases hc'; exact hP) hlost
  rw [step_boot hboot]
  refine ⟨r, hr, ?_, ?_, ?_⟩
  · rcases hcase with h | h
    · exact Or.inl h
    · exact Or.inr h.1
  · simp only [boot, boot_forgiven (kept hforgiven)]
  · intro hcmd
    rcases hcase with h | h
    · rw [h.1] at hcmd; cases hcmd
    · exact ⟨_, rfl, boot_commanded (kept (P := fun c => c = ⟨0, 0, 0, .commanded⟩) h.2)⟩

end Life

/-- Whatever the run of boots before it, when a reduced boot ends by its own automatic retry or any
boot by the reboot command's own reset, the next boot is normal, the block kept or lost meanwhile;
after the commanded one it stores a consecutive count of 0 and a cumulative count of 1. -/
theorem next_boot_normal (b₀ b b₁ b₂ : Board) (es : List Ev) (lost : List Regs) (h₀ : b₀.running = none)
    (hrun : b₀.run es = some b) (hreset : b.step .nvicReset = some b₁)
    (hboot : b₁.run (lost.map .lose ++ [.boot]) = some b₂) :
    ∃ r r₂, b.running = some r ∧ b₂.running = some r₂ ∧
      (r.resetting = some .retry ∧ r.info.reducedConfiguration = true ∨ r.resetting = some .commanded) ∧
      r₂.info.reducedConfiguration = false ∧
      (r.resetting = some .commanded → getConsecutiveCount b₂.regs = 0 ∧ getCumulativeCount b₂.regs = 1) := by
  have live₀ : b₀.Live := Board.live_off h₀
  have live : b.Live := Board.live_run live₀ hrun
  have live₁ : b₁.Live := Board.live_step b _ b₁ live hreset
  obtain ⟨b₁', hlost, hboot⟩ := Runs.run_concat.1 hboot
  have live₁' : b₁'.Live := Board.live_run live₁ hlost
  have can : b.abs.CanLeave :=
    Runs.inv Life.canLeave_step (Life.canLeave_off (by simp [Board.abs, h₀])) (Board.abs_run_some live₀ hrun)
  obtain ⟨ra, hra, hcase, hnormal, hcmd⟩ := Life.next_boot can (Board.abs_step_some live hreset)
    (Board.abs_run_some live₁ hlost) (Board.abs_step_some live₁' hboot)
  obtain ⟨r, hr, rfl⟩ := Option.map_eq_some_iff.1 hra
  obtain ⟨r₂, hr₂, hr₂'⟩ := Option.map_eq_some_iff.1 hnormal
  refine ⟨r, r₂, hr, hr₂, hcase, congrArg LifeRun.reduced hr₂', fun hc => ?_⟩
  obtain ⟨c, hc, h⟩ := hcmd hc
  have hv := Board.live_step b₁' _ b₂ live₁' hboot r₂ hr₂
  rw [abs_counts hv] at hc
  rw [getConsecutiveCount_eq, getCumulativeCount_eq, Option.some.inj hc]
  exact h

/-- The reboot command on a board's first boot. -/
theorem next_boot_normal_reboot : ∃ b b₁ b₂ r r₂,
    (Board.mk (fun _ => 0) {} none 0 []).run [.boot, .reboot] = some b ∧ b.step .nvicReset = some b₁ ∧
      b₁.run ([].map .lose ++ [.boot]) = some b₂ ∧ b.running = some r ∧ b₂.running = some r₂ ∧
      (r.resetting = some .retry ∧ r.info.reducedConfiguration = true ∨ r.resetting = some .commanded) ∧
      r₂.info.reducedConfiguration = false ∧
      (r.resetting = some .commanded → getConsecutiveCount b₂.regs = 0 ∧ getCumulativeCount b₂.regs = 1) := by
  obtain ⟨r, r₂, h⟩ := next_boot_normal (Board.mk (fun _ => 0) {} none 0 []) _ _ _ [.boot, .reboot] [] rfl rfl rfl rfl
  exact ⟨_, _, _, r, r₂, rfl, rfl, rfl, h⟩

end BoredomOS.Recovery
