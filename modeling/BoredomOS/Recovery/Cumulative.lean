/-
The cumulative reset count over a run of boots: it is one byte, each boot adds one, and nothing but
the ground's command takes it back. It therefore keeps what `include/Recovery.h` says of it until
it wraps, and no longer.
-/
import BoredomOS.Recovery.Life

namespace BoredomOS.Recovery

open Steps

/-- Neither the reboot command nor a loss of the block. -/
def Ev.unattended : Ev → Prop
  | .reboot => False
  | .lose _ => False
  | _ => True

/-- What the cumulative count is for, over one run: it never decreases, and once a boot has found
it at its threshold every later boot is reduced, save one that follows an automatic retry. -/
structure CumulativeKept (b₀ : Board) (es : List Ev) (b : Board) : Prop where
  never_decreases : ((Runs.trace Board.step b₀ es).map fun m => getCumulativeCount m.regs).Pairwise (· ≤ ·)
  stays_reduced : b.boots.Pairwise fun later earlier =>
    cumulativeThreshold ≤ earlier.cumulative → later.reduced = true ∨ later.retried = true

/-! ## The count along a life -/

namespace Life

def cumulative (l : Life) : UInt8 := (l.counts.map (·.cumulative)).getD 0

/-- One unattended event: the block stays valid, a boot adds one to the count and puts its record
in front, anything else leaves both. -/
theorem step_cumulative {l l' : Life} {c : Counts} {e : Ev} (hc : l.counts = some c) (he : e.unattended)
    (h : l.step e = some l') : ∃ c', l'.counts = some c' ∧
      (e.isBoot = true ∧ c'.cumulative = c.cumulative + 1 ∧ l'.boots =
        ⟨l.clock, c.reduced l.reason, c.cumulative + 1, c.marker = .retry⟩ :: l.boots ∨
      e.isBoot = false ∧ c'.cumulative = c.cumulative ∧ l'.boots = l.boots) := by
  have hfound : l.found = c := by simp [found, hc]
  cases e with
  | boot =>
    simp only [step] at h
    split at h
    · cases h
    · cases h
      refine ⟨_, rfl, Or.inl ⟨rfl, ?_, ?_⟩⟩
      · rw [hfound]; rfl
      · simp [boot, hfound]
  | milestone phase =>
    obtain ⟨r, -, h⟩ := Option.bind_eq_some_iff.1 h
    split at h
    · cases h
    · cases h; exact ⟨c, hc, Or.inr ⟨rfl, rfl, rfl⟩⟩
  | wait ms =>
    obtain ⟨r, -, rfl⟩ := Option.map_eq_some_iff.1 h
    exact ⟨c, hc, Or.inr ⟨rfl, rfl, rfl⟩⟩
  | pass =>
    obtain ⟨r, -, h⟩ := Option.bind_eq_some_iff.1 h
    split at h
    · cases h
    · cases h; exact ⟨passCounts r c, by simp [hc], Or.inr ⟨rfl, rfl, rfl⟩⟩
  | nvicReset =>
    obtain ⟨r, -, h⟩ := Option.bind_eq_some_iff.1 h
    split at h
    · cases h; exact ⟨c, hc, Or.inr ⟨rfl, rfl, rfl⟩⟩
    · cases h
  | fault phase name =>
    obtain ⟨r, -, rfl⟩ := Option.map_eq_some_iff.1 h
    exact ⟨c, hc, Or.inr ⟨rfl, rfl, rfl⟩⟩
  | reset cause =>
    obtain ⟨r, -, rfl⟩ := Option.map_eq_some_iff.1 h
    exact ⟨c, hc, Or.inr ⟨rfl, rfl, rfl⟩⟩
  | reboot => exact he.elim
  | lose regs => exact he.elim

/-- The count after a run: the boots of the run on top of what was stored, in one byte. -/
theorem run_cumulative {l₀ : Life} {c₀ : Counts} (h₀ : l₀.counts = some c₀) {es : List Ev} :
    (∀ e ∈ es, e.unattended) → ∀ {l : Life}, l₀.run es = some l →
      ∃ c, l.counts = some c ∧ c.cumulative.toNat = (c₀.cumulative.toNat + es.countP Ev.isBoot) % 256 := by
  induction es using List.reverseRecOn with
  | nil =>
    intro _ l h
    cases h
    exact ⟨c₀, h₀, by have := c₀.cumulative.toNat_lt; simp⟩
  | append_singleton es e ih =>
    intro he l h
    obtain ⟨m, hm, h⟩ := Runs.run_concat.1 h
    obtain ⟨c, hc, hcum⟩ := ih (fun e' h' => he e' (List.mem_append_left _ h')) hm
    obtain ⟨c', hc', hstep⟩ := step_cumulative hc (he e (by simp)) h
    refine ⟨c', hc', ?_⟩
    rw [List.countP_append, List.countP_singleton]
    rcases hstep with ⟨hb, hadd, -⟩ | ⟨hb, hkeep, -⟩
    · rw [hadd, UInt8.toNat_add, hcum, hb]; simp [Nat.add_assoc]
    · rw [hkeep, hcum, hb]; simp

theorem cumulative_eq {l : Life} {c : Counts} (h : l.counts = some c) : l.cumulative = c.cumulative := by
  simp [cumulative, h]

/-- `CumulativeKept`, on the counts. -/
structure Kept (l₀ : Life) (es : List Ev) (l : Life) : Prop where
  never_decreases : ((Runs.trace step l₀ es).map cumulative).Pairwise (· ≤ ·)
  stays_reduced : l.boots.Pairwise fun later earlier =>
    cumulativeThreshold ≤ earlier.cumulative → later.reduced = true ∨ later.retried = true

section Run

variable {l₀ : Life} {c₀ : Counts} (h₀ : l₀.counts = some c₀)
include h₀

/-- A run whose count never decreases has not filled the byte. -/
theorem fits_of_never_decreases {es : List Ev} : (∀ e ∈ es, e.unattended) → ∀ {l : Life}, l₀.run es = some l →
    ((Runs.trace step l₀ es).map cumulative).Pairwise (· ≤ ·) →
      c₀.cumulative.toNat + es.countP Ev.isBoot ≤ 255 := by
  induction es using List.reverseRecOn with
  | nil => intro _ l _ _; have := c₀.cumulative.toNat_lt; simp; omega
  | append_singleton es e ih =>
    intro he l h hsorted
    obtain ⟨m, hm, h⟩ := Runs.run_concat.1 h
    have he' : ∀ e' ∈ es, e'.unattended := fun e' h' => he e' (List.mem_append_left _ h')
    rw [Runs.trace_concat hm h, List.map_append, List.pairwise_append] at hsorted
    have hfit := ih he' hm hsorted.1
    -- the count before the last event is not above the count after it
    have hle : m.cumulative ≤ l.cumulative :=
      hsorted.2.2 _ (List.mem_map_of_mem (Runs.mem_trace hm)) _ (by simp)
    obtain ⟨c, hc, hcum⟩ := run_cumulative h₀ he' hm
    obtain ⟨c', hc', hcum'⟩ := run_cumulative h₀ he (Runs.run_concat.2 ⟨m, hm, h⟩)
    rw [cumulative_eq hc, cumulative_eq hc', UInt8.le_iff_toNat_le, hcum, hcum'] at hle
    rw [List.countP_append, List.countP_singleton] at hle ⊢
    split_ifs at hle ⊢ <;> omega

/-- While the byte has room the count never decreases, and every record carries a count the board
still holds or has passed. -/
theorem kept_of_fits {es : List Ev} (hb₀ : l₀.boots = []) : (∀ e ∈ es, e.unattended) → ∀ {l : Life},
    l₀.run es = some l → c₀.cumulative.toNat + es.countP Ev.isBoot ≤ 255 →
      Kept l₀ es l ∧ (∀ m ∈ Runs.trace step l₀ es, m.cumulative ≤ l.cumulative) ∧
        ∀ rec ∈ l.boots, rec.cumulative ≤ l.cumulative := by
  induction es using List.reverseRecOn with
  | nil =>
    intro _ l h _
    cases h
    exact ⟨⟨by simp [Runs.trace], by simp [hb₀]⟩, by simp [Runs.trace], by simp [hb₀]⟩
  | append_singleton es e ih =>
    intro he l h hfit
    obtain ⟨m, hm, h⟩ := Runs.run_concat.1 h
    have he' : ∀ e' ∈ es, e'.unattended := fun e' h' => he e' (List.mem_append_left _ h')
    rw [List.countP_append, List.countP_singleton] at hfit
    obtain ⟨kept, htrace, hboots⟩ := ih he' hm (by omega)
    obtain ⟨c, hc, hcum⟩ := run_cumulative h₀ he' hm
    obtain ⟨c', hc', hstep⟩ := step_cumulative hc (he e (by simp)) h
    have hm_eq := cumulative_eq hc
    have hl_eq := cumulative_eq hc'
    have hle : m.cumulative ≤ l.cumulative := by
      rw [hm_eq, hl_eq, UInt8.le_iff_toNat_le]
      rcases hstep with ⟨hb, hadd, -⟩ | ⟨-, hkeep, -⟩
      · rw [hb] at hfit
        rw [hadd, UInt8.toNat_add, hcum]; simp at hfit ⊢; omega
      · rw [hkeep]
    have htrace' : ∀ x ∈ Runs.trace step l₀ (es ++ [e]), x.cumulative ≤ l.cumulative := by
      rw [Runs.trace_concat hm h]
      intro x hx
      rcases List.mem_append.1 hx with hx | hx
      · exact UInt8.le_trans (htrace x hx) hle
      · rw [List.mem_singleton.1 hx]; exact UInt8.le_refl _
    have hsorted : ((Runs.trace step l₀ (es ++ [e])).map cumulative).Pairwise (· ≤ ·) := by
      rw [Runs.trace_concat hm h, List.map_append, List.pairwise_append]
      refine ⟨kept.never_decreases, by simp, ?_⟩
      intro a ha b hb
      obtain ⟨x, hx, rfl⟩ := List.mem_map.1 ha
      simp only [List.map_cons, List.map_nil, List.mem_singleton] at hb
      subst hb
      exact UInt8.le_trans (htrace x hx) hle
    rcases hstep with ⟨-, hadd, hrec⟩ | ⟨-, hkeep, hrec⟩
    · refine ⟨⟨hsorted, ?_⟩, htrace', ?_⟩
      · -- the new boot finds a count at least as high as any earlier one
        rw [hrec, List.pairwise_cons]
        refine ⟨fun old hold hthr => ?_, kept.stays_reduced⟩
        have hover : 10 ≤ c.cumulative + 1 := by
          rw [← hadd, ← hl_eq]
          exact UInt8.le_trans hthr (UInt8.le_trans (hboots old hold) hle)
        by_cases hp : c.pardoned
        · exact Or.inr (by simpa using hp.1)
        · exact Or.inl (by simpa using ⟨Or.inr hover, hp⟩)
      · rw [hrec]
        intro r hr
        rcases List.mem_cons.1 hr with rfl | hr
        · rw [hl_eq, hadd]; exact UInt8.le_refl _
        · exact UInt8.le_trans (hboots r hr) hle
    · exact ⟨⟨hsorted, hrec ▸ kept.stays_reduced⟩, htrace',
        fun r hr => UInt8.le_trans (hboots r (hrec ▸ hr)) hle⟩

end Run

end Life

/-! ## On the registers -/

theorem getCumulativeCount_abs (b : Board) : getCumulativeCount b.regs = b.abs.cumulative := by
  cases hv : isValid b.regs <;> simp [Life.cumulative, Board.abs, getCumulativeCount, hv, counts, field,
    offsetCumulativeCount]

theorem kept_abs {b₀ b : Board} (h₀ : b₀.Live) (es : List Ev) :
    CumulativeKept b₀ es b ↔ Life.Kept b₀.abs es b.abs := by
  have htrace : (Runs.trace Board.step b₀ es).map (fun m => getCumulativeCount m.regs) =
      (Runs.trace Life.step b₀.abs es).map Life.cumulative := by
    rw [← Runs.map_trace Board.live_step Board.abs_step es h₀, List.map_map]
    exact List.map_congr_left fun m _ => getCumulativeCount_abs m
  exact ⟨fun h => ⟨htrace ▸ h.never_decreases, h.stays_reduced⟩,
    fun h => ⟨htrace ▸ h.never_decreases, h.stays_reduced⟩⟩

/-- Over an unattended run on a valid block, the cumulative count does its job exactly as long as
the boots of the run fit in the byte on top of what was stored. -/
theorem cumulative_kept_iff (regs : Regs) (status : ResetStatus) (es : List Ev) (b : Board)
    (hv : isValid regs = true) (hes : ∀ e ∈ es, e.unattended)
    (hrun : (Board.off regs status).run es = some b) :
    CumulativeKept (Board.off regs status) es b ↔
      (getCumulativeCount regs).toNat + es.countP Ev.isBoot ≤ 255 := by
  have hlive : (Board.off regs status).Live := Board.live_off rfl
  have hc : (Board.off regs status).abs.counts = some (counts regs) := abs_counts hv
  have hrun' : (Board.off regs status).abs.run es = some b.abs := Board.abs_run_some hlive hrun
  rw [kept_abs hlive, getCumulativeCount_eq]
  exact ⟨fun h => Life.fits_of_never_decreases hc hes hrun' h.never_decreases,
    fun h => (Life.kept_of_fits hc rfl hes hrun' h).1⟩

/-- A boot into the reduced configuration over the cumulative threshold, its automatic retry, and a fault after
the boot that the retry let through. -/
def retriedOnce : List Ev :=
  [.boot, .reset .powerOn, .boot, .wait retryIntervalMs, .pass, .nvicReset, .boot, .reset .watchdog, .boot]

theorem cumulative_kept_iff_retried : ∃ b, (Board.off (storedCumulative 8) { porf := true }).run retriedOnce = some b ∧
    b.boots.map (fun boot => (boot.cumulative, boot.reduced, boot.retried)) =
      [(12, true, false), (11, false, true), (10, true, false), (9, false, false)] ∧
    CumulativeKept (Board.off (storedCumulative 8) { porf := true }) retriedOnce b := by
  obtain ⟨v, c⟩ := storedCumulative_spec 8
  obtain ⟨l, hl, hboots⟩ : ∃ l, Life.run { counts := some ⟨0, 8, 0, .none⟩, status := { porf := true } } retriedOnce = some l ∧
      l.boots.map (fun boot => (boot.cumulative, boot.reduced, boot.retried)) =
        [(12, true, false), (11, false, true), (10, true, false), (9, false, false)] := ⟨_, rfl, by decide⟩
  obtain ⟨b, hb, rfl⟩ := Board.run_of_abs v (c ▸ hl)
  refine ⟨b, hb, hboots, (cumulative_kept_iff _ _ retriedOnce b v (by simp [retriedOnce, Ev.unattended]) hb).2 ?_⟩
  rw [getCumulativeCount_eq, c]
  decide

/-- The 256th counted reset wraps the byte: on a block that holds 255, one power-on takes the
stored count to 0. -/
theorem cumulative_wraps : ∃ b, isValid (storedCumulative 255) = true ∧
    (Board.off (storedCumulative 255) { porf := true }).run [.boot] = some b ∧
    getCumulativeCount (storedCumulative 255) = 255 ∧ getCumulativeCount b.regs = 0 ∧
    ¬ CumulativeKept (Board.off (storedCumulative 255) { porf := true }) [.boot] b := by
  obtain ⟨v, c⟩ := storedCumulative_spec 255
  obtain ⟨v', -, -, c'⟩ := setup_spec { porf := true } (storedCumulative 255)
  have h255 : getCumulativeCount (storedCumulative 255) = 255 := by rw [getCumulativeCount_eq, c]
  have h0 : getCumulativeCount ((setup { porf := true }).run (storedCumulative 255)).2 = 0 := by
    rw [getCumulativeCount_eq, c']; simp [foundCounts, v, c, Counts.boot]
  refine ⟨_, v, rfl, h255, h0, fun hk => ?_⟩
  have hsorted := hk.never_decreases
  simp only [Runs.trace, Board.step, Board.off, List.map_cons, List.map_nil, h255, h0] at hsorted
  exact absurd hsorted (by decide)

end BoredomOS.Recovery
