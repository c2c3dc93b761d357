/-
How often the reduced configuration is entered. A boot in it ends by a fault or by the automatic
retry, and only the retry is paced: once the stability window has cleared the consecutive count, a
fault can let the next boot start normal, and three more faults enter again at once. Where every
fault that ends a reduced boot finds counts that keep the next one reduced, successive entries are
at least the retry interval apart.
-/
import BoredomOS.Recovery.Life

namespace BoredomOS.Recovery

/-- Watchdog resets, fault hooks and the retry end the boots; the ground commands nothing and the
block is not lost. -/
def Ev.faultOnly : Ev → Prop
  | .reboot => False
  | .lose _ => False
  | .reset cause => cause = .watchdog ∨ cause = .independentWatchdog
  | _ => True

/-- The times of the entries into the reduced configuration, newest first: reduced boots whose
preceding boot was normal. -/
def entries : List BootRecord → List Nat
  | later :: earlier :: rest =>
    if later.reduced && !earlier.reduced then later.start :: entries (earlier :: rest)
    else entries (earlier :: rest)
  | _ => []

def EntriesApart (boots : List BootRecord) : Prop :=
  (entries boots).Pairwise fun later earlier => earlier + retryIntervalMs ≤ later

/-- The counts with one more fault on them still select the reduced configuration. -/
def KeepsReduced (consecutive cumulative : UInt8) : Prop :=
  consecutiveThreshold ≤ consecutive + 1 ∨ cumulativeThreshold ≤ cumulative + 1

/-- Every boot of the run that follows an unmarked end of a reduced boot, less than the retry
interval after an entry, finds counts that keep it reduced. -/
def StaysReduced (b₀ : Board) (es : List Ev) : Prop :=
  ∀ es₁ es₂ m last, es = es₁ ++ .boot :: es₂ → b₀.run es₁ = some m → m.boots.head? = some last →
    last.reduced = true → storedMarker m.regs = .none → (∃ t ∈ entries m.boots, m.clock < t + retryIntervalMs) →
      KeepsReduced (getConsecutiveCount m.regs) (getCumulativeCount m.regs)

theorem entries_cons (later : BootRecord) (boots : List BootRecord) :
    entries (later :: boots) = entries boots ∧ (later.reduced = true → ∀ last ∈ boots.head?, last.reduced = true) ∨
      later.reduced = true ∧ (∃ last ∈ boots.head?, last.reduced = false) ∧
        entries (later :: boots) = later.start :: entries boots := by
  cases boots with
  | nil => exact Or.inl ⟨rfl, by simp⟩
  | cons last rest =>
    simp only [entries]
    cases h1 : later.reduced <;> cases h2 : last.reduced <;> simp [h2]

theorem mem_entries {t : Nat} : ∀ {boots : List BootRecord}, t ∈ entries boots → ∃ b ∈ boots, b.start = t
  | [], h => by simp [entries] at h
  | later :: boots, h => by
    rcases entries_cons later boots with ⟨he, -⟩ | ⟨-, -, he⟩
    · rw [he] at h
      obtain ⟨b, hb, rfl⟩ := mem_entries h
      exact ⟨b, List.mem_cons_of_mem _ hb, rfl⟩
    · rw [he] at h
      rcases List.mem_cons.1 h with rfl | h
      · exact ⟨later, List.mem_cons_self .., rfl⟩
      · obtain ⟨b, hb, rfl⟩ := mem_entries h
        exact ⟨b, List.mem_cons_of_mem _ hb, rfl⟩

namespace Life

/-- The retry interval has passed since every entry so far. -/
def Settled (l : Life) : Prop := ∀ t ∈ entries l.boots, t + retryIntervalMs ≤ l.clock

/-- What a marker says about the boot behind it. -/
def Marked (l : Life) (c : Counts) : Option DeliberateReset → Prop
  | none => c.marker = .none
  | some .retry => c.marker = .retry ∧ Settled l
  | some _ => False

structure Paced (l : Life) : Prop where
  apart : EntriesApart l.boots
  past : ∀ b ∈ l.boots, b.start ≤ l.clock
  normal : ∀ b ∈ l.boots.head?, b.reduced = false → Settled l
  valid : l.counts.isSome = true
  on : ∀ r, l.running = some r → l.status = { cwsf := true } ∧ (∀ c, l.counts = some c → Marked l c r.resetting) ∧
    ∃ b, l.boots.head? = some b ∧ b.reduced = r.reduced ∧ b.start + r.elapsed = l.clock ∧
      ∀ t ∈ entries l.boots, t ≤ b.start
  off : l.running = none → l.boots ≠ [] → (l.reason = .watchdog ∨ l.reason = .software) ∧
    ∀ c, l.counts = some c → c.marker = .none ∨ c.marker = .retry ∧ Settled l

/-- What `StaysReduced` asks of one boot. -/
def StaysAt (l : Life) : Prop :=
  ∀ c last, l.counts = some c → l.boots.head? = some last → last.reduced = true → c.marker = .none →
    (∃ t ∈ entries l.boots, l.clock < t + retryIntervalMs) → KeepsReduced c.consecutive c.cumulative

instance (consecutive cumulative : UInt8) : Decidable (KeepsReduced consecutive cumulative) :=
  inferInstanceAs (Decidable (_ ∨ _))

instance (l : Life) : Decidable l.StaysAt :=
  decidable_of_iff (∀ c ∈ l.counts, ∀ last ∈ l.boots.head?, last.reduced = true → c.marker = .none →
      (∃ t ∈ entries l.boots, l.clock < t + retryIntervalMs) → KeepsReduced c.consecutive c.cumulative)
    ⟨fun h c last hc hlast => h c hc last hlast, fun h c hc last hlast => h c last hc hlast⟩

/-- What `StaysReduced` asks of every boot, event by event, on a block that is still valid. -/
def Stays : Life → List Ev → Prop
  | _, [] => True
  | l, e :: es => (e.isBoot = true → l.counts.isSome = true ∧ l.StaysAt) ∧ ∀ l' ∈ l.step e, l'.Stays es

instance decidableStays : ∀ (l : Life) (es : List Ev), Decidable (l.Stays es)
  | _, [] => isTrue trivial
  | l, e :: es =>
    have (l' : Life) : Decidable (l'.Stays es) := decidableStays l' es
    inferInstanceAs (Decidable ((e.isBoot = true → l.counts.isSome = true ∧ l.StaysAt) ∧ ∀ l' ∈ l.step e, l'.Stays es))

theorem not_settled {l : Life} : ¬ Settled l ↔ ∃ t ∈ entries l.boots, l.clock < t + retryIntervalMs := by
  simp [Settled]

/-- A boot after a reduced one is reduced again, unless the retry interval has passed. -/
theorem boot_reduced {l : Life} (hl : Paced l) (hstay : StaysAt l) (hrun : l.running = none) {last : BootRecord}
    (hlast : l.boots.head? = some last) (hred : last.reduced = true) :
    Settled l ∨ l.found.reduced l.reason := by
  have hne : l.boots ≠ [] := by intro h; simp [h] at hlast
  obtain ⟨c, hc⟩ := Option.isSome_iff_exists.1 hl.valid
  obtain ⟨hreason, hmark⟩ := hl.off hrun hne
  have hfound : l.found = c := by simp [found, hc]
  by_contra hno
  push Not at hno
  obtain ⟨hunsettled, hnormal⟩ := hno
  have hnone : c.marker = .none := (hmark c hc).resolve_right fun h => hunsettled h.2
  refine hnormal ?_
  rw [hfound]
  refine ⟨?_, fun hp => absurd (hnone.symm.trans hp.1) (by decide)⟩
  have hadv : c.advances l.reason := ⟨hreason, hnone⟩
  have hkeeps := hstay c last hc hlast hred hnone (not_settled.1 hunsettled)
  simpa [Counts.overThreshold, Counts.nextConsecutive, hadv, KeepsReduced, consecutiveThreshold,
    cumulativeThreshold] using hkeeps

theorem paced_boot {l : Life} (hl : Paced l) (hstay : StaysAt l) (hrun : l.running = none) : Paced l.boot := by
  have hclock : l.boot.clock = l.clock := rfl
  have hsettled : l.boot.Settled ↔ ∀ t ∈ entries l.boot.boots, t + retryIntervalMs ≤ l.clock := Iff.rfl
  have hpast : ∀ b ∈ l.boot.boots, b.start ≤ l.clock := by
    intro b hb
    rcases List.mem_cons.1 hb with rfl | hb
    · exact le_refl _
    · exact hl.past b hb
  refine ⟨?_, hpast, ?_, rfl, ?_, fun h => by cases h⟩
  · -- a new entry follows a normal boot, and there the last entry is settled
    rcases entries_cons ⟨l.clock, l.found.reduced l.reason, l.found.cumulative + 1, l.found.marker = .retry⟩ l.boots with
      ⟨he, -⟩ | ⟨-, ⟨last, hlast, hnormal⟩, he⟩
    · simpa [EntriesApart, boot, he] using hl.apart
    · simp only [EntriesApart, boot, he, List.pairwise_cons]
      exact ⟨fun t ht => hl.normal last hlast hnormal t ht, hl.apart⟩
  · intro b hb hnormal
    simp only [boot, List.head?_cons, Option.mem_def, Option.some.injEq] at hb
    subst hb
    rw [hsettled]
    simp only [decide_eq_false_iff_not] at hnormal
    rcases entries_cons ⟨l.clock, l.found.reduced l.reason, l.found.cumulative + 1, l.found.marker = .retry⟩ l.boots with
      ⟨he, -⟩ | ⟨hred, -, -⟩
    · simp only [boot, he]
      cases hlast : l.boots.head? with
      | none => rw [List.head?_eq_none_iff.1 hlast]; simp [entries]
      | some last =>
        cases hred : last.reduced with
        | false => exact hl.normal last hlast hred
        | true => exact (boot_reduced hl hstay hrun hlast hred).resolve_right hnormal
    · exact absurd (of_decide_eq_true hred) hnormal
  · intro r hr
    cases hr
    refine ⟨rfl, fun c hc => ?_, _, rfl, rfl, rfl, fun t ht => ?_⟩
    · cases hc; rfl
    · obtain ⟨b, hb, rfl⟩ := mem_entries ht
      exact hpast b hb

/-- A boot cut short by a fault or by its own reset leaves a block the next boot reads. -/
theorem paced_end {l : Life} (hl : Paced l) {r : LifeRun} (hr : l.running = some r) {status : ResetStatus}
    (hstatus : status = { l.status with swrf := true } ∨ status = { l.status with wdtrf := true } ∨
      status = { l.status with iwdtrf := true }) :
    Paced { l with status := status, running := none } := by
  obtain ⟨hs, hmark, -⟩ := hl.on r hr
  obtain ⟨c, hc⟩ := Option.isSome_iff_exists.1 hl.valid
  refine ⟨hl.apart, hl.past, hl.normal, hl.valid, ?_, fun _ _ => ⟨?_, ?_⟩⟩
  · intro r' hr'; cases hr'
  · simp only [reason, hc, Option.isSome_some, if_true]
    rcases hstatus with rfl | rfl | rfl <;> rw [hs] <;> decide
  · intro c' hc'
    have := hmark c' hc'
    cases hd : r.resetting with
    | none => rw [hd] at this; exact Or.inl this
    | some d =>
      rw [hd] at this
      cases d with
      | retry => exact Or.inr this
      | _ => exact this.elim

theorem paced_pass {l : Life} (hl : Paced l) {r : LifeRun} (hr : l.running = some r) (hnone : r.resetting = none) :
    Paced { l with counts := l.counts.map (passCounts r), running := some (passRun r) } := by
  obtain ⟨hs, hmark, b, hb, hred, hclock, hentries⟩ := hl.on r hr
  obtain ⟨c, hc⟩ := Option.isSome_iff_exists.1 hl.valid
  refine ⟨hl.apart, hl.past, hl.normal, by simp [hc], ?_, fun h => by cases h⟩
  intro r' hr'
  cases hr'
  refine ⟨hs, fun c' hc' => ?_, b, hb, hred, hclock, hentries⟩
  simp only [hc, Option.map_some, Option.some.injEq] at hc'
  subst hc'
  by_cases hd : retryDue r
  · -- the retry fires no sooner than the retry interval into the boot, and the boot is no entry's past
    simp only [passRun, hd, decide_true, if_true]
    refine ⟨by simp [passCounts, hd], fun t ht => ?_⟩
    have h1 := hentries t ht
    have h2 : retryIntervalMs ≤ r.elapsed := le_trans hd.2.2 (Nat.mod_le _ _)
    change t + retryIntervalMs ≤ l.clock
    omega
  · have hm := hmark c hc
    rw [hnone] at hm
    simp only [passRun, hd, if_false, hnone]
    simpa [Marked, passCounts, hd] using hm

theorem settled_wait {l : Life} (ms : Nat) (r : Option LifeRun) (h : Settled l) :
    Settled { l with running := r, clock := l.clock + ms } :=
  fun t ht => le_trans (h t ht) (Nat.le_add_right _ _)

theorem paced_wait {l : Life} (hl : Paced l) {r : LifeRun} (hr : l.running = some r) (ms : Nat) :
    Paced { l with running := some { r with elapsed := r.elapsed + ms }, clock := l.clock + ms } := by
  obtain ⟨hs, hmark, b, hb, hred, hclock, hentries⟩ := hl.on r hr
  refine ⟨hl.apart, fun b' hb' => le_trans (hl.past b' hb') (Nat.le_add_right _ _),
    fun b' hb' hn => settled_wait ms _ (hl.normal b' hb' hn), hl.valid, ?_, fun h => by cases h⟩
  intro r' hr'
  cases hr'
  refine ⟨hs, fun c hc => ?_, b, hb, hred, by simp only; omega, hentries⟩
  have := hmark c hc
  cases hd : r.resetting with
  | none => rw [hd] at this; exact this
  | some d =>
    rw [hd] at this
    cases d with
    | retry => exact ⟨this.1, settled_wait ms _ this.2⟩
    | _ => exact this.elim

theorem paced_step {l l' : Life} {e : Ev} (he : e.faultOnly) (hl : Paced l)
    (hstay : e.isBoot = true → StaysAt l) (h : l.step e = some l') : Paced l' := by
  cases e with
  | boot =>
    simp only [step] at h
    split at h
    · cases h
    · rename_i hoff
      cases h
      exact paced_boot hl (hstay rfl) (by simpa using hoff)
  | milestone phase =>
    obtain ⟨r, -, h⟩ := Option.bind_eq_some_iff.1 h
    split at h
    · cases h
    · cases h; exact hl
  | wait ms =>
    obtain ⟨r, hr, rfl⟩ := Option.map_eq_some_iff.1 h
    exact paced_wait hl hr ms
  | pass =>
    obtain ⟨r, hr, h⟩ := Option.bind_eq_some_iff.1 h
    split at h
    · cases h
    · rename_i hs
      cases h
      exact paced_pass hl hr (by simpa using hs)
  | nvicReset =>
    obtain ⟨r, hr, h⟩ := Option.bind_eq_some_iff.1 h
    split at h
    · cases h; exact paced_end hl hr (Or.inl rfl)
    · cases h
  | fault phase name =>
    obtain ⟨r, hr, rfl⟩ := Option.map_eq_some_iff.1 h
    exact paced_end hl hr (Or.inl rfl)
  | reset cause =>
    obtain ⟨r, hr, rfl⟩ := Option.map_eq_some_iff.1 h
    rcases he with rfl | rfl
    · exact paced_end hl hr (Or.inr (Or.inl rfl))
    · exact paced_end hl hr (Or.inr (Or.inr rfl))
  | reboot => exact he.elim
  | lose regs => exact he.elim

theorem paced_run {l₀ : Life} (h₀ : Paced l₀) {es : List Ev} : (∀ e ∈ es, e.faultOnly) →
    (∀ es₁ es₂ m, es = es₁ ++ .boot :: es₂ → l₀.run es₁ = some m → StaysAt m) →
      ∀ {l : Life}, l₀.run es = some l → Paced l := by
  induction es using List.reverseRecOn with
  | nil => intro _ _ l h; cases h; exact h₀
  | append_singleton es e ih =>
    intro he hstay l h
    obtain ⟨m, hm, h⟩ := Runs.run_concat.1 h
    have hpm : Paced m := ih (fun e' h' => he e' (List.mem_append_left _ h'))
      (fun es₁ es₂ m' hes hm' => hstay es₁ (es₂ ++ [e]) m' (by rw [hes]; simp) hm') hm
    refine paced_step (he e (by simp)) hpm (fun hb => ?_) h
    cases e with
    | boot => exact hstay es [] m rfl hm
    | _ => cases hb

theorem stays_split : ∀ {es₁ : List Ev} {es₂ : List Ev} {l m : Life}, l.Stays (es₁ ++ .boot :: es₂) → l.run es₁ = some m →
    m.counts.isSome = true ∧ m.StaysAt
  | [], _, _, _, h, hm => by
    cases hm
    exact h.1 rfl
  | e :: es₁, _, l, _, h, hm => by
    obtain ⟨l', hl', hm⟩ := Option.bind_eq_some_iff.1 hm
    exact stays_split (h.2 l' hl') hm

end Life

/-! ## On the registers -/

theorem staysAt_abs {b₀ : Board} (hlive : b₀.Live) {es : List Ev} (h : StaysReduced b₀ es) (es₁ es₂ : List Ev)
    (m : Life) (hes : es = es₁ ++ .boot :: es₂) (hm : b₀.abs.run es₁ = some m) : m.StaysAt := by
  rw [← Board.abs_run hlive es₁] at hm
  obtain ⟨mb, hmb, rfl⟩ := Option.map_eq_some_iff.1 hm
  intro c last hc hlast hred hmark hrecent
  have hv : isValid mb.regs = true := by
    cases hv : isValid mb.regs with
    | true => rfl
    | false => simp [Board.abs, hv] at hc
  rw [abs_counts hv] at hc
  obtain rfl := Option.some.inj hc
  exact h es₁ es₂ mb last hes hmb hlast hred ((storedMarker_eq hv).trans hmark) hrecent

/-- The condition on a board, found on its life. -/
theorem staysReduced_of_stays {regs : Regs} {status : ResetStatus} (hv : isValid regs = true) {es : List Ev}
    (h : Life.Stays { counts := some (counts regs), status } es) : StaysReduced (Board.off regs status) es := by
  intro es₁ es₂ m last hes hm hlast hred hmark hrecent
  have habs : (Board.off regs status).abs = { counts := some (counts regs), status } := by simp [Board.abs, Board.off, hv]
  obtain ⟨hvalid, hstays⟩ := Life.stays_split (hes ▸ h) (habs ▸ Board.abs_run_some (Board.live_off rfl) hm)
  have hvm : isValid m.regs = true := by
    cases hvm : isValid m.regs with
    | true => rfl
    | false => simp [Board.abs, hvm] at hvalid
  exact hstays (counts m.regs) last (abs_counts hvm) hlast hred ((storedMarker_eq hvm).symm.trans hmark) hrecent

/-- In every run of boots that end by faults or by the automatic retry, and that leave the reduced
configuration by a fault only once the retry interval has passed, successive entries into the
reduced configuration are at least the retry interval of running time apart. -/
theorem entries_apart (regs : Regs) (status : ResetStatus) (es : List Ev) (b : Board)
    (hv : isValid regs = true) (hes : ∀ e ∈ es, e.faultOnly)
    (hstay : StaysReduced (Board.off regs status) es) (hrun : (Board.off regs status).run es = some b) :
    EntriesApart b.boots := by
  have hlive : (Board.off regs status).Live := Board.live_off rfl
  have hpaced : (Board.off regs status).abs.Paced :=
    ⟨List.Pairwise.nil, by simp [Board.abs, Board.off], by simp [Board.abs, Board.off],
      by simp [Board.abs, Board.off, hv], by simp [Board.abs, Board.off], by simp [Board.abs, Board.off]⟩
  exact (Life.paced_run hpaced hes (staysAt_abs hlive hstay) (Board.abs_run_some hlive hrun)).apart

/-- Four boots into the reduced configuration, a fault before the stability window that leaves it reduced, the
automatic retry, and three faults back into it. -/
def retriedEntry : List Ev :=
  [.boot, .reset .watchdog, .boot, .reset .watchdog, .boot, .reset .watchdog, .boot, .wait 1000, .reset .watchdog, .boot,
    .wait retryIntervalMs, .pass, .nvicReset, .boot, .reset .watchdog, .boot, .reset .watchdog, .boot, .reset .watchdog, .boot]

theorem entries_apart_retried : ∃ b, (Board.off (storedCumulative 0) { porf := true }).run retriedEntry = some b ∧
    StaysReduced (Board.off (storedCumulative 0) { porf := true }) retriedEntry ∧
    entries b.boots = [1000 + retryIntervalMs, 0] ∧ EntriesApart b.boots := by
  obtain ⟨v, c⟩ := storedCumulative_spec 0
  obtain ⟨l, hl, hentries⟩ : ∃ l, Life.run { counts := some ⟨0, 0, 0, .none⟩, status := { porf := true } } retriedEntry = some l ∧
      entries l.boots = [1000 + retryIntervalMs, 0] := ⟨_, rfl, by decide⟩
  obtain ⟨b, hb, rfl⟩ := Board.run_of_abs v (c ▸ hl)
  have hstay : StaysReduced (Board.off (storedCumulative 0) { porf := true }) retriedEntry := by
    refine staysReduced_of_stays v ?_
    rw [c]
    decide
  exact ⟨b, hb, hstay, hentries, entries_apart _ _ retriedEntry b v (by simp [retriedEntry, Ev.faultOnly]) hstay hb⟩

/-- Four boots into the reduced configuration, a fault once the stability window has cleared the
consecutive count, and three faults back into it. -/
def oscillation : List Ev :=
  [.boot, .reset .watchdog, .boot, .reset .watchdog, .boot, .reset .watchdog, .boot, .wait stabilityWindowMs, .pass,
    .reset .watchdog, .boot, .reset .watchdog, .boot, .reset .watchdog, .boot]

/-- Two entries one stability window apart. -/
theorem oscillation_fast : ∃ b, isValid (storedCumulative 0) = true ∧ (∀ e ∈ oscillation, e.faultOnly) ∧
    (Board.off (storedCumulative 0) { porf := true }).run oscillation = some b ∧
    entries b.boots = [stabilityWindowMs, 0] ∧ ¬ EntriesApart b.boots := by
  obtain ⟨v, c⟩ := storedCumulative_spec 0
  obtain ⟨l, hl, hent⟩ : ∃ l, Life.run { counts := some ⟨0, 0, 0, .none⟩, status := { porf := true } } oscillation = some l ∧
      entries l.boots = [stabilityWindowMs, 0] := ⟨_, rfl, by decide⟩
  obtain ⟨b, hb, rfl⟩ := Board.run_of_abs v (c ▸ hl)
  have hent' : entries b.boots = [stabilityWindowMs, 0] := hent
  refine ⟨b, v, by simp [oscillation, Ev.faultOnly], hb, hent', ?_⟩
  simp [EntriesApart, hent', stabilityWindowMs, retryIntervalMs]

end BoredomOS.Recovery
