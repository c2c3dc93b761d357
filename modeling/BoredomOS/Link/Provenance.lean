/-
Where the clock's time comes from, over a whole run. Every path that changes the source takes it up the
ladder, and what it costs on the link is one text a port; there are two steps to climb at most. A clock
the ground has set is the ground's: only a ground time sets it again, and the DS1307 never does.
-/
import BoredomOS.Link.Replies
import BoredomOS.Link.Rows
import BoredomOS.Lib.Runs

namespace BoredomOS.Link

open Clock (Drift SetOutcome Source Usable Vouched)
open Runs

/-- How many steps up the ladder are left at run time, where only the ground and the DS1307 set the clock. -/
def stepsLeft : Source → Nat
  | .ground => 0
  | .ds1307 => 1
  | .survived => 2
  | .none => 2

/-- The texts about the clock among the items of a port. -/
def countTexts (port : Fin 2) (items : List (Fin 2 × LinkMsg)) : Nat := items.countP fun x => x.1 = port && x.2.isClockText

theorem countTexts_plain (port : Fin 2) {items : List (Fin 2 × LinkMsg)} (h : ∀ x ∈ items, x.2.isClockText = false) :
    countTexts port items = 0 := by
  rw [countTexts, List.countP_eq_zero]
  intro x hx
  simp [h x hx]

theorem isClockText_clockStatusText (source : Source) (foundRunning : Bool) :
    (Link.sendStatusText (TaskMavlink.clockStatusText source foundRunning) TaskMavlink.severityInfo).isClockText = true := by
  rw [LinkMsg.isClockText, List.any_eq_true]
  refine ⟨source, by cases source <;> simp, ?_⟩
  rw [List.any_eq_true]
  exact ⟨foundRunning, by cases foundRunning <;> simp, by simp⟩

theorem countTexts_clockTexts (port : Fin 2) (t : Clock.SystemTime) : countTexts port (TaskMavlink.clockTexts t) = 1 := by
  unfold countTexts TaskMavlink.clockTexts
  simp only [List.map_cons, List.map_nil, List.countP_cons, List.countP_nil, isClockText_clockStatusText, Bool.and_true]
  rcases port_cases port with rfl | rfl
  · rfl
  · rfl

namespace TaskMavlink

/-- One part of a pass or a whole run: it does not go down the ladder, pays each text with a step, and
keeps the clock plausible. -/
structure Climbs (s s' : TaskMavlink) : Prop where
  rank : s'.systemTime.source.rank ≤ s.systemTime.source.rank
  texts : ∃ items, s'.offered = s.offered ++ items ∧
    ∀ port, countTexts port items + stepsLeft s'.systemTime.source ≤ stepsLeft s.systemTime.source
  vouched : Usable s.systemTime → Vouched s.systemTime → Usable s'.systemTime ∧ Vouched s'.systemTime

theorem Climbs.refl (s : TaskMavlink) : Climbs s s :=
  ⟨le_refl _, ⟨[], (List.append_nil _).symm, fun _ => by simp [countTexts]⟩, fun hu hv => ⟨hu, hv⟩⟩

theorem Climbs.trans {s s' s'' : TaskMavlink} (h : Climbs s s') (h' : Climbs s' s'') : Climbs s s'' := by
  obtain ⟨items, hitems, hcount⟩ := h.texts
  obtain ⟨items', hitems', hcount'⟩ := h'.texts
  refine ⟨h'.rank.trans h.rank, ⟨items ++ items', by rw [hitems', hitems, List.append_assoc], fun port => ?_⟩, ?_⟩
  · have hsum : countTexts port (items ++ items') = countTexts port items + countTexts port items' := List.countP_append
    have h₁ := hcount port
    have h₂ := hcount' port
    omega
  · intro hu hv
    obtain ⟨hu', hv'⟩ := h.vouched hu hv
    exact h'.vouched hu' hv'

/-- Time passing and items of any other kind. -/
theorem climbs_of_drift {s s' : TaskMavlink} {items : List (Fin 2 × LinkMsg)} (hdrift : Drift s.systemTime s'.systemTime)
    (hoffered : s'.offered = s.offered ++ items) (hplain : ∀ x ∈ items, x.2.isClockText = false) : Climbs s s' := by
  refine ⟨by rw [hdrift.source], ⟨items, hoffered, fun port => ?_⟩, fun hu hv => ⟨hu.drift hdrift, hv.drift hdrift⟩⟩
  rw [countTexts_plain port hplain, hdrift.source, Nat.zero_add]

/-- An accepted time takes the source to its own rung, from there or from below. -/
theorem SetOutcome.climbs {m : Clock.Meanwhile} {n : Nat} {unixTime : Int} {from_ : Source} {t t' : Clock.SystemTime}
    {answer : Bool × Bool} (h : SetOutcome m n unixTime from_ t answer t') :
    t'.source.rank ≤ t.source.rank ∧ (t'.source ≠ t.source → t'.source = from_) := by
  rw [h.source_eq]
  cases hanswer : answer.1 with
  | false => exact ⟨le_refl _, fun hne => absurd rfl hne⟩
  | true => exact ⟨(h.accepted_iff.1 hanswer).2.1, fun _ => rfl⟩

/-- A change of the clock with the texts it brings. -/
theorem climbs_of_report {s s' : TaskMavlink} {t₁ : Clock.SystemTime} {r : Nat → Readings}
    (hoffered : s'.offered = (s.reportChange t₁ r).offered) (hdrift : Drift t₁ s'.systemTime)
    (hrank : t₁.source.rank ≤ s.systemTime.source.rank)
    (hsteps : t₁.source ≠ s.systemTime.source → stepsLeft t₁.source + 1 ≤ stepsLeft s.systemTime.source)
    (hvouched : Usable s.systemTime → Vouched s.systemTime → Usable t₁ ∧ Vouched t₁) : Climbs s s' := by
  refine ⟨by rw [hdrift.source]; exact hrank, ⟨_, hoffered.trans ((s.reportChange_sends t₁ r).offered), fun port => ?_⟩, ?_⟩
  · rw [hdrift.source]
    by_cases hsame : t₁.source = s.systemTime.source
    · rw [if_pos hsame, hsame]
      simp [countTexts]
    · rw [if_neg hsame, countTexts_clockTexts]
      have := hsteps hsame
      omega
  · intro hu hv
    obtain ⟨hu₁, hv₁⟩ := hvouched hu hv
    exact ⟨hu₁.drift hdrift, hv₁.drift hdrift⟩

/-! ## The parts of a pass -/

/-- A source that moves up to the DS1307 leaves one step, from the ground on none. -/
theorem stepsLeft_lt {source source' : Source} (hrank : source'.rank ≤ source.rank) (hne : source' ≠ source)
    (hset : source' = .ground ∨ source' = .ds1307) : stepsLeft source' + 1 ≤ stepsLeft source := by
  rcases hset with rfl | rfl
  · cases source <;> simp_all [stepsLeft]
  · cases source <;> simp_all [stepsLeft, Source.rank]

theorem Reconciled.climbs {m : Clock.Meanwhile} {t t' : Clock.SystemTime} (h : Reconciled m t t') :
    t'.source.rank ≤ t.source.rank ∧ (t'.source ≠ t.source → stepsLeft t'.source + 1 ≤ stepsLeft t.source) ∧
      (Usable t → Vouched t → Usable t' ∧ Vouched t') := by
  have hdrift : ∀ t', Drift t t' → t'.source.rank ≤ t.source.rank ∧
      (t'.source ≠ t.source → stepsLeft t'.source + 1 ≤ stepsLeft t.source) ∧
        (Usable t → Vouched t → Usable t' ∧ Vouched t') := fun t' hd =>
    ⟨by rw [hd.source], fun hne => absurd hd.source hne, fun hu hv => ⟨hu.drift hd, hv.drift hd⟩⟩
  cases h with
  | pushed ground drift => exact hdrift _ drift
  | absent absent drift => exact hdrift _ drift
  | seeded not_ground present set =>
    have hd : Drift t (m.move 1 (m.move 0 t)) := ((Drift.refl t).move m 0).move m 1
    obtain ⟨hrank, hset⟩ := SetOutcome.climbs set
    rw [hd.source] at hrank hset
    exact ⟨hrank, fun hne => stepsLeft_lt hrank hne (Or.inr (hset hne)), fun hu hv => set.vouched (hu.drift hd) (hv.drift hd)⟩

theorem reconcile_climbs (s : TaskMavlink) (now : UInt32) (r : Nat → Readings) : Climbs s (s.reconcile now r) := by
  by_cases h : now - s.lastReseedMs < kClockReseedIntervalMs
  · rw [s.reconcile_early h]
    exact Climbs.refl s
  · obtain ⟨t₁, t₂, q, records, hreconciled, hdrift, -, heq⟩ := s.reconcile_spec h r
    obtain ⟨hrank, hsteps, hvouched⟩ := Reconciled.climbs hreconciled
    rw [heq]
    exact @climbs_of_report _ _ t₁ r rfl hdrift hrank hsteps hvouched

theorem recordBattery_climbs (s : TaskMavlink) (now : UInt32) (r : Readings) : Climbs s (s.recordBattery now r) := by
  obtain ⟨t, q, records, last, hdrift, -, heq⟩ := s.recordBattery_spec now r
  rw [heq]
  exact @climbs_of_drift _ _ [] hdrift (List.append_nil _).symm (by simp)

theorem dispatch_climbs (s : TaskMavlink) (c : Conversion) (now : UInt32) (inbound : InboundMsg) (r : Nat → Readings) :
    Climbs s (s.dispatch c now inbound r) := by
  have h := s.dispatch_cases c now inbound r
  generalize s.dispatch c now inbound r = s' at h ⊢
  cases h with
  | silent => exact Climbs.refl s
  | replied m t k _ _ reply drift =>
    exact @climbs_of_drift _ _ [(inbound.chan, m)] drift rfl (by simpa using reply.2)
  | forwarded => exact @climbs_of_drift _ _ [] (Drift.refl _) (List.append_nil _).symm (by simp)
  | commanded is_command effect =>
    obtain ⟨items, result, hkeeps, hport, -, -⟩ := s.commanded_replies effect
    have hdrift : Drift s.systemTime s'.systemTime := by
      cases effect with
      | followed m t twice companion drift => exact drift
      | _ => exact Drift.refl _
    exact climbs_of_drift hdrift hkeeps.offered fun x hx => (hport x hx).2
  | timed answer t₁ t₂ q records is_time answered set drift recorded =>
    obtain ⟨hrank, hset⟩ := SetOutcome.climbs set
    exact @climbs_of_report _ _ t₁ r rfl drift hrank
      (fun hne => stepsLeft_lt hrank hne (Or.inl (hset hne))) fun hu hv => set.vouched hu hv

theorem fireRow_climbs (s : TaskMavlink) (now : UInt32) (r : Fin 2 → Fin 5 → Readings) (row : Fin 2 × Fin 5) :
    Climbs s (fireRow now r s row) := by
  unfold fireRow
  dsimp only
  split
  · obtain ⟨m, t, cursor, -, hplain, hdrift, -, hcall⟩ := s.call_spec (s.schedule row.1 row.2).function row.1 (r row.1 row.2)
    rw [hcall]
    exact @climbs_of_drift _ _ [(row.1, m)] hdrift rfl (by simpa using hplain.2)
  · exact Climbs.refl s

theorem fire_climbs (s : TaskMavlink) (now : UInt32) (r : Fin 2 → Fin 5 → Readings) : Climbs s (s.fire now r) := by
  unfold fire
  generalize rows = l
  induction l generalizing s with
  | nil => exact Climbs.refl s
  | cons row l ih => exact (s.fireRow_climbs now r row).trans (ih _)

theorem awaited_climbs (s : TaskMavlink) (e : Pass) : Climbs s (s.awaited e) := by
  have hbefore := (s.reconcile_climbs (tickMs e.started) e.reconcile).trans
    (recordBattery_climbs _ (tickMs e.started) e.battery)
  exact ⟨hbefore.rank, hbefore.texts, hbefore.vouched⟩

theorem heard_climbs (s : TaskMavlink) (c : Conversion) (e : Pass) : Climbs (s.awaited e) (s.heard c e) := by
  unfold heard
  cases e.received with
  | none => exact Climbs.refl _
  | some inbound => exact dispatch_climbs _ c (tickMs e.started) inbound e.dispatch

theorem pass_climbs (s : TaskMavlink) (c : Conversion) (e : Pass) : Climbs (s.heard c e) (s.pass c e) := by
  rw [pass_eq]
  split
  · exact Climbs.refl _
  · have hfire := fire_climbs (s.heard c e) (tickMs e.resumed) e.fire
    exact ⟨hfire.rank, hfire.texts, hfire.vouched⟩

theorem run_climbs {c : Conversion} {es : List Pass} {s s' : TaskMavlink} (h : run (step c) s es = some s') : Climbs s s' := by
  refine inv (P := Climbs s) (fun m e m' hm hstep => ?_) (Climbs.refl s) h
  unfold step at hstep
  split at hstep
  · cases hstep
  · cases hstep
    exact hm.trans ((m.awaited_climbs e).trans ((m.heard_climbs c e).trans (m.pass_climbs c e)))

/-! ## A clock the ground has set -/

/-- What a pass makes of the internal RTC of a ground-set clock: it runs on, or a plausible time that a
`SYSTEM_TIME` carried goes into it. -/
inductive GroundClock (received : Option InboundMsg) (r : Clock.Rtc) : Clock.Rtc → Prop
  | ran (n : Nat) : GroundClock received r (r.after n)
  | set (inbound : InboundMsg) (arrived : inbound ∈ received) (is_time : inbound.msg.msgid = msgIdSystemTime)
      (settable : Clock.isPlausible (inbound.msg.systemTimeUnixUsec / 1000000).toNat = true) (n k : Nat) :
      GroundClock received r (((r.after n).setTime (inbound.msg.systemTimeUnixUsec / 1000000).toNat).after k)

theorem GroundClock.before {received : Option InboundMsg} {t t' : Clock.SystemTime} {r : Clock.Rtc} (hd : Drift t t')
    (h : GroundClock received t'.rtc r) : GroundClock received t.rtc r := by
  obtain ⟨i, hi⟩ := hd.rtc
  rw [hi] at h
  cases h with
  | ran n =>
    rw [Clock.Rtc.after_after]
    exact .ran _
  | set inbound arrived is_time settable n k =>
    rw [Clock.Rtc.after_after]
    exact .set inbound arrived is_time settable _ k

theorem GroundClock.behind {received : Option InboundMsg} {t t' : Clock.SystemTime} {r : Clock.Rtc}
    (h : GroundClock received r t.rtc) (hd : Drift t t') : GroundClock received r t'.rtc := by
  obtain ⟨i, hi⟩ := hd.rtc
  rw [hi]
  generalize t.rtc = r' at h
  cases h with
  | ran n =>
    rw [Clock.Rtc.after_after]
    exact .ran _
  | set inbound arrived is_time settable n k =>
    rw [Clock.Rtc.after_after]
    exact .set inbound arrived is_time settable n _

theorem GroundClock.drift (received : Option InboundMsg) {t t' : Clock.SystemTime} (h : Drift t t') :
    GroundClock received t.rtc t'.rtc := by
  obtain ⟨n, hn⟩ := h.rtc
  rw [hn]
  exact .ran n

/-- A set from the ground puts the message's own time into the RTC, or nothing. -/
theorem SetOutcome.groundClock {m : Clock.Meanwhile} {n : Nat} {inbound : InboundMsg} {received : Option InboundMsg}
    {from_ : Source} {t t' : Clock.SystemTime} {answer : Bool × Bool} (arrived : inbound ∈ received)
    (is_time : inbound.msg.msgid = msgIdSystemTime)
    (h : SetOutcome m n (inbound.msg.systemTimeUnixUsec / 1000000).toNat from_ t answer t') :
    GroundClock received t.rtc t'.rtc := by
  cases h with
  | refused _ drift => exact .drift received drift
  | repeated _ before _ drift =>
    have hafter : GroundClock received _ t'.rtc := .drift received drift
    exact hafter.before before
  | @written s₁ s₂ _ accepted before _ between writable drift =>
    refine GroundClock.before (before.trans between) (GroundClock.behind ?_ drift)
    show GroundClock received s₂.rtc (Clock.setClockAndEpoch _ s₁.held s₂).2.rtc
    have hset := GroundClock.set (r := s₂.rtc) inbound arrived is_time accepted.1 0 0
    rw [Clock.Rtc.after_zero, Clock.Rtc.after_zero] at hset
    rwa [Clock.setClockAndEpoch, if_pos writable]

theorem reconcile_ground {s : TaskMavlink} (h : s.systemTime.source = .ground) (now : UInt32) (r : Nat → Readings) :
    Drift s.systemTime (s.reconcile now r).systemTime := by
  by_cases hearly : now - s.lastReseedMs < kClockReseedIntervalMs
  · rw [s.reconcile_early hearly]
    exact Drift.refl _
  · obtain ⟨t₁, t₂, q, records, hreconciled, hdrift, -, heq⟩ := s.reconcile_spec hearly r
    rw [heq]
    cases hreconciled with
    | pushed _ drift => exact drift.trans hdrift
    | absent _ drift => exact drift.trans hdrift
    | seeded not_ground => exact absurd h not_ground

theorem dispatch_ground (s : TaskMavlink) (c : Conversion) (now : UInt32) (inbound : InboundMsg) (r : Nat → Readings) :
    GroundClock (some inbound) s.systemTime.rtc (s.dispatch c now inbound r).systemTime.rtc := by
  have h := s.dispatch_cases c now inbound r
  generalize s.dispatch c now inbound r = s' at h ⊢
  have hstill : ∀ t, Drift s.systemTime t → GroundClock (some inbound) s.systemTime.rtc t.rtc :=
    fun _ hd => .drift (some inbound) hd
  cases h with
  | silent => exact hstill _ (Drift.refl _)
  | replied m t k _ _ _ drift => exact hstill t drift
  | forwarded => exact hstill _ (Drift.refl _)
  | commanded is_command effect =>
    cases effect with
    | followed m t _ _ drift => exact hstill t drift
    | _ => exact hstill _ (Drift.refl _)
  | timed answer t₁ t₂ q records is_time answered set drift =>
    exact (@SetOutcome.groundClock _ _ inbound (some inbound) _ _ _ _ rfl is_time set).behind drift

theorem fire_drift (s : TaskMavlink) (now : UInt32) (r : Fin 2 → Fin 5 → Readings) :
    Drift s.systemTime (s.fire now r).systemTime := by
  unfold fire
  generalize rows = l
  induction l generalizing s with
  | nil => exact Drift.refl _
  | cons row l ih =>
    refine Drift.trans ?_ (ih _)
    unfold fireRow
    dsimp only
    split
    · obtain ⟨m, t, cursor, -, -, hdrift, -, hcall⟩ := s.call_spec (s.schedule row.1 row.2).function row.1 (r row.1 row.2)
      rw [hcall]
      exact hdrift
    · exact Drift.refl _

theorem awaited_ground {s : TaskMavlink} (h : s.systemTime.source = .ground) (e : Pass) :
    Drift s.systemTime (s.awaited e).systemTime := by
  obtain ⟨t, q, records, last, hdrift, -, heq⟩ :=
    (s.reconcile (tickMs e.started) e.reconcile).recordBattery_spec (tickMs e.started) e.battery
  show Drift s.systemTime ((s.reconcile (tickMs e.started) e.reconcile).recordBattery (tickMs e.started) e.battery).systemTime
  rw [heq]
  exact (reconcile_ground h _ _).trans hdrift

/-- In a pass that finds the source `Ground`, no DS1307 reading reaches the internal RTC. -/
theorem pass_ground {s : TaskMavlink} (h : s.systemTime.source = .ground) (c : Conversion) (e : Pass) :
    GroundClock e.received s.systemTime.rtc (s.pass c e).systemTime.rtc := by
  have hheard : GroundClock e.received s.systemTime.rtc (s.heard c e).systemTime.rtc := by
    unfold heard
    cases e.received with
    | none => exact .drift none (awaited_ground h e)
    | some inbound => exact GroundClock.before (awaited_ground h e) (dispatch_ground _ c _ inbound e.dispatch)
  rw [pass_eq]
  split
  · exact hheard
  · exact hheard.behind (fire_drift _ (tickMs e.resumed) e.fire)

/-! ## The whole run -/

/-- The clock where a pass begins, and behind each part of it that may set it. -/
def clocks (s : TaskMavlink) (c : Conversion) (e : Pass) : List Clock.SystemTime :=
  [s.systemTime, (s.awaited e).systemTime, (s.heard c e).systemTime, (s.pass c e).systemTime]

theorem clocks_climb (s : TaskMavlink) (c : Conversion) (e : Pass) :
    (s.clocks c e).Pairwise (fun t t' => t'.source.rank ≤ t.source.rank) := by
  have hawaited := (s.awaited_climbs e).rank
  have hheard := (s.heard_climbs c e).rank
  have hpass := (s.pass_climbs c e).rank
  simp only [clocks, List.pairwise_cons, List.forall_mem_cons]
  exact ⟨⟨hawaited, hheard.trans hawaited, hpass.trans (hheard.trans hawaited), by simp⟩,
    ⟨hheard, hpass.trans hheard, by simp⟩, ⟨hpass, by simp⟩, by simp, List.Pairwise.nil⟩

theorem clocks_vouched {s : TaskMavlink} (hu : Usable s.systemTime) (hv : Vouched s.systemTime) (c : Conversion) (e : Pass) :
    ∀ t ∈ s.clocks c e, Usable t ∧ Vouched t := by
  have hawaited := (s.awaited_climbs e).vouched hu hv
  have hheard := (s.heard_climbs c e).vouched hawaited.1 hawaited.2
  have hpass := (s.pass_climbs c e).vouched hheard.1 hheard.2
  simp only [clocks, List.forall_mem_cons]
  exact ⟨⟨hu, hv⟩, hawaited, hheard, hpass, by simp⟩

/-- A clock with a source shows a plausible time until the second that does not fit 32 bits. -/
theorem isPlausible_of_vouched {t : Clock.SystemTime} (hu : Usable t) (hv : Vouched t) (hsource : t.source ≠ .none)
    (hsecond : t.rtc.second < 2 ^ 32) : Clock.isPlausible t.held = true := by
  have hold := hv hsource
  rw [Clock.kOldestAcceptable] at hold
  rw [hu.held, Clock.isPlausible_iff]
  omega

end TaskMavlink

theorem Start.task_systemTime (b : Start) : b.task.systemTime = b.systemTime := by
  unfold Start.task TaskMavlink.sendClockStatusText
  rfl

namespace TaskMavlink

theorem stepsLeft_le (source : Source) : stepsLeft source ≤ 2 := by
  cases source <;> decide

/-- Every boot, from any DS1307 and any RTC that answers, and every run of passes behind it, with whatever
messages, readings and time: the source never goes down the ladder, within a pass or from one to a later
one; with a source the clock is plausible; a ground-set clock only runs on or takes a time from a
`SYSTEM_TIME`; and behind the report of the boot no port is offered more than two texts about the clock. -/
theorem provenance {c : Conversion} {m : Clock.Meanwhile} {found : Clock.SystemTime} {b : Start} (h : Usable found)
    (hbegin : Drift (Clock.begin.runWith m.move 0 found).2.2 b.systemTime) {es : List Pass} {s : TaskMavlink}
    (hrun : run (step c) b.task es = some s) :
    (∀ es' s', run (step c) s es' = some s' → s'.systemTime.source.rank ≤ s.systemTime.source.rank) ∧
      (∀ e, (s.clocks c e).Pairwise fun t t' => t'.source.rank ≤ t.source.rank) ∧
      (∀ e, ∀ t ∈ s.clocks c e, t.source ≠ .none → t.rtc.second < 2 ^ 32 → Clock.isPlausible t.held = true) ∧
      (s.systemTime.source = .ground → ∀ e s', step c s e = some s' →
        GroundClock e.received s.systemTime.rtc s'.systemTime.rtc) ∧
      ∃ items, s.offered = b.task.offered ++ items ∧ ∀ port, countTexts port items ≤ 2 := by
  obtain ⟨hbegun, hvouched⟩ := Clock.begin_vouched m h
  rw [← b.task_systemTime] at hbegin
  have hclimbs := run_climbs hrun
  obtain ⟨hu, hv⟩ := hclimbs.vouched (hbegun.drift hbegin) (hvouched.drift hbegin)
  refine ⟨fun es' s' h' => (run_climbs h').rank, fun e => s.clocks_climb c e, ?_, ?_, ?_⟩
  · intro e t ht hsource hsecond
    obtain ⟨hut, hvt⟩ := clocks_vouched hu hv c e t ht
    exact isPlausible_of_vouched hut hvt hsource hsecond
  · intro hground e s' hstep
    unfold step at hstep
    split at hstep
    · cases hstep
    · cases hstep
      exact pass_ground hground c e
  · obtain ⟨items, hitems, hcount⟩ := hclimbs.texts
    refine ⟨items, hitems, fun port => ?_⟩
    have htexts := hcount port
    have hsteps := stepsLeft_le b.task.systemTime.source
    omega

/-- A board whose DS1307 kept the time, and the pass in which the ground sends one. -/
theorem provenance_groundTime :
    (freshStart.task.pass .vcvt (quietPass 1000 (some (groundTime 1800000000000000)))).systemTime.source.rank ≤ 1 := by
  have hbegin : Drift (Clock.begin.runWith quiet.meanwhile.move 0 Clock.seeded).2.2 freshStart.systemTime := by
    rw [quiet_move]
    exact Drift.refl _
  have h := @provenance .vcvt quiet.meanwhile Clock.seeded freshStart ⟨rfl, rfl⟩ hbegin [] freshStart.task rfl
  have hrank := h.1 [quietPass 1000 (some (groundTime 1800000000000000))] _ rfl
  rwa [freshStart.task_systemTime] at hrank

end TaskMavlink

end BoredomOS.Link
