/-
How long a pass waits. The least of what is left of the enabled rows is a second at most, as HEARTBEAT's row is
always on, so the conversion to ticks never overflows; and the task sleeps as long as it can and no longer: no
row becomes due in its sleep, and one is due at the end of it.
-/
import BoredomOS.Link.Rows

namespace BoredomOS.Link

open Runs

namespace ScheduleEntry

variable (entry : ScheduleEntry)

theorem due_toNat (now : UInt32) : (entry.due now).toNat = entry.intervalMs.toNat - (now - entry.lastMs).toNat := by
  unfold due
  dsimp only
  split
  · rename_i hle
    have hle' : entry.intervalMs.toNat ≤ (now - entry.lastMs).toNat := hle
    rw [UInt32.toNat_zero]
    omega
  · rename_i hlt
    rw [UInt32.toNat_sub_of_le _ _ (UInt32.le_of_lt (UInt32.not_le.1 hlt))]

/-- Time passes on both sides of a wrap. -/
theorem elapsed_add {now d : UInt32} (h : (now - entry.lastMs).toNat + d.toNat < 2 ^ 32) :
    (now + d - entry.lastMs).toNat = (now - entry.lastMs).toNat + d.toNat := by
  rw [UInt32.toNat_sub, UInt32.toNat_add]
  rw [UInt32.toNat_sub] at h ⊢
  omega

/-- What is left is how long it is not due, and then it is. -/
theorem isDue_iff_due (now : UInt32) {d : UInt32} (h : d ≤ entry.due now) :
    entry.isDue (now + d) = (entry.enabled && decide (entry.due now = d)) := by
  have hd : d.toNat ≤ (entry.due now).toNat := h
  have hinterval := entry.intervalMs.toNat_lt
  have hdue := entry.due_toNat now
  have helapsed := (now - entry.lastMs).toNat_lt
  unfold isDue
  congr 1
  rw [decide_eq_decide, ← UInt32.toNat_inj, UInt32.le_iff_toNat_le]
  by_cases hnow : entry.intervalMs.toNat ≤ (now - entry.lastMs).toNat
  · have hzero : d.toNat = 0 := by omega
    rw [entry.elapsed_add (by omega)]
    omega
  · rw [entry.elapsed_add (by omega)]
    omega

/-- A row that is due stays so, until the counter comes round to its last time. -/
theorem isDue_of_later {now d : UInt32} {late : Nat} (hdue : entry.isDue (now + d) = true) (hd : d.toNat ≤ late)
    (hreach : (now - entry.lastMs).toNat + late < 2 ^ 32) : entry.isDue (now + UInt32.ofNat late) = true := by
  have hlate : (UInt32.ofNat late).toNat = late := UInt32.toNat_ofNat_of_lt' (show late < 2 ^ 32 by omega)
  have hpassed : (now + UInt32.ofNat late - entry.lastMs).toNat = (now - entry.lastMs).toNat + (UInt32.ofNat late).toNat :=
    entry.elapsed_add (by omega)
  have helapsed : (now + d - entry.lastMs).toNat = (now - entry.lastMs).toNat + d.toNat := entry.elapsed_add (by omega)
  unfold isDue at hdue ⊢
  rw [Bool.and_eq_true, decide_eq_true_eq, UInt32.le_iff_toNat_le] at hdue ⊢
  exact ⟨hdue.1, by omega⟩

end ScheduleEntry

namespace TaskMavlink

variable {s s' : TaskMavlink}

theorem tickMs_add_sub {started resumed : Nat} (h : started ≤ resumed) :
    tickMs started + UInt32.ofNat (resumed - started) = tickMs resumed := by
  unfold tickMs
  rw [← UInt32.ofNat_add, Nat.add_sub_cancel' h]

/-! ## What every run keeps -/

/-- HEARTBEAT's row is on, once a second. -/
def Beats (s : TaskMavlink) : Prop := ∀ port, (s.schedule port kHeartbeatScheduleIndex).enabled = true ∧
  (s.schedule port kHeartbeatScheduleIndex).intervalMs = 1000

theorem beats_pass (h : s.Beats) (c : Conversion) (e : Pass) : (s.pass c e).Beats := by
  intro port
  have hheard : (s.heard c e).schedule port kHeartbeatScheduleIndex = s.schedule port kHeartbeatScheduleIndex := by
    rcases s.heard_schedule c e port kHeartbeatScheduleIndex with heq | ⟨⟨inbound, -, hset⟩, -⟩
    · exact heq
    · exact absurd hset.2.1 (by decide)
  rcases s.pass_schedule c e port kHeartbeatScheduleIndex with heq | heq
  · rw [heq, hheard]
    exact h port
  · rw [heq, hheard]
    exact h port

theorem beats_start (b : Start) : b.task.Beats := by
  intro port
  rw [b.task_schedule]
  exact ⟨rfl, rfl⟩

/-- The wait of a pass is the one before its `switch`. -/
theorem pass_waited (s : TaskMavlink) (c : Conversion) (e : Pass) :
    (s.pass c e).waited = some (pdMS_TO_TICKS (s.waitMs (tickMs e.started))) := by
  have hheard : (s.heard c e).waited = (s.awaited e).waited := by
    unfold heard
    cases e.received with
    | none => rfl
    | some inbound =>
      dsimp only
      have h := (s.awaited e).dispatch_cases c (tickMs e.started) inbound e.dispatch
      generalize (s.awaited e).dispatch c (tickMs e.started) inbound e.dispatch = s' at h ⊢
      cases h with
      | silent => rfl
      | replied => rfl
      | forwarded => rfl
      | timed answer t₁ =>
        show ((s.awaited e).reportChange t₁ e.dispatch).waited = _
        unfold reportChange
        split <;> rfl
      | commanded is_command effect => cases effect <;> rfl
  rw [← s.awaited_waited e, ← hheard, pass_eq]
  split
  · rfl
  · exact ((s.heard c e).fire_frame (tickMs e.resumed) e.fire).2

/-! ## The wait -/

/-- The wait is a second at most, and so the least of what is left of the rows that are on. -/
theorem waitMs_least (h : s.Beats) (now : UInt32) : (s.waitMs now).toNat ≤ 1000 ∧
    (∀ port row, (s.schedule port row).enabled = true → s.waitMs now ≤ (s.schedule port row).due now) ∧
    ∃ port row, (s.schedule port row).enabled = true ∧ s.waitMs now = (s.schedule port row).due now := by
  obtain ⟨hall, hattained⟩ := s.waitMs_spec now
  obtain ⟨hon, hinterval⟩ := h linkChanUart
  have hsecond : (s.waitMs now).toNat ≤ 1000 := by
    have hle := UInt32.le_iff_toNat_le.1 (hall linkChanUart kHeartbeatScheduleIndex hon)
    have hdue := (s.schedule linkChanUart kHeartbeatScheduleIndex).due_toNat now
    rw [hinterval, show (1000 : UInt32).toNat = 1000 from rfl] at hdue
    omega
  refine ⟨hsecond, hall, hattained.resolve_left fun heq => ?_⟩
  have hmax : (s.waitMs now).toNat = 4294967295 := congrArg UInt32.toNat heq
  omega

theorem beats_run {c : Conversion} {b : Start} {es : List Pass} (hrun : run (step c) b.task es = some s) : s.Beats :=
  inv (fun _ e _ h hstep => pass_of_step hstep ▸ beats_pass h c e) (beats_start b) hrun

/-- In every run, on both sides of a wrap: the task waits a second at most, no row becomes due before the end of
the wait, and one is due at its end. A pass that nothing comes in between calls that row, however late it goes
on, while the row's last time is less than 2^32 milliseconds back. -/
theorem wait_exact (c : Conversion) (b : Start) (es : List Pass) (e : Pass) (s s' : TaskMavlink)
    (hrun : run (step c) b.task es = some s) (hstep : step c s e = some s') :
    ∃ w, s'.waited = some w ∧ w ≤ 1000 ∧
      (∀ port row, ∀ d < w, (s.schedule port row).isDue (tickMs e.started + d) = false) ∧
      ∃ port row, (s.schedule port row).isDue (tickMs e.started + w) = true ∧
        (e.received = none → e.started + w.toNat ≤ e.resumed →
          (tickMs e.started - (s.schedule port row).lastMs).toNat + (e.resumed - e.started) < 2 ^ 32 →
          s.fires c e port row = true) := by
  obtain ⟨hsecond, hleast, port, row, hon, hattained⟩ := waitMs_least (beats_run hrun) (tickMs e.started)
  have hdue : (s.schedule port row).isDue (tickMs e.started + s.waitMs (tickMs e.started)) = true := by
    rw [ScheduleEntry.isDue_iff_due _ _ (hleast port row hon), hon, hattained]
    simp
  refine ⟨s.waitMs (tickMs e.started), ?_, hsecond, ?_, port, row, hdue, ?_⟩
  · rw [← pass_of_step hstep, pass_waited, pdMS_TO_TICKS_of_le hsecond]
  · intro port row d hd
    cases hon : (s.schedule port row).enabled with
    | false => rw [ScheduleEntry.isDue, hon, Bool.false_and]
    | true =>
      have hlt := UInt32.lt_of_lt_of_le hd (hleast port row hon)
      rw [ScheduleEntry.isDue_iff_due _ _ (UInt32.le_of_lt hlt), decide_eq_false (UInt32.ne_of_lt hlt).symm, Bool.and_false]
  · intro hnone hresumed hreach
    have hheard : s.heard c e = s.awaited e := by
      unfold heard
      rw [hnone]
    have hlate : (s.schedule port row).isDue (tickMs e.resumed) = true := by
      rw [← tickMs_add_sub (le_of_add_le_left hresumed)]
      exact ScheduleEntry.isDue_of_later _ hdue (by omega) hreach
    unfold fires
    rw [hheard, s.awaited_running, running_of_step hstep, s.awaited_schedule, hlate]
    rfl

/-- A pass with nothing to hear that begins at 800 ms and, after its wait of 200, goes on at 1130. -/
def latePass : Pass := { quietPass 800 none with resumed := 1130 }

/-- It waits for SYSTEM_TIME's row, due at 1000, and calls it. -/
theorem wait_exact_late : ∃ s s' : TaskMavlink, run (step .vcvt) freshStart.task [quietPass 510 none] = some s ∧
    step .vcvt s latePass = some s' ∧ s'.waited = some 200 ∧ ∃ port row,
      (s.schedule port row).isDue (tickMs latePass.started + 200) = true ∧ s.fires .vcvt latePass port row = true := by
  obtain ⟨w, hw, -, -, port, row, hdue, hfires⟩ := wait_exact .vcvt freshStart [quietPass 510 none] latePass _ _ rfl rfl
  obtain rfl : w = 200 := (Option.some.inj hw).symm
  have hreach : ∀ port row, (tickMs latePass.started -
      ((freshStart.task.pass .vcvt (quietPass 510 none)).schedule port row).lastMs).toNat +
        (latePass.resumed - latePass.started) < 2 ^ 32 := by decide +kernel
  exact ⟨_, _, rfl, rfl, hw, port, row, hdue, hfires rfl (by decide) (hreach port row)⟩

end TaskMavlink

end BoredomOS.Link
