/-
The `TIME` records of `TaskMavlink`. The clock is asked for something in two places of a pass, and behind
each of them one record is offered exactly if the wall clock jumped there, with the source it then has;
no other part of a pass offers one. A run adds them up.
-/
import BoredomOS.Clock.Jumps
import BoredomOS.Lib.Runs
import BoredomOS.Link.Rows

namespace BoredomOS.Link

open Clock (Drift Event Source)
open Log (SdRecord)
open Runs

/-- The origin a `TIME` record carries. -/
def timeSource : SdRecord → Option UInt8
  | .time p => some p.source
  | _ => none

/-- One origin for each event in which the wall clock jumped: the one held behind it. -/
def jumpSources (events : List Event) : List UInt8 :=
  (events.filter fun x => x.Jumps).map fun x => UInt8.ofNat x.after.source.rank

theorem jumpSources_append (events events' : List Event) :
    jumpSources (events ++ events') = jumpSources events ++ jumpSources events' := by
  simp [jumpSources]

namespace TaskMavlink

variable (s : TaskMavlink)

/-- The origins of the `TIME` records offered to `sdWriteQueue`. -/
def timeSources : List UInt8 := s.recorded.filterMap timeSource

/-! ## What is asked of the clock -/

/-- The reconciliation: from a clock of the ground, into one of any other source. -/
def reconcileEvent (r : Nat → Readings) : Event where
  call := if s.systemTime.source = .ground then .pushToDs1307 else .reseedFromDs1307
  meanwhile := (r 0).meanwhile
  before := s.systemTime

/-- The reconciliation of a pass, if it is due. -/
def reconciliation (e : Pass) : List Event :=
  if tickMs e.started - s.lastReseedMs < kClockReseedIntervalMs then [] else [s.reconcileEvent e.reconcile]

/-- The time a `SYSTEM_TIME` brings. -/
def systemTimeEvent (inbound : InboundMsg) (r : Nat → Readings) : Event where
  call := .setUnixTime (inbound.msg.systemTimeUnixUsec / 1000000).toNat .ground
  meanwhile := (r 0).meanwhile
  before := s.systemTime

def systemTimes (e : Pass) : List Event :=
  (e.received.toList.filter fun inbound => inbound.msg.msgid = msgIdSystemTime).map fun inbound =>
    (s.awaited e).systemTimeEvent inbound e.dispatch

/-- What the passes of a run ask of the clock, in order. -/
def clockEvents (c : Conversion) : TaskMavlink → List Pass → List Event
  | _, [] => []
  | s, e :: es => s.reconciliation e ++ s.systemTimes e ++ clockEvents c (s.pass c e) es

/-! ## The parts of a pass -/

/-- A part of a pass or a run offers the records of these events, and keeps the handles. -/
structure Logs (events : List Event) (s s' : TaskMavlink) : Prop where
  records : s'.timeSources = s.timeSources ++ jumpSources events
  handles : s'.handles = s.handles

variable {s}

theorem Logs.of_recorded {s' : TaskMavlink} (hrecorded : s'.recorded = s.recorded) (hhandles : s'.handles = s.handles) :
    Logs [] s s' :=
  ⟨by rw [timeSources, hrecorded]; exact (List.append_nil _).symm, hhandles⟩

theorem Logs.trans {events events' : List Event} {s' s'' : TaskMavlink} (h : Logs events s s') (h' : Logs events' s' s'') :
    Logs (events ++ events') s s'' :=
  ⟨by rw [h'.records, h.records, jumpSources_append, List.append_assoc], h'.handles.trans h.handles⟩

variable (s)

/-- The texts about the clock are no records. -/
theorem reported_frame (changed : Prop) [Decidable changed] (r : Nat → Readings) :
    (if changed then s.sendClockStatusText r else s).recorded = s.recorded ∧
      (if changed then s.sendClockStatusText r else s).handles = s.handles ∧
      (if changed then s.sendClockStatusText r else s).systemTime = s.systemTime := by
  split
  · unfold sendClockStatusText
    exact ⟨rfl, rfl, rfl⟩
  · exact ⟨rfl, rfl, rfl⟩

theorem Logs.reported {s s' : TaskMavlink} {events : List Event} (h : Logs events s s') (changed : Prop) [Decidable changed]
    (r : Nat → Readings) : Logs events s (if changed then s'.sendClockStatusText r else s') := by
  obtain ⟨hrecorded, hhandles, -⟩ := s'.reported_frame changed r
  refine ⟨?_, hhandles.trans h.handles⟩
  rw [timeSources, hrecorded]
  exact h.records

theorem logClock_logs (hwriter : s.handles .sdWrite = true) (r : Nat → Readings) :
    (s.logClock r).timeSources = s.timeSources ++ [UInt8.ofNat s.systemTime.source.rank] ∧
      (s.logClock r).handles = s.handles := by
  unfold logClock
  rw [if_neg (by simp [hwriter])]
  obtain ⟨t₁, h₁, hclock₁⟩ := s.clock_spec Clock.keeps_drift_sinceBootUsec (r 3)
  obtain ⟨t₂, h₂, hclock₂⟩ := { s with systemTime := t₁ }.clock_spec Clock.keeps_drift_getUnixTime (r 4)
  dsimp only
  rw [hclock₁, hclock₂]
  constructor
  · show (s.recorded ++ [_]).filterMap timeSource = _
    rw [List.filterMap_append, ← h₁.source, ← h₂.source]
    rfl
  · rfl

/-- The record of an event is offered on the word of the call. -/
theorem logClockIf_logs {x : Event} {t : TaskMavlink} {jumped : Bool} (hjumped : jumped = true ↔ x.Jumps)
    (hwriter : t.handles .sdWrite = true) (hrecorded : t.recorded = s.recorded) (hhandles : t.handles = s.handles)
    (hsource : t.systemTime.source = x.after.source) (r : Nat → Readings) :
    Logs [x] s (if jumped then t.logClock r else t) := by
  have htimes : t.timeSources = s.timeSources := by rw [timeSources, hrecorded, timeSources]
  cases jumped with
  | true =>
    obtain ⟨hlog, hkept⟩ := t.logClock_logs hwriter r
    refine ⟨?_, hkept.trans hhandles⟩
    rw [if_pos rfl, hlog, htimes, hsource]
    simp [jumpSources, hjumped.1 rfl]
  | false =>
    have hstill : ¬ x.Jumps := fun h => Bool.noConfusion (hjumped.2 h)
    refine ⟨?_, hhandles⟩
    rw [if_neg Bool.false_ne_true, htimes]
    simp [jumpSources, hstill]

theorem onSystemTime_logs (hwriter : s.handles .sdWrite = true) (inbound : InboundMsg) (r : Nat → Readings) :
    Logs [s.systemTimeEvent inbound r] s (s.onSystemTime inbound.msg.systemTimeUnixUsec r) := by
  have hjumps := (s.systemTimeEvent inbound r).jumps_iff_answered
  have hmoved := (s.systemTimeEvent inbound r).answered_of_moved
  have hcall : s.clock (Clock.setUnixTime (inbound.msg.systemTimeUnixUsec / 1000000).toNat .ground) (r 0) =
      ((s.systemTimeEvent inbound r).answered, { s with systemTime := (s.systemTimeEvent inbound r).after }) := rfl
  have hbefore : (s.systemTimeEvent inbound r).before = s.systemTime := rfl
  unfold onSystemTime
  dsimp only
  rw [hcall]
  -- accepted, and either the RTC was written or the source is another one: what the handler tests
  generalize s.systemTimeEvent inbound r = x at hjumps hmoved hbefore ⊢
  rw [hbefore] at hjumps
  have hanswer : (x.answered.1 && (x.answered.2 || x.after.source ≠ s.systemTime.source)) = true ↔ x.Jumps := by
    rw [hjumps]
    simp only [Bool.and_eq_true, Bool.or_eq_true, decide_eq_true_eq]
    tauto
  have hlogs := s.logClockIf_logs (t := { s with systemTime := x.after }) hanswer hwriter rfl rfl rfl r
  cases haccepted : x.answered.1 with
  | false =>
    rw [haccepted] at hlogs
    exact hlogs
  | true =>
    rw [haccepted] at hlogs
    rw [if_pos rfl]
    exact hlogs.reported _ r

/-- The direction the ladder gives, as one call. -/
theorem reconcile_call (last : UInt32) (r : Nat → Readings) :
    (if s.systemTime.source = .ground then
        ((({ s with lastReseedMs := last }.clock Clock.pushToDs1307 (r 0)).1, false),
          ({ s with lastReseedMs := last }.clock Clock.pushToDs1307 (r 0)).2)
      else { s with lastReseedMs := last }.clock Clock.reseedFromDs1307 (r 0)) =
      ((s.reconcileEvent r).answered, { s with lastReseedMs := last, systemTime := (s.reconcileEvent r).after }) := by
  by_cases hground : s.systemTime.source = .ground
  · simp [hground, reconcileEvent, Event.answered, Event.after, Clock.Call.answer, clock]
  · simp [hground, reconcileEvent, Event.answered, Event.after, Clock.Call.answer, clock]

theorem reconcile_logs (hwriter : s.handles .sdWrite = true) (e : Pass) :
    Logs (s.reconciliation e) s (s.reconcile (tickMs e.started) e.reconcile) := by
  unfold reconciliation
  split
  · rename_i hearly
    rw [s.reconcile_early hearly]
    exact Logs.of_recorded rfl rfl
  rename_i hdue
  have hjumps := (s.reconcileEvent e.reconcile).jumps_iff_answered
  have hbefore : (s.reconcileEvent e.reconcile).before = s.systemTime := rfl
  unfold reconcile
  rw [if_neg hdue]
  dsimp only
  rw [reconcile_call]
  generalize s.reconcileEvent e.reconcile = x at hjumps hbefore ⊢
  rw [hbefore] at hjumps
  dsimp only
  obtain ⟨hrecorded, hhandles, hclock⟩ := { s with
    lastReseedMs := s.lastReseedMs + kClockReseedIntervalMs, systemTime := x.after }.reported_frame
      ((x.answered.1 && x.after.source ≠ s.systemTime.source) = true) e.reconcile
  refine s.logClockIf_logs ?_ ((congrFun hhandles _).trans hwriter) hrecorded hhandles (congrArg Clock.SystemTime.source hclock) _
  rw [hjumps]
  simp

/-! ## The rest of a pass -/

theorem recordBattery_logs (now : UInt32) (r : Readings) : Logs [] s (s.recordBattery now r) := by
  unfold recordBattery
  split
  swap
  · exact Logs.of_recorded rfl rfl
  unfold logBattery
  split
  · exact Logs.of_recorded rfl rfl
  obtain ⟨t, -, hclock⟩ := { s with lastBatteryLogMs := s.lastBatteryLogMs + kBatteryLogIntervalMs }.clock_spec
    Clock.keeps_drift_sinceBootUsec r
  dsimp only
  rw [hclock]
  unfold Log.logBattery
  rw [if_neg (by decide)]
  constructor
  · -- a battery record has no origin
    split
    · exact (List.append_nil _).symm
    · simp [record, timeSources, timeSource, jumpSources]
  · split
    · rfl
    · rfl

theorem dispatch_logs (hwriter : s.handles .sdWrite = true) (c : Conversion) (now : UInt32) (inbound : InboundMsg)
    (r : Nat → Readings) :
    Logs (if inbound.msg.msgid = msgIdSystemTime then [s.systemTimeEvent inbound r] else []) s
      (s.dispatch c now inbound r) := by
  split
  · rename_i is_time
    rw [s.dispatch_systemTime c now is_time r]
    exact s.onSystemTime_logs hwriter inbound r
  rename_i no_time
  have h := s.dispatch_cases c now inbound r
  generalize s.dispatch c now inbound r = s' at h ⊢
  cases h with
  | silent => exact Logs.of_recorded rfl rfl
  | replied => exact Logs.of_recorded rfl rfl
  | forwarded requests q no_command no_time answers =>
    -- a request has a port to be answered on, a `TIME` record none
    have hnone : requests.filterMap timeSource = [] := by
      rw [List.filterMap_eq_nil_iff]
      intro x hx
      have hport := answers x hx
      cases x with
      | time => cases hport
      | _ => rfl
    refine ⟨?_, rfl⟩
    show (s.recorded ++ requests).filterMap timeSource = _
    rw [List.filterMap_append, hnone]
    rfl
  | commanded is_command effect => cases effect <;> exact Logs.of_recorded rfl rfl
  | timed answer t₁ t₂ q records is_time => exact absurd is_time no_time

theorem fire_logs (now : UInt32) (r : Fin 2 → Fin 5 → Readings) : Logs [] s (s.fire now r) := by
  -- induction on the rows still to fire: a telemetry row records nothing
  unfold fire
  generalize rows = l
  induction l generalizing s with
  | nil => exact Logs.of_recorded rfl rfl
  | cons row l ih =>
    show Logs ([] ++ []) s _
    refine Logs.trans ?_ (ih _)
    unfold fireRow
    dsimp only
    split
    · obtain ⟨m, t, cursor, -, -, -, -, hcall⟩ := s.call_spec (s.schedule row.1 row.2).function row.1 (r row.1 row.2)
      rw [hcall]
      exact Logs.of_recorded rfl rfl
    · exact Logs.of_recorded rfl rfl

theorem awaited_logs (hwriter : s.handles .sdWrite = true) (e : Pass) : Logs (s.reconciliation e) s (s.awaited e) := by
  have hlogs := (s.reconcile_logs hwriter e).trans (recordBattery_logs _ (tickMs e.started) e.battery)
  rw [List.append_nil] at hlogs
  exact ⟨hlogs.records, hlogs.handles⟩

theorem heard_logs (hwriter : s.handles .sdWrite = true) (c : Conversion) (e : Pass) :
    Logs (s.reconciliation e ++ s.systemTimes e) s (s.heard c e) := by
  have hawaited := s.awaited_logs hwriter e
  refine hawaited.trans ?_
  unfold heard systemTimes
  cases e.received with
  | none => exact Logs.of_recorded rfl rfl
  | some inbound =>
    have hlogs := (s.awaited e).dispatch_logs ((congrFun hawaited.handles _).trans hwriter) c (tickMs e.started) inbound e.dispatch
    by_cases is_time : inbound.msg.msgid = msgIdSystemTime
    · rw [if_pos is_time] at hlogs
      simpa [is_time] using hlogs
    · rw [if_neg is_time] at hlogs
      simpa [is_time] using hlogs

theorem pass_logs (hwriter : s.handles .sdWrite = true) (c : Conversion) (e : Pass) :
    Logs (s.reconciliation e ++ s.systemTimes e) s (s.pass c e) := by
  have hheard := s.heard_logs hwriter c e
  rw [pass_eq]
  split
  · exact hheard
  · have hlogs := hheard.trans (fire_logs _ (tickMs e.resumed) e.fire)
    rw [List.append_nil] at hlogs
    exact ⟨hlogs.records, hlogs.handles⟩

theorem run_logs {c : Conversion} : ∀ {es : List Pass} {s s' : TaskMavlink}, s.handles .sdWrite = true →
    run (step c) s es = some s' → Logs (clockEvents c s es) s s'
  | [], _, _, _, h => by
    cases h
    exact Logs.of_recorded rfl rfl
  | e :: es, s, s', hwriter, h => by
    obtain ⟨m, hstep, hrun⟩ := Option.bind_eq_some_iff.1 h
    have hpass := s.pass_logs hwriter c e
    rw [pass_of_step hstep] at hpass
    -- the writer's handle is among what a pass keeps, so the rest of the run has one too
    have hrest := run_logs ((congrFun hpass.handles _).trans hwriter) hrun
    rw [← pass_of_step hstep] at hpass hrest
    exact hpass.trans hrest

/-- Every run of passes with a writer behind the queue, from any state, with whatever messages, readings and
time: the `TIME` records offered are one for each event of the clock in which the internal RTC was written or
the source changed, in order, each with the source held behind its event. An event is one of those exactly if
it has an offer that is accepted and does not repeat the held second from the held source; a push into the
DS1307 has no offer, and a call that answers no is none of them. -/
theorem jumps_logged {c : Conversion} {es : List Pass} {s s' : TaskMavlink} (hwriter : s.handles .sdWrite = true)
    (h : run (step c) s es = some s') :
    s'.timeSources = s.timeSources ++ ((clockEvents c s es).filter fun x => x.Jumps).map
        (fun x => UInt8.ofNat x.after.source.rank) ∧
      ∀ x ∈ clockEvents c s es, (x.Jumps ↔ ∃ o ∈ x.offer, x.Takes o ∧ ¬ x.Repeats o) ∧
        (x.answered.1 = false → ¬ x.Jumps) := by
  refine ⟨(run_logs hwriter h).records, fun x _ => ⟨x.jumps_iff, fun hrefused hjumps => ?_⟩⟩
  rw [x.answered_of_jumps hjumps] at hrefused
  cases hrefused

/-- The ground sends a time, and the same one again: one record, from the ground. -/
theorem jumps_logged_repeated :
    ∃ s', run (step .vcvt) freshStart.task [quietPass 1000 (some (groundTime 1800000000000000)),
      quietPass 1500 (some (groundTime 1800000000000000))] = some s' ∧ s'.timeSources = [0] := by
  have hrun : ∃ s', run (step .vcvt) freshStart.task [quietPass 1000 (some (groundTime 1800000000000000)),
      quietPass 1500 (some (groundTime 1800000000000000))] = some s' := ⟨_, rfl⟩
  obtain ⟨s', hrun⟩ := hrun
  refine ⟨s', hrun, ?_⟩
  obtain ⟨hlogged, -⟩ := jumps_logged (by rfl) hrun
  rw [hlogged]
  decide +kernel

end TaskMavlink

end BoredomOS.Link
