/-
What each part of a pass of `TaskMavlink` does to its state, said once as an equation between the
states or as the few forms the state can take; the properties of the replies, the schedules, the queues
and the clock are all read off here. A send adds one item of its own message on its port, and beyond
that only time passes.
-/
import BoredomOS.Link.Housekeeping
import BoredomOS.Link.Queues

namespace BoredomOS.Link

open Clock (Drift SetOutcome Source)
open Log (LogRequestKind SdLogRequestPayload SdRecord SdWriteQueue)
open Steps

/-- The message a function sends. -/
def SendFunction.msgid : SendFunction → UInt16
  | .sendHeartbeat => 0
  | .sendSysStatus => 1
  | .sendSystemTime => 2
  | .sendBatteryStatus => 147
  | .sendAutopilotVersion => 148
  | .sendHousekeeping => 252
  | .sendBootStatement => 253
  | .sendProtocolVersion => 300

/-- An item `mavlinkPack` turns into the message of this id, whenever it is packed. -/
def LinkMsg.PackedAs (m : LinkMsg) (id : UInt16) : Prop := ∀ st, (message st m).msgid = id

def LinkMsg.isCommandAck : LinkMsg → Bool
  | .commandAck _ => true
  | _ => false

/-- A text that reports where the clock's time comes from. -/
def LinkMsg.isClockText (m : LinkMsg) : Bool :=
  [Source.ground, .ds1307, .survived, .none].any fun source => [true, false].any fun found =>
    m = Link.sendStatusText (TaskMavlink.clockStatusText source found) TaskMavlink.severityInfo

@[simp] theorem isCommandAck_commandAck (m : CommandAck) : (LinkMsg.commandAck m).isCommandAck = true := rfl

@[simp] theorem isClockText_commandAck (m : CommandAck) : (LinkMsg.commandAck m).isClockText = false := rfl

/-- An item that answers something or is due, other than an acknowledgement or a text about the clock. -/
def LinkMsg.Plain (m : LinkMsg) : Prop := m.isCommandAck = false ∧ m.isClockText = false

theorem severity_ne : severityCritical ≠ TaskMavlink.severityInfo ∧ TaskMavlink.severityWarning ≠ TaskMavlink.severityInfo := by
  decide

/-- The texts about the clock are the ones of their severity. -/
theorem plain_statusText {m : StatusText} (h : m.severity ≠ TaskMavlink.severityInfo) : (LinkMsg.statusText m).Plain := by
  constructor
  · rfl
  · rw [LinkMsg.isClockText, List.any_eq_false]
    intro source _ hany
    obtain ⟨found, -, heq⟩ := List.any_eq_true.1 hany
    cases of_decide_eq_true heq
    exact h rfl

namespace TaskMavlink

variable (s : TaskMavlink)

/-! ## Sends -/

theorem clock_spec {α : Type} {call : Prog Clock.SystemTime α} (hcall : ∀ t, Prog.Keeps (Drift t) call) (r : Readings) :
    ∃ t, Drift s.systemTime t ∧ (s.clock call r).2 = { s with systemTime := t } :=
  ⟨_, Clock.drift_runWith hcall r.meanwhile 0 s.systemTime, rfl⟩

/-- One item of the function's own message, on the port it is called for; only housekeeping moves the
cursor, and only that port's. -/
theorem call_spec (function : SendFunction) (port : Fin 2) (r : Readings) :
    ∃ m t cursor, m.PackedAs function.msgid ∧ m.Plain ∧ Drift s.systemTime t ∧
      (function ≠ .sendHousekeeping → cursor = s.housekeepingCursor port) ∧
      s.call function port r = { s.enqueueWrite port m r with
        systemTime := t, housekeepingCursor := Function.update s.housekeepingCursor port cursor } := by
  have hstill : ∀ m : LinkMsg, m.PackedAs function.msgid → m.Plain → s.call function port r = s.enqueueWrite port m r →
      ∃ m t cursor, m.PackedAs function.msgid ∧ m.Plain ∧ Drift s.systemTime t ∧
        (function ≠ .sendHousekeeping → cursor = s.housekeepingCursor port) ∧
        s.call function port r = { s.enqueueWrite port m r with
          systemTime := t, housekeepingCursor := Function.update s.housekeepingCursor port cursor } := by
    intro m hm hplain hcall
    refine ⟨m, s.systemTime, s.housekeepingCursor port, hm, hplain, Drift.refl _, fun _ => rfl, ?_⟩
    rw [hcall, Function.update_eq_self]
    rfl
  cases function with
  | sendHeartbeat => exact hstill _ (fun _ => rfl) ⟨rfl, rfl⟩ rfl
  | sendBatteryStatus => exact hstill _ (fun _ => rfl) ⟨rfl, rfl⟩ rfl
  | sendSysStatus => exact hstill _ (fun _ => rfl) ⟨rfl, rfl⟩ rfl
  | sendAutopilotVersion => exact hstill _ (fun _ => rfl) ⟨rfl, rfl⟩ rfl
  | sendProtocolVersion => exact hstill _ (fun _ => rfl) ⟨rfl, rfl⟩ rfl
  | sendBootStatement => exact hstill _ (fun _ => rfl) (plain_statusText severity_ne.1) rfl
  | sendSystemTime =>
    by_cases hnone : s.systemTime.source = .none
    · refine hstill (.systemTime { unixUsec := 0, bootMs := r.tickCount }) (fun _ => rfl) ⟨rfl, rfl⟩ ?_
      simp only [call, sendSystemTime, if_pos hnone]
      rfl
    · obtain ⟨t, hdrift, hclock⟩ := s.clock_spec (fun t => Clock.keeps_drift_getUnixTimeUsecIn t 4) r
      refine ⟨.systemTime { unixUsec := UInt64.ofNat (s.clock Clock.getUnixTimeUsec r).1, bootMs := r.tickCount }, t, _,
        fun _ => rfl, ⟨rfl, rfl⟩, hdrift, fun _ => rfl, ?_⟩
      simp only [call, sendSystemTime, if_neg hnone]
      rw [show (s.clock Clock.getUnixTimeUsec r).2 = _ from hclock, Function.update_eq_self]
      rfl
  | sendHousekeeping =>
    obtain ⟨slot, cursor, hnext, -, -⟩ := s.nextHousekeepingValue_spec port r
    refine ⟨.namedValueInt { name := Log.chars 10 (slotName slot), value := (slotValue r slot).toInt32 }, s.systemTime, cursor,
      fun _ => rfl, ⟨rfl, rfl⟩, Drift.refl _, fun h => absurd rfl h, ?_⟩
    simp only [call, sendHousekeeping, hnext]
    rfl

/-! ## The log's records -/

/-- Records sent to `sdWriteQueue`, none of them a request. -/
structure Recorded (found : Set Readings) (records : List SdRecord) (q q' : SdWriteQueue) : Prop where
  no_request : ∀ x ∈ records, x.isRequest = false
  sent : SdSent found records q q'

theorem Recorded.nothing (found : Set Readings) (q : SdWriteQueue) : Recorded found [] q q :=
  ⟨fun _ h => absurd h List.not_mem_nil, .nothing q⟩

theorem record_spec (x : Option SdRecord) (r : Readings) {found : Set Readings} (hr : r ∈ found) :
    ∃ q, SdSent found x.toList s.sdWriteQueue q ∧
      s.record x r = { s with sdWriteQueue := q, recorded := s.recorded ++ x.toList } := by
  refine ⟨(s.record x r).sdWriteQueue, (Sends.record s x hr).sdWriteQueue, ?_⟩
  cases x with
  | some x => rfl
  | none => simp [record]

/-- A clock record, or none, behind what was recorded before; it is no request. -/
theorem logClock_spec (r : Nat → Readings) :
    ∃ t q records, Drift s.systemTime t ∧ Recorded (Set.range r) records s.sdWriteQueue q ∧
      s.logClock r = { s with systemTime := t, sdWriteQueue := q, recorded := s.recorded ++ records } := by
  unfold logClock
  split
  · exact ⟨s.systemTime, s.sdWriteQueue, [], Drift.refl _, .nothing _ _, by rw [List.append_nil]⟩
  · obtain ⟨t₁, h₁, hclock₁⟩ := s.clock_spec Clock.keeps_drift_sinceBootUsec (r 3)
    obtain ⟨t₂, h₂, hclock₂⟩ := { s with systemTime := t₁ }.clock_spec Clock.keeps_drift_getUnixTime (r 4)
    dsimp only
    rw [hclock₁, hclock₂]
    obtain ⟨q, hsent, hrecord⟩ := { s with systemTime := t₂ }.record_spec
      (Log.logClock true (UInt64.ofNat (s.clock Clock.sinceBootUsec (r 3)).1)
        (UInt64.ofNat ({ s with systemTime := t₁ }.clock Clock.getUnixTime (r 4)).1) (UInt8.ofNat t₂.source.rank)) (r 4)
      (Set.mem_range_self 4)
    exact ⟨t₂, q, _, h₁.trans h₂, ⟨by simp [Log.logClock, SdRecord.isRequest], hsent⟩, hrecord⟩

theorem logClockIf_spec (wanted : Bool) (r : Nat → Readings) :
    ∃ t q records, Drift s.systemTime t ∧ Recorded (Set.range r) records s.sdWriteQueue q ∧
      (if wanted then s.logClock r else s) =
        { s with systemTime := t, sdWriteQueue := q, recorded := s.recorded ++ records } := by
  cases wanted with
  | true => exact s.logClock_spec r
  | false => exact ⟨s.systemTime, s.sdWriteQueue, [], Drift.refl _, .nothing _ _, by simp⟩

theorem recordBattery_spec (now : UInt32) (r : Readings) :
    ∃ t q records last, Drift s.systemTime t ∧ Recorded {r} records s.sdWriteQueue q ∧
      s.recordBattery now r =
        { s with systemTime := t, sdWriteQueue := q, recorded := s.recorded ++ records, lastBatteryLogMs := last } := by
  have hsame : ∀ last, ∃ t q records last', Drift s.systemTime t ∧ Recorded {r} records s.sdWriteQueue q ∧
      { s with lastBatteryLogMs := last } =
        { s with systemTime := t, sdWriteQueue := q, recorded := s.recorded ++ records, lastBatteryLogMs := last' } :=
    fun last => ⟨s.systemTime, s.sdWriteQueue, [], last, Drift.refl _, .nothing _ _, by rw [List.append_nil]⟩
  unfold recordBattery
  split
  swap
  · exact hsame s.lastBatteryLogMs
  unfold logBattery
  split
  · exact hsame _
  rename_i hgate
  have hread : r.millivolts ≠ 0 := by
    intro h0
    simp [h0] at hgate
  obtain ⟨t, h, hclock⟩ := { s with lastBatteryLogMs := s.lastBatteryLogMs + kBatteryLogIntervalMs }.clock_spec
    Clock.keeps_drift_sinceBootUsec r
  dsimp only
  rw [hclock]
  obtain ⟨q, hsent, hrecord⟩ := { s with systemTime := t, lastBatteryLogMs := s.lastBatteryLogMs + kBatteryLogIntervalMs }.record_spec
    (Log.logBattery true r.millivolts (UInt64.ofNat ({ s with
      lastBatteryLogMs := s.lastBatteryLogMs + kBatteryLogIntervalMs }.clock Clock.sinceBootUsec r).1) r.remaining) r
    (Set.mem_singleton r)
  exact ⟨t, q, _, _, h, ⟨by simp [Log.logBattery, hread, SdRecord.isRequest], hsent⟩, hrecord⟩

/-! ## The clock -/

/-- What a change of the source makes of the state: the two texts of it, or nothing. -/
def reportChange (t : Clock.SystemTime) (r : Nat → Readings) : TaskMavlink :=
  if t.source = s.systemTime.source then s else { s with systemTime := t }.sendClockStatusText r

theorem reportChange_frame (t : Clock.SystemTime) (r : Nat → Readings) :
    (s.reportChange t r).recorded = s.recorded ∧ (s.reportChange t r).schedule = s.schedule ∧
      (s.reportChange t r).housekeepingCursor = s.housekeepingCursor ∧ (s.reportChange t r).running = s.running := by
  unfold reportChange
  split
  · exact ⟨rfl, rfl, rfl, rfl⟩
  · exact ⟨rfl, rfl, rfl, rfl⟩

theorem reportChange_sdWriteQueue (t : Clock.SystemTime) (r : Nat → Readings) :
    (s.reportChange t r).sdWriteQueue = s.sdWriteQueue := by
  unfold reportChange
  split <;> rfl

/-- The texts look at nothing that time changes. -/
theorem sendClockStatusText_drift {t₁ t₂ : Clock.SystemTime} (h : Drift t₁ t₂) (q : SdWriteQueue) (records : List SdRecord)
    (r : Nat → Readings) :
    { s with systemTime := t₂, sdWriteQueue := q, recorded := records }.sendClockStatusText r =
      { { s with systemTime := t₁ }.sendClockStatusText r with
        systemTime := t₂, sdWriteQueue := q, recorded := records } := by
  unfold sendClockStatusText
  dsimp only
  rw [h.source, h.foundRunning]
  rfl

theorem sendClockStatusText_lastReseedMs (last : UInt32) (r : Nat → Readings) :
    { s with lastReseedMs := last }.sendClockStatusText r = { s.sendClockStatusText r with
      systemTime := s.systemTime, lastReseedMs := last } := by
  unfold sendClockStatusText
  rfl

/-- A `SYSTEM_TIME` is a set from the ground, with a text on both ports if the source changed by it. -/
theorem onSystemTime_spec (unixUsec : UInt64) (r : Nat → Readings) :
    ∃ answer t₁ t₂ q records,
      (s.clock (Clock.setUnixTime (unixUsec / 1000000).toNat .ground) (r 0)).1 = answer ∧
      SetOutcome (r 0).meanwhile 0 (unixUsec / 1000000).toNat .ground s.systemTime answer t₁ ∧ Drift t₁ t₂ ∧
      Recorded (Set.range r) records s.sdWriteQueue q ∧
      s.onSystemTime unixUsec r = { s.reportChange t₁ r with
        systemTime := t₂, sdWriteQueue := q, recorded := s.recorded ++ records } := by
  have hset := Clock.setUnixTime_cases (r 0).meanwhile 0 (unixUsec / 1000000).toNat .ground s.systemTime
  unfold onSystemTime clock
  dsimp only
  generalize (Clock.setUnixTime (unixUsec / 1000000).toNat .ground).runWith (r 0).meanwhile.move 0 s.systemTime = o at hset ⊢
  obtain ⟨⟨accepted, clockMoved⟩, n, t₁⟩ := o
  dsimp only at hset ⊢
  cases accepted with
  | false =>
    have hsource : t₁.source = s.systemTime.source := by
      cases hset with
      | refused _ hdrift => exact hdrift.source
    refine ⟨(false, clockMoved), t₁, t₁, s.sdWriteQueue, [], rfl, hset, Drift.refl _, .nothing _ _, ?_⟩
    simp [reportChange, hsource]
  | true =>
    obtain ⟨t₂, q, records, hdrift, hrecords, hlog⟩ := { s with systemTime := t₁ }.logClockIf_spec
      (clockMoved || t₁.source ≠ s.systemTime.source) r
    refine ⟨(true, clockMoved), t₁, t₂, q, records, rfl, hset, hdrift, hrecords, ?_⟩
    rw [if_pos rfl, hlog]
    dsimp only
    unfold reportChange
    rw [hdrift.source]
    by_cases hsource : t₁.source = s.systemTime.source
    · simp [hsource]
    · rw [if_neg hsource, if_pos hsource]
      exact s.sendClockStatusText_drift hdrift q (s.recorded ++ records) r

/-- What a reconciliation does to the clock: a push from a ground-set one, a set from the DS1307 otherwise. -/
inductive Reconciled (m : Clock.Meanwhile) (t : Clock.SystemTime) : Clock.SystemTime → Prop
  | pushed {t' : Clock.SystemTime} (ground : t.source = .ground) (drift : Drift t t') : Reconciled m t t'
  | absent {t' : Clock.SystemTime} (absent : t.ds1307Present = false) (drift : Drift t t') : Reconciled m t t'
  | seeded {answer : Bool × Bool} {t' : Clock.SystemTime} (not_ground : t.source ≠ .ground) (present : t.ds1307Present = true)
      (set : SetOutcome m 2 (m.move 1 (m.move 0 t)).ds1307Now .ds1307 (m.move 1 (m.move 0 t)) answer t') : Reconciled m t t'

theorem reconcile_early {now : UInt32} (h : now - s.lastReseedMs < kClockReseedIntervalMs) (r : Nat → Readings) :
    s.reconcile now r = s := if_pos h

/-- The answer of a reseed, with the clock it leaves. -/
theorem reseed_spec (m : Clock.Meanwhile) (t : Clock.SystemTime) (hground : t.source ≠ .ground) :
    Reconciled m t (Clock.reseedFromDs1307.runWith m.move 0 t).2.2 ∧
      ((Clock.reseedFromDs1307.runWith m.move 0 t).1.1 = false →
        (Clock.reseedFromDs1307.runWith m.move 0 t).1 = (false, false) ∧
          (Clock.reseedFromDs1307.runWith m.move 0 t).2.2.source = t.source) := by
  rw [Clock.reseedFromDs1307_runWith]
  have hdrift : Drift t (m.move 0 t) := (Drift.refl t).move m 0
  cases hpresent : t.ds1307Present with
  | false =>
    refine ⟨.absent hpresent hdrift, fun _ => ⟨rfl, hdrift.source⟩⟩
  | true =>
    rw [if_pos rfl]
    have hset := Clock.setUnixTime_cases m 2 (m.move 1 (m.move 0 t)).ds1307Now .ds1307 (m.move 1 (m.move 0 t))
    refine ⟨.seeded hground hpresent hset, fun hrefused => ?_⟩
    generalize (Clock.setUnixTime (m.move 1 (m.move 0 t)).ds1307Now .ds1307).runWith m.move 2 (m.move 1 (m.move 0 t)) = o
      at hset hrefused ⊢
    obtain ⟨⟨accepted, clockMoved⟩, n, t'⟩ := o
    cases hrefused
    cases hset with
    | refused _ hd => exact ⟨rfl, hd.source.trans (hdrift.move m 1).source⟩

theorem reconcile_spec {now : UInt32} (h : ¬ now - s.lastReseedMs < kClockReseedIntervalMs) (r : Nat → Readings) :
    ∃ t₁ t₂ q records, Reconciled (r 0).meanwhile s.systemTime t₁ ∧ Drift t₁ t₂ ∧
      Recorded (Set.range r) records s.sdWriteQueue q ∧
      s.reconcile now r = { s.reportChange t₁ r with
        systemTime := t₂, sdWriteQueue := q, recorded := s.recorded ++ records
        lastReseedMs := s.lastReseedMs + kClockReseedIntervalMs } := by
  unfold reconcile
  rw [if_neg h]
  dsimp only
  by_cases hground : s.systemTime.source = .ground
  · -- the DS1307 is written, and nothing is reported
    have hdrift := Clock.drift_runWith Clock.keeps_drift_pushToDs1307 (r 0).meanwhile 0 s.systemTime
    unfold clock
    simp only [if_pos hground]
    refine ⟨_, _, s.sdWriteQueue, [], .pushed hground hdrift, Drift.refl _, .nothing _ _, ?_⟩
    simp [reportChange, hdrift.source, hground]
  · obtain ⟨hreconciled, hrefused⟩ := reseed_spec (r 0).meanwhile s.systemTime hground
    unfold clock
    simp only [if_neg hground]
    generalize Clock.reseedFromDs1307.runWith (r 0).meanwhile.move 0 s.systemTime = o at hreconciled hrefused ⊢
    obtain ⟨⟨reconciled, clockMoved⟩, n, t₁⟩ := o
    cases reconciled with
    | false =>
      obtain ⟨hanswer, hsource⟩ := hrefused rfl
      cases hanswer
      refine ⟨t₁, t₁, s.sdWriteQueue, [], hreconciled, Drift.refl _, .nothing _ _, ?_⟩
      dsimp only at hsource
      simp [reportChange, hsource]
    | true =>
      obtain ⟨t₂, q, records, hdrift, hrecords, hlog⟩ := { s.reportChange t₁ r with
        systemTime := t₁, lastReseedMs := s.lastReseedMs + kClockReseedIntervalMs }.logClockIf_spec
          (clockMoved || t₁.source ≠ s.systemTime.source) r
      dsimp only at hrecords
      rw [reportChange_sdWriteQueue] at hrecords
      refine ⟨t₁, t₂, q, records, hreconciled, hdrift, hrecords, ?_⟩
      have htexts : (if decide (t₁.source ≠ s.systemTime.source) = true then
          { s with systemTime := t₁, lastReseedMs := s.lastReseedMs + kClockReseedIntervalMs }.sendClockStatusText r
          else { s with systemTime := t₁, lastReseedMs := s.lastReseedMs + kClockReseedIntervalMs }) =
          { s.reportChange t₁ r with
            systemTime := t₁, lastReseedMs := s.lastReseedMs + kClockReseedIntervalMs } := by
        unfold reportChange
        by_cases hsource : t₁.source = s.systemTime.source
        · simp [hsource]
        · simp only [hsource, ne_eq, not_false_eq_true, decide_true, if_true, if_false]
          exact { s with systemTime := t₁ }.sendClockStatusText_lastReseedMs _ r
      dsimp only at hlog ⊢
      rw [Bool.true_and, htexts]
      refine hlog.trans ?_
      unfold reportChange
      split <;> rfl

/-! ## A command -/

/-- The commands whose acknowledgement comes with a second item: the capabilities, a message that is
sent on request now, and the interval of any id. -/
def answersTwice (c : Conversion) (port : Fin 2) (command : CommandLong) : Bool :=
  if command.command = cmdRequestAutopilotCapabilities then true
  else if command.command = cmdRequestMessage then
    match (messageIdFromParam c command.param1).bind findMessage with
    | some entry => entry.send.isSome && !entry.scheduleRow.any fun row => !(s.schedule port row).enabled
    | none => false
  else if command.command = cmdGetMessageInterval then (messageIdFromParam c command.param1).isSome
  else false

/-- A housekeeping row as `MAV_CMD_SET_MESSAGE_INTERVAL` leaves it. -/
def SetRow (now : UInt32) (before after : ScheduleEntry) : Prop :=
  after = { before with enabled := false } ∨
    ∃ ms : UInt32, 1000 ≤ ms ∧ ms.toNat * 1000 < 2 ^ 31 ∧
      after = { before with intervalMs := ms, lastMs := now, enabled := true }

/-- The forms the state takes after a command: one acknowledgement, together with a set row, the marker
of a reboot or a second item that goes before it or after it. -/
inductive Commanded (c : Conversion) (now : UInt32) (port : Fin 2) (command : CommandLong) (r : Nat → Readings)
    (s : TaskMavlink) : TaskMavlink → Prop
  | acknowledged (result : UInt8) (once : s.answersTwice c port command = false) :
      Commanded c now port command r s (s.sendCommandAck port command.command result (r 0))
  | scheduled (result : UInt8) (entry : ScheduleEntry) (once : s.answersTwice c port command = false)
      (set : SetRow now (s.schedule port kHousekeepingScheduleIndex) entry) (is_set : command.command = cmdSetMessageInterval) :
      Commanded c now port command r s
        ((s.setRow port kHousekeepingScheduleIndex entry).sendCommandAck port command.command result (r 0))
  | rebooted (once : s.answersTwice c port command = false) (is_reboot : command.command = cmdPreflightRebootShutdown) :
      Commanded c now port command r s
        { s.sendCommandAck port command.command resultAccepted (r 0) with
          regs := (Recovery.rebootCommand.run s.regs).2
          running := { s.running with resetting := some .commanded } }
  | preceded (m : LinkMsg) (twice : s.answersTwice c port command = true) (companion : m.Plain) :
      Commanded c now port command r s
        ((s.enqueueWrite port m (r 0)).sendCommandAck port command.command resultAccepted (r 1))
  | followed (m : LinkMsg) (t : Clock.SystemTime) (twice : s.answersTwice c port command = true) (companion : m.Plain)
      (drift : Drift s.systemTime t) :
      Commanded c now port command r s
        { (s.sendCommandAck port command.command resultAccepted (r 0)).enqueueWrite port m (r 1) with systemTime := t }

theorem requestedMs_lt {us : Int32} (h : ¬ us ≤ 0) : (us.toUInt32 / 1000).toNat * 1000 < 2 ^ 31 := by
  have hlt := us.toNatClampNeg_lt
  rw [UInt32.toNat_div, Int32.toNat_toUInt32_of_le (Int32.le_of_lt (Int32.not_le.1 h)), show (1000 : UInt32).toNat = 1000 from rfl]
  omega

/-- An entry of `kMessages` sends the message of its id, and none sends housekeeping. -/
theorem kMessages_send : ∀ entry ∈ kMessages, ∀ send ∈ entry.send, send ≠ .sendHousekeeping ∧ send.msgid = entry.id := by
  decide

theorem findMessage_send {id : UInt16} {entry : MessageEntry} (h : findMessage id = some entry) :
    entry.id = id ∧ ∀ send ∈ entry.send, send ≠ .sendHousekeeping ∧ send.msgid = id := by
  have hid : entry.id = id := by simpa using List.find?_some h
  have hmem := List.mem_of_find?_eq_some h
  rw [← hid]
  exact ⟨rfl, kMessages_send entry hmem⟩

theorem setMessageInterval_cases (c : Conversion) (now : UInt32) (port : Fin 2) (command : CommandLong) (r : Nat → Readings)
    (h : command.command = cmdSetMessageInterval) :
    Commanded c now port command r s (s.setMessageInterval c now port command r) := by
  have honce : s.answersTwice c port command = false := by
    unfold answersTwice
    rw [h]
    rfl
  unfold setMessageInterval
  rw [← h]
  split
  · dsimp only
    split
    · exact .scheduled resultAccepted _ honce (Or.inl rfl) h
    · rename_i hpositive
      split
      · exact .acknowledged resultDenied honce
      · rename_i hfloor
        exact .scheduled resultAccepted _ honce (Or.inr ⟨_, UInt32.not_lt.1 hfloor, requestedMs_lt hpositive, rfl⟩) h
  · exact .acknowledged resultDenied honce

theorem requestMessage_cases (c : Conversion) (now : UInt32) (port : Fin 2) (command : CommandLong) (r : Nat → Readings)
    (h : command.command = cmdRequestMessage) :
    Commanded c now port command r s (s.requestMessage c port command r) := by
  have htwice : s.answersTwice c port command = match (messageIdFromParam c command.param1).bind findMessage with
      | some entry => entry.send.isSome && !entry.scheduleRow.any fun row => !(s.schedule port row).enabled
      | none => false := by
    unfold answersTwice
    rw [h]
    rfl
  unfold requestMessage
  rw [← h]
  cases hentry : (messageIdFromParam c command.param1).bind findMessage with
  | none =>
    rw [hentry] at htwice
    exact .acknowledged resultDenied htwice
  | some entry =>
    rw [hentry] at htwice
    dsimp only at htwice ⊢
    cases hsend : entry.send with
    | none =>
      rw [hsend] at htwice
      exact .acknowledged resultDenied htwice
    | some send =>
      rw [hsend] at htwice
      dsimp only
      split
      · rename_i hwithheld
        exact .acknowledged resultTemporarilyRejected (by rw [htwice, hwithheld]; rfl)
      · rename_i hrow
        obtain ⟨id, -, hid⟩ := Option.bind_eq_some_iff.1 hentry
        have hne := ((findMessage_send hid).2 send hsend).1
        obtain ⟨m, t, cursor, -, hplain, hdrift, hcursor, hcall⟩ :=
          (s.sendCommandAck port command.command resultAccepted (r 0)).call_spec send port (r 1)
        rw [hcall, hcursor hne, Function.update_eq_self]
        exact .followed m t (by rw [htwice]; simpa using hrow) hplain hdrift

theorem getMessageInterval_cases (c : Conversion) (now : UInt32) (port : Fin 2) (command : CommandLong) (r : Nat → Readings)
    (h : command.command = cmdGetMessageInterval) :
    Commanded c now port command r s (s.getMessageInterval c port command r) := by
  have htwice : s.answersTwice c port command = (messageIdFromParam c command.param1).isSome := by
    unfold answersTwice
    rw [h]
    rfl
  unfold getMessageInterval
  rw [← h]
  cases hid : messageIdFromParam c command.param1 with
  | none => exact .acknowledged resultDenied (by rw [htwice, hid]; rfl)
  | some id => exact .followed _ s.systemTime (by rw [htwice, hid]; rfl) ⟨rfl, rfl⟩ (Drift.refl _)

theorem commandLong_cases (c : Conversion) (now : UInt32) (port : Fin 2) (command : CommandLong) (r : Nat → Readings) :
    Commanded c now port command r s (s.commandLong c now port command r) := by
  unfold commandLong
  split
  · rename_i h
    exact .preceded .autopilotVersion (by simp [answersTwice, h]) ⟨rfl, rfl⟩
  rename_i hcapabilities
  split
  · rename_i h
    unfold preflightRebootShutdown
    rw [← h]
    exact .rebooted (by rw [answersTwice, h]; rfl) h
  split
  · rename_i h
    exact s.setMessageInterval_cases c now port command r h
  split
  · rename_i h
    exact s.requestMessage_cases c now port command r h
  rename_i hrequest
  split
  · rename_i h
    exact s.getMessageInterval_cases c now port command r h
  · rename_i hget
    exact .acknowledged resultUnsupported (by simp [answersTwice, hcapabilities, hrequest, hget])

/-! ## A message -/

/-- The port a request is to be answered on. -/
def answerPort : SdRecord → Option UInt8
  | .logList p => some p.port
  | .logRead p => some p.port
  | .logEnd p => some p.port
  | _ => none

/-- The forms the state takes after a message: as it was, one more item on its port, a request
forwarded for it, or what a command or a `SYSTEM_TIME` makes of it. -/
inductive Dispatched (c : Conversion) (now : UInt32) (inbound : InboundMsg) (r : Nat → Readings) (s : TaskMavlink) :
    TaskMavlink → Prop
  | silent (no_command : inbound.msg.msgid ≠ msgIdCommandLong) (no_time : inbound.msg.msgid ≠ msgIdSystemTime) :
      Dispatched c now inbound r s s
  | replied (m : LinkMsg) (t : Clock.SystemTime) (k : Nat) (no_command : inbound.msg.msgid ≠ msgIdCommandLong)
      (no_time : inbound.msg.msgid ≠ msgIdSystemTime) (reply : m.Plain)
      (drift : Drift s.systemTime t) :
      Dispatched c now inbound r s { s.enqueueWrite inbound.chan m (r k) with systemTime := t }
  | forwarded (requests : List SdRecord) (q : SdWriteQueue)
      (no_command : inbound.msg.msgid ≠ msgIdCommandLong) (no_time : inbound.msg.msgid ≠ msgIdSystemTime)
      (answers : ∀ x ∈ requests, answerPort x = some (UInt8.ofNat inbound.chan))
      (sent : SdSent (Set.range r) requests s.sdWriteQueue q) :
      Dispatched c now inbound r s { s with sdWriteQueue := q, recorded := s.recorded ++ requests }
  | commanded {s' : TaskMavlink} (is_command : inbound.msg.msgid = msgIdCommandLong)
      (effect : Commanded c now inbound.chan inbound.msg.commandLong r s s') : Dispatched c now inbound r s s'
  | timed (answer : Bool × Bool) (t₁ t₂ : Clock.SystemTime) (q : SdWriteQueue) (records : List SdRecord)
      (is_time : inbound.msg.msgid = msgIdSystemTime)
      (answered : (s.clock (Clock.setUnixTime (inbound.msg.systemTimeUnixUsec / 1000000).toNat .ground) (r 0)).1 = answer)
      (set : SetOutcome (r 0).meanwhile 0 (inbound.msg.systemTimeUnixUsec / 1000000).toNat .ground s.systemTime answer t₁)
      (drift : Drift t₁ t₂) (recorded : Recorded (Set.range r) records s.sdWriteQueue q) :
      Dispatched c now inbound r s { s.reportChange t₁ r with
        systemTime := t₂, sdWriteQueue := q, recorded := s.recorded ++ records }

theorem answerPort_record (kind : LogRequestKind) (p : SdLogRequestPayload) : answerPort (kind.record p) = some p.port := by
  cases kind <;> rfl

theorem forwardLogRequest_cases (c : Conversion) (now : UInt32) (inbound : InboundMsg) (r : Nat → Readings)
    (no_command : inbound.msg.msgid ≠ msgIdCommandLong) (no_time : inbound.msg.msgid ≠ msgIdSystemTime)
    (kind : LogRequestKind) (start «end» : UInt16) (ofs count : UInt32) :
    Dispatched c now inbound r s (s.forwardLogRequest kind inbound.chan start «end» ofs count (r 0)) := by
  let p : SdLogRequestPayload := { ofs, count, start, «end», port := UInt8.ofNat inbound.chan }
  have hanswers : ∀ x ∈ if Log.uxQueueSpacesAvailable ((r 0).sdWriteQueue s.sdWriteQueue) < 2 then [] else [kind.record p],
      answerPort x = some p.port := by
    intro x hx
    split at hx
    · cases hx
    · rw [List.mem_singleton.1 hx, answerPort_record]
  obtain ⟨-, -, hrecorded, hsent⟩ :=
    Sends.forwardLogRequest s kind inbound.chan start «end» ofs count (Set.mem_range_self 0 : r 0 ∈ Set.range r)
  have hforwarded : Dispatched c now inbound r s { s with sdWriteQueue := _, recorded := _ } :=
    .forwarded _ _ no_command no_time hanswers hsent
  rwa [← hrecorded] at hforwarded

/-- An item that goes out at once, with the clock as it was. -/
theorem replied_at_once (c : Conversion) (now : UInt32) (inbound : InboundMsg) (r : Nat → Readings) (m : LinkMsg)
    (no_command : inbound.msg.msgid ≠ msgIdCommandLong) (no_time : inbound.msg.msgid ≠ msgIdSystemTime)
    (reply : m.Plain) : Dispatched c now inbound r s (s.enqueueWrite inbound.chan m (r 0)) :=
  .replied m s.systemTime 0 no_command no_time reply (Drift.refl _)

theorem onTimesync_cases (c : Conversion) (now : UInt32) (inbound : InboundMsg) (r : Nat → Readings)
    (no_command : inbound.msg.msgid ≠ msgIdCommandLong) (no_time : inbound.msg.msgid ≠ msgIdSystemTime) :
    Dispatched c now inbound r s (s.onTimesync inbound.chan inbound.msg.timesync r) := by
  unfold onTimesync
  split
  · obtain ⟨t, hdrift, hclock⟩ := s.clock_spec Clock.keeps_drift_sinceBootUsec (r 0)
    dsimp only
    rw [hclock]
    exact .replied _ t 1 no_command no_time ⟨rfl, rfl⟩ hdrift
  · exact .silent no_command no_time

theorem dispatch_cases (c : Conversion) (now : UInt32) (inbound : InboundMsg) (r : Nat → Readings) :
    Dispatched c now inbound r s (s.dispatch c now inbound r) := by
  unfold dispatch
  dsimp only
  split
  · rename_i h
    have hcommand : msgIdCommandLong ∉ ignored := by decide
    have htime : msgIdSystemTime ∉ ignored := by decide
    exact .silent (fun e => hcommand (e ▸ h)) (fun e => htime (e ▸ h))
  split
  · rename_i h
    exact .commanded h (s.commandLong_cases c now inbound.chan inbound.msg.commandLong r)
  rename_i no_command
  by_cases no_time : inbound.msg.msgid = msgIdSystemTime
  · obtain ⟨answer, t₁, t₂, q, records, hanswer, hset, hdrift, hrecords, htime⟩ := s.onSystemTime_spec inbound.msg.systemTimeUnixUsec r
    rw [no_time, if_neg (by decide), if_neg (by decide), if_neg (by decide), if_neg (by decide), if_pos rfl, htime]
    exact .timed answer t₁ t₂ q records no_time hanswer hset hdrift hrecords
  rw [if_neg no_time]
  split
  · exact s.replied_at_once c now inbound r _ no_command no_time ⟨rfl, rfl⟩
  split
  · split
    · exact s.replied_at_once c now inbound r _ no_command no_time ⟨rfl, rfl⟩
    · exact s.forwardLogRequest_cases c now inbound r no_command no_time .logList _ _ _ _
  split
  · split
    · exact s.replied_at_once c now inbound r _ no_command no_time ⟨rfl, rfl⟩
    · exact s.forwardLogRequest_cases c now inbound r no_command no_time .logRead _ _ _ _
  split
  · split
    · exact s.forwardLogRequest_cases c now inbound r no_command no_time .logEnd _ _ _ _
    · exact .silent no_command no_time
  split
  · exact s.onTimesync_cases c now inbound r no_command no_time
  · exact s.replied_at_once c now inbound r _ no_command no_time (plain_statusText severity_ne.2)

theorem dispatch_command (c : Conversion) (now : UInt32) {inbound : InboundMsg} (h : inbound.msg.msgid = msgIdCommandLong)
    (r : Nat → Readings) : s.dispatch c now inbound r = s.commandLong c now inbound.chan inbound.msg.commandLong r := by
  unfold dispatch
  dsimp only
  rw [if_neg (by rw [h]; decide), if_pos h]

theorem dispatch_systemTime (c : Conversion) (now : UInt32) {inbound : InboundMsg} (h : inbound.msg.msgid = msgIdSystemTime)
    (r : Nat → Readings) : s.dispatch c now inbound r = s.onSystemTime inbound.msg.systemTimeUnixUsec r := by
  unfold dispatch
  dsimp only
  rw [h, if_neg (by decide), if_neg (by decide), if_neg (by decide), if_neg (by decide), if_neg (by decide),
    if_neg (by decide), if_pos rfl]

section

variable (c : Conversion) (now : UInt32) (port : Fin 2) {command : CommandLong} (r : Nat → Readings)

theorem commandLong_set (h : command.command = cmdSetMessageInterval) :
    s.commandLong c now port command r = s.setMessageInterval c now port command r := by
  unfold commandLong
  rw [if_neg (by rw [h]; decide), if_neg (by rw [h]; decide), if_pos h]

theorem commandLong_request (h : command.command = cmdRequestMessage) :
    s.commandLong c now port command r = s.requestMessage c port command r := by
  unfold commandLong
  rw [if_neg (by rw [h]; decide), if_neg (by rw [h]; decide), if_neg (by rw [h]; decide), if_pos h]

theorem commandLong_get (h : command.command = cmdGetMessageInterval) :
    s.commandLong c now port command r = s.getMessageInterval c port command r := by
  unfold commandLong
  rw [if_neg (by rw [h]; decide), if_neg (by rw [h]; decide), if_neg (by rw [h]; decide), if_neg (by rw [h]; decide), if_pos h]

end

end TaskMavlink

end BoredomOS.Link
