/-
The reduced configuration does without the battery's sense. Of the three places that read it, the row is off,
the log's record is not taken and SYS_STATUS sends the values for a missing one; a request for BATTERY_STATUS is
turned down as long as its row is off. So two runs that differ in nothing but what the battery would have read
are the same run.
-/
import BoredomOS.Link.Queries

namespace BoredomOS.Link

open Runs

/-- A step's surroundings but for the battery. -/
def Readings.blind (r : Readings) : Readings := { r with millivolts := 0, remaining := 0 }

def Pass.blind (e : Pass) : Pass :=
  { e with
    reconcile := fun k => (e.reconcile k).blind
    battery := e.battery.blind
    dispatch := fun k => (e.dispatch k).blind
    fire := fun port row => (e.fire port row).blind }

def Start.blind (b : Start) : Start :=
  { b with boot := fun port => (b.boot port).blind, clock := fun k => (b.clock k).blind }

namespace TaskMavlink

/-- The configuration is the reduced one and neither port's battery row is on. -/
structure Withheld (s : TaskMavlink) : Prop where
  tables : s.Tables
  reduced : s.reducedConfiguration = true
  battery : ∀ port, (s.schedule port kBatteryScheduleIndex).enabled = false

variable {s : TaskMavlink}

/-! ## Nobody turns the row on -/

theorem Withheld.of_same {s' : TaskMavlink} (h : s.Withheld) (hschedule : s'.schedule = s.schedule)
    (hinfo : s'.running.info = s.running.info) : s'.Withheld := by
  refine ⟨⟨?_, ?_⟩, ?_, ?_⟩
  · rw [hschedule]
    exact h.tables.function
  · rw [hschedule]
    exact h.tables.interval
  · unfold reducedConfiguration
    rw [hinfo]
    exact h.reduced
  · rw [hschedule]
    exact h.battery

theorem dispatch_info (s : TaskMavlink) (c : Conversion) (now : UInt32) (inbound : InboundMsg) (r : Nat → Readings) :
    (s.dispatch c now inbound r).running.info = s.running.info := by
  have h := s.dispatch_cases c now inbound r
  generalize s.dispatch c now inbound r = s' at h ⊢
  cases h with
  | silent => rfl
  | replied => rfl
  | forwarded => rfl
  | timed answer t₁ => exact congrArg Recovery.Running.info (s.reportChange_frame t₁ r).2.2.2
  | commanded is_command effect => cases effect <;> rfl

theorem heard_info (s : TaskMavlink) (c : Conversion) (e : Pass) : (s.heard c e).running.info = s.running.info := by
  rw [← s.awaited_running e]
  unfold heard
  cases e.received with
  | none => rfl
  | some inbound => exact dispatch_info _ c _ inbound _

theorem endPass_info (s : TaskMavlink) (ended : Nat) : (s.endPass ended).running.info = s.running.info := by
  simp [endPass, Recovery.endOfPass]

theorem pass_info (s : TaskMavlink) (c : Conversion) (e : Pass) : (s.pass c e).running.info = s.running.info := by
  rw [pass_eq]
  split
  · exact s.heard_info c e
  · rw [endPass_info, (fire_frame _ _ _).1]
    exact s.heard_info c e

theorem withheld_heard (h : s.Withheld) (c : Conversion) (e : Pass) (port : Fin 2) :
    ((s.heard c e).schedule port kBatteryScheduleIndex).enabled = false := by
  rcases s.heard_schedule c e port kBatteryScheduleIndex with heq | ⟨⟨inbound, -, hset⟩, -⟩
  · rw [heq]
    exact h.battery port
  · exact absurd hset.2.1 (by decide)

theorem withheld_pass (h : s.Withheld) (c : Conversion) (e : Pass) : (s.pass c e).Withheld := by
  refine ⟨pass_tables h.tables c e, ?_, fun port => ?_⟩
  · unfold reducedConfiguration
    rw [pass_info]
    exact h.reduced
  · rcases s.pass_schedule c e port kBatteryScheduleIndex with heq | heq
    · rw [heq]
      exact withheld_heard h c e port
    · rw [heq]
      exact withheld_heard h c e port

/-- A row that fires stays on or off, and so do the others. -/
theorem withheld_fireRow (h : s.Withheld) (now : UInt32) (r : Fin 2 → Fin 5 → Readings) (x : Fin 2 × Fin 5) :
    (fireRow now r s x).Withheld := by
  have hrow : ∀ port row, (fireRow now r s x).schedule port row = s.schedule port row ∨
      (fireRow now r s x).schedule port row = (s.schedule port row).advance := by
    intro port row
    rw [s.fireRow_schedule now r x]
    by_cases hport : port = x.1
    · subst hport
      by_cases hx : row = x.2
      · subst hx
        rw [Function.update_self, Function.update_self]
        split
        · exact Or.inr rfl
        · exact Or.inl rfl
      · rw [Function.update_self, Function.update_of_ne hx]
        exact Or.inl rfl
    · rw [Function.update_of_ne hport]
      exact Or.inl rfl
  refine ⟨⟨fun port row => ?_, fun port row => ?_⟩, ?_, fun port => ?_⟩
  · rcases hrow port row with heq | heq <;> rw [heq] <;> exact h.tables.function port row
  · rcases hrow port row with heq | heq <;> rw [heq] <;> exact h.tables.interval port row
  · unfold reducedConfiguration
    rw [(s.fireRow_frame now r x).1]
    exact h.reduced
  · rcases hrow port kBatteryScheduleIndex with heq | heq <;> rw [heq] <;> exact h.battery port

/-! ## Nobody asks the battery -/

theorem nextHousekeepingValueIn_blind (port : Fin 2) (r : Readings) : ∀ (tries : Nat) (s : TaskMavlink),
    nextHousekeepingValueIn port r.blind tries s = nextHousekeepingValueIn port r tries s
  | 0, _ => rfl
  | tries + 1, s => by
    have hvalue : ∀ slot handles, housekeepingValue slot handles r.blind = housekeepingValue slot handles r := fun _ _ => rfl
    simp only [nextHousekeepingValueIn, hvalue, nextHousekeepingValueIn_blind port r tries]

theorem call_blind (hreduced : s.reducedConfiguration = true) {function : SendFunction}
    (hfunction : function ≠ .sendBatteryStatus) (port : Fin 2) (r : Readings) :
    s.call function port r.blind = s.call function port r := by
  cases function with
  | sendBatteryStatus => exact absurd rfl hfunction
  | sendHousekeeping => simp only [call, sendHousekeeping, nextHousekeepingValue, nextHousekeepingValueIn_blind]; rfl
  | sendSysStatus => simp only [call, sendSysStatus, Outbound.sysStatus, hreduced, if_true]; rfl
  | sendHeartbeat => rfl
  | sendSystemTime => rfl
  | sendAutopilotVersion => rfl
  | sendProtocolVersion => rfl
  | sendBootStatement => rfl

/-- On request BATTERY_STATUS has a row, and so has SYS_STATUS. -/
theorem kMessages_battery : ∀ entry ∈ kMessages, entry.send = some .sendBatteryStatus →
    entry.scheduleRow = some kBatteryScheduleIndex := by decide

theorem requestMessage_blind (h : s.Withheld) (c : Conversion) (port : Fin 2) (command : CommandLong) (r : Nat → Readings) :
    s.requestMessage c port command (fun k => (r k).blind) = s.requestMessage c port command r := by
  unfold requestMessage
  cases hentry : (messageIdFromParam c command.param1).bind findMessage with
  | none => rfl
  | some entry =>
    dsimp only
    cases hsend : entry.send with
    | none => rfl
    | some send =>
      dsimp only
      split
      · rfl
      · rename_i hrow
        have hne : send ≠ .sendBatteryStatus := by
          rintro rfl
          obtain ⟨id, -, hfind⟩ := Option.bind_eq_some_iff.1 hentry
          have hbattery := kMessages_battery entry (List.mem_of_find?_eq_some hfind) hsend
          rw [hbattery] at hrow
          simp [h.battery port] at hrow
        have hacked : (s.sendCommandAck port cmdRequestMessage resultAccepted (r 0)).Withheld := h.of_same rfl rfl
        exact call_blind hacked.reduced hne port (r 1)

theorem dispatch_blind (h : s.Withheld) (c : Conversion) (now : UInt32) (inbound : InboundMsg) (r : Nat → Readings) :
    s.dispatch c now inbound (fun k => (r k).blind) = s.dispatch c now inbound r := by
  have hcommand : s.commandLong c now inbound.chan inbound.msg.commandLong (fun k => (r k).blind) =
      s.commandLong c now inbound.chan inbound.msg.commandLong r := by
    unfold commandLong
    rw [requestMessage_blind h]
    rfl
  unfold dispatch
  dsimp only
  rw [hcommand]
  rfl

theorem awaited_blind (h : s.Withheld) (e : Pass) : s.awaited e.blind = s.awaited e := by
  have hreconcile : (s.reconcile (tickMs e.started) e.reconcile).reducedConfiguration = true := by
    have hrunning : (s.reconcile (tickMs e.started) e.reconcile).running = s.running := by
      have hbattery := (s.reconcile (tickMs e.started) e.reconcile).recordBattery_spec (tickMs e.started) e.battery
      obtain ⟨t, q, records, last, -, -, heq⟩ := hbattery
      have hawaited := s.awaited_running e
      change ((s.reconcile (tickMs e.started) e.reconcile).recordBattery (tickMs e.started) e.battery).running = _ at hawaited
      rw [heq] at hawaited
      exact hawaited
    unfold reducedConfiguration
    rw [hrunning]
    exact h.reduced
  have hnot : ∀ r, (s.reconcile (tickMs e.started) e.reconcile).recordBattery (tickMs e.started) r =
      s.reconcile (tickMs e.started) e.reconcile := by
    intro r
    unfold recordBattery
    rw [hreconcile]
    rfl
  have hsame : s.reconcile (tickMs e.started) e.blind.reconcile = s.reconcile (tickMs e.started) e.reconcile := rfl
  unfold awaited
  dsimp only [Pass.blind] at hsame ⊢
  rw [hsame, hnot, hnot]

theorem heard_blind (h : s.Withheld) (c : Conversion) (e : Pass) : s.heard c e.blind = s.heard c e := by
  have hawaited : (s.awaited e).Withheld := h.of_same (s.awaited_schedule e) (congrArg _ (s.awaited_running e))
  unfold heard
  rw [awaited_blind h]
  cases hreceived : e.received with
  | none => simp only [Pass.blind, hreceived]
  | some inbound =>
    simp only [Pass.blind, hreceived]
    exact dispatch_blind hawaited c _ inbound e.dispatch

/-- No row that is due reads the battery, and none is turned on by another. -/
theorem foldl_fireRow_blind (now : UInt32) (r : Fin 2 → Fin 5 → Readings) : ∀ (l : List (Fin 2 × Fin 5)) (s : TaskMavlink),
    s.Withheld → l.foldl (fireRow now fun port row => (r port row).blind) s = l.foldl (fireRow now r) s
  | [], _, _ => rfl
  | x :: l, s, h => by
    have hrow : fireRow now (fun port row => (r port row).blind) s x = fireRow now r s x := by
      unfold fireRow
      dsimp only
      split
      · rename_i hdue
        have hne : (s.schedule x.1 x.2).function ≠ .sendBatteryStatus := by
          rw [h.tables.function]
          intro hbattery
          have hindex : ∀ row, rowFunction row = .sendBatteryStatus → row = kBatteryScheduleIndex := by decide
          rw [hindex x.2 hbattery] at hdue
          simp [ScheduleEntry.isDue, h.battery x.1] at hdue
        rw [call_blind h.reduced hne]
      · rfl
    rw [List.foldl_cons, List.foldl_cons, hrow]
    exact foldl_fireRow_blind now r l _ (withheld_fireRow h now r x)

theorem pass_blind (h : s.Withheld) (c : Conversion) (e : Pass) : s.pass c e.blind = s.pass c e := by
  have hheard : (s.heard c e).Withheld := by
    refine ⟨⟨fun port row => ?_, fun port row => ?_⟩, ?_, withheld_heard h c e⟩
    · rw [(s.heard_keeps c e port row).1]
      exact h.tables.function port row
    · rcases (s.heard_keeps c e port row).2 with heq | hfits
      · rw [heq]
        exact h.tables.interval port row
      · exact hfits
    · unfold reducedConfiguration
      rw [heard_info]
      exact h.reduced
  rw [pass_eq, pass_eq, heard_blind h]
  split
  · rfl
  · exact congrArg (fun t : TaskMavlink => t.endPass e.ended) (foldl_fireRow_blind _ _ rows _ hheard)

theorem withheld_start {b : Start} (hreduced : b.running.info.reducedConfiguration = true) : b.task.Withheld := by
  refine ⟨start_tables b, ?_, fun port => ?_⟩
  · unfold Start.task sendClockStatusText
    exact hreduced
  · rw [b.task_schedule, hreduced]
    rfl

theorem run_blind (c : Conversion) : ∀ (es : List Pass) {s : TaskMavlink}, s.Withheld →
    run (step c) s (es.map Pass.blind) = run (step c) s es
  | [], _, _ => rfl
  | e :: es, s, h => by
    have hstep : step c s e.blind = step c s e := by
      unfold step
      rw [pass_blind h]
    rw [List.map_cons, run_cons, run_cons, hstep]
    cases hs : step c s e with
    | none => rfl
    | some s' =>
      have hnext : s'.Withheld := pass_of_step hs ▸ withheld_pass h c e
      exact run_blind c es hnext

/-- In the reduced configuration, two boots and two lists of passes that differ in nothing but what the battery
would have read at any step come to the same: the same items for the same ports, the same records for the log,
the same waits and the same schedule. -/
theorem reduced_ignores_battery (c : Conversion) (b b' : Start) (es es' : List Pass)
    (hreduced : b.running.info.reducedConfiguration = true) (hboot : b.blind = b'.blind)
    (hpasses : es.map Pass.blind = es'.map Pass.blind) : run (step c) b.task es = run (step c) b'.task es' := by
  have htask : ∀ b : Start, b.blind.task = b.task := fun _ => rfl
  have hreduced' : b'.running.info.reducedConfiguration = true := by
    have hrunning : b.blind.running = b'.blind.running := congrArg Start.running hboot
    change b.running = b'.running at hrunning
    rw [← hrunning]
    exact hreduced
  calc run (step c) b.task es = run (step c) b.task (es.map Pass.blind) := (run_blind c es (withheld_start hreduced)).symm
    _ = run (step c) b'.task (es'.map Pass.blind) := by rw [hpasses, ← htask b, hboot, htask b']
    _ = run (step c) b'.task es' := run_blind c es' (withheld_start hreduced')

/-! ## A board that reset too often -/

def reducedStart : Start :=
  { freshStart with
    handles := fun task => task != .logger && task != .sdWrite
    running := { freshStart.running with info := { freshStart.running.info with reducedConfiguration := true } } }

/-- Three passes, one of them with a request for a message. -/
def drained (message : Nat) (millivolts : UInt16) : List Pass :=
  let reads : Readings := { quiet with millivolts, remaining := 0 }
  [quietPass 500 none, quietPass 900 (some (longCommand cmdRequestMessage (.finite message) .nan)), quietPass 2500 none].map
    fun e => { e with battery := reads, dispatch := fun _ => reads, fire := fun _ _ => reads }

theorem reduced_ignores_battery_drained :
    (run (step .vcvt) reducedStart.task (drained 1 4200)).isSome = true ∧
      run (step .vcvt) reducedStart.task (drained 1 4200) = run (step .vcvt) reducedStart.task (drained 1 2900) := by
  constructor
  · rfl
  · exact reduced_ignores_battery .vcvt reducedStart reducedStart (drained 1 4200) (drained 1 2900) rfl rfl rfl

end TaskMavlink

end BoredomOS.Link
