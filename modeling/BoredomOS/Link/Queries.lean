/-
The two commands that ask about a message, against what is really sent. The answers go by the table
`kMessages` and its row indices; what is sent goes by the functions in the rows and by `mavlinkPack`.
That the two agree rests on one invariant of every run: the rows keep the functions they began with,
and an interval whose microseconds fit in an `int32_t`.
-/
import BoredomOS.Lib.Runs
import BoredomOS.Link.Rows

namespace BoredomOS.Link

open Runs

/-! ## What is really sent -/

/-- Some call of the function offers an item that is packed as the message `id`. -/
def SendFunction.Emits (function : SendFunction) (id : UInt16) : Prop :=
  ∃ (s : TaskMavlink) (port : Fin 2) (r : Readings) (m : LinkMsg),
    (s.call function port r).offered = s.offered ++ [(port, m)] ∧ m.PackedAs id

/-- An entry of `kMessages` with a function behind it. -/
def ServedOnRequest (id : UInt16) : Prop := ∃ entry ∈ kMessages, entry.id = id ∧ entry.send.isSome = true

namespace TaskMavlink

/-- Some enabled row of the port streams the message. -/
def Streams (s : TaskMavlink) (port : Fin 2) (id : UInt16) : Prop :=
  ∃ row, (s.schedule port row).function.Emits id ∧ (s.schedule port row).enabled = true

/-- The ground can get the message, from a row or by asking for it. -/
def Obtainable (s : TaskMavlink) (port : Fin 2) (id : UInt16) : Prop :=
  (∃ row, (s.schedule port row).function.Emits id) ∨ ServedOnRequest id

/-- A request for the message is granted now: it is served, and no row that streams it is off. -/
def Granted (s : TaskMavlink) (port : Fin 2) (id : UInt16) : Prop :=
  ServedOnRequest id ∧ ∀ row, (s.schedule port row).function.Emits id → (s.schedule port row).enabled = true

/-- An item is packed as one message only. -/
theorem packedAs_unique (s : TaskMavlink) {m : LinkMsg} {id id' : UInt16} (h : m.PackedAs id) (h' : m.PackedAs id') :
    id = id' :=
  let st : PackState := { info := s.running.info, regs := s.regs, tickMs := 0 }
  (h st).symm.trans (h' st)

theorem emits_iff (s : TaskMavlink) (r : Readings) (function : SendFunction) (id : UInt16) :
    function.Emits id ↔ function.msgid = id := by
  constructor
  · rintro ⟨s, port, r, m, hoffered, hm⟩
    obtain ⟨m', t, cursor, hm', -, -, -, hcall⟩ := s.call_spec function port r
    have hsame : s.offered ++ [(port, m')] = s.offered ++ [(port, m)] := by
      rw [← hoffered, hcall]
      rfl
    simp only [List.append_cancel_left_eq, List.cons.injEq, Prod.mk.injEq, true_and, and_true] at hsame
    exact s.packedAs_unique (hsame ▸ hm') hm
  · rintro rfl
    obtain ⟨m, t, cursor, hm, -, -, -, hcall⟩ := s.call_spec function linkChanUart r
    exact ⟨s, linkChanUart, r, m, by rw [hcall]; rfl, hm⟩

end TaskMavlink

/-! ## The two tables -/

/-- The function a row of the initialiser holds. -/
def rowFunction (row : Fin 5) : SendFunction := (schedule 0 false row).function

theorem schedule_function (startMs : UInt32) (reducedConfiguration : Bool) (row : Fin 5) :
    (schedule startMs reducedConfiguration row).function = rowFunction row := by
  fin_cases row <;> rfl

theorem schedule_interval (startMs : UInt32) (reducedConfiguration : Bool) (row : Fin 5) :
    0 < (schedule startMs reducedConfiguration row).intervalMs.toNat ∧
      (schedule startMs reducedConfiguration row).intervalMs.toNat * 1000 < 2 ^ 31 := by
  have hseconds : (schedule startMs reducedConfiguration row).intervalMs = 1000 ∨
      (schedule startMs reducedConfiguration row).intervalMs = 2000 := by
    fin_cases row
    · exact Or.inl rfl
    · exact Or.inl rfl
    · exact Or.inr rfl
    · exact Or.inl rfl
    · exact Or.inl rfl
  rcases hseconds with h | h <;> simp [h]

/-- The row an entry names streams the entry's message. -/
theorem kMessages_row : ∀ entry ∈ kMessages, ∀ row ∈ entry.scheduleRow, (rowFunction row).msgid = entry.id := by decide

/-- Every row is the one some entry names. -/
theorem row_kMessages : ∀ row : Fin 5, ∃ entry ∈ kMessages, entry.id = (rowFunction row).msgid ∧ entry.scheduleRow = some row := by
  decide

theorem findMessage_id : ∀ entry ∈ kMessages, findMessage entry.id = some entry := by decide

theorem findMessage_row {row : Fin 5} {id : UInt16} (h : (rowFunction row).msgid = id) :
    ∃ entry, findMessage id = some entry ∧ entry.scheduleRow = some row := by
  obtain ⟨entry, hmem, hid, hrow⟩ := row_kMessages row
  exact ⟨entry, h ▸ hid ▸ findMessage_id entry hmem, hrow⟩

theorem servedOnRequest_iff (id : UInt16) : ServedOnRequest id ↔ ∃ entry, findMessage id = some entry ∧ entry.send.isSome = true := by
  constructor
  · rintro ⟨entry, hmem, rfl, hsend⟩
    exact ⟨entry, findMessage_id entry hmem, hsend⟩
  · rintro ⟨entry, hfind, hsend⟩
    exact ⟨entry, List.mem_of_find?_eq_some hfind, (TaskMavlink.findMessage_send hfind).1, hsend⟩

/-- An entry with no function behind it has a row. -/
theorem kMessages_sent : ∀ entry ∈ kMessages, entry.send.isSome = true ∨ entry.scheduleRow.isSome = true := by decide

/-! ## Ids -/

/-- An id is read from the whole numbers it can be, and from nothing else. -/
theorem messageIdFromParam_iff (c : Conversion) (param : Param) (id : UInt16) :
    messageIdFromParam c param = some id ↔ param = .finite id.toNat := by
  constructor
  · intro h
    unfold messageIdFromParam at h
    split at h
    · cases h
    · dsimp only at h
      split at h
      · cases h
      · rename_i hsame
        cases h
        exact (not_not.1 hsame).symm
  · rintro rfl
    have hlt : id.toNat < 65536 := id.toNat_lt
    have hwithin : (Param.finite id.toNat).within 0 65535 = true := by
      simp only [Param.within, Bool.and_eq_true, decide_eq_true_eq]
      constructor
      · positivity
      · exact_mod_cast Nat.le_of_lt_succ hlt
    have htoNat := c.toUInt16_eq id.toNat (by linarith [(Nat.cast_nonneg id.toNat : (0 : ℚ) ≤ id.toNat)]) (by exact_mod_cast hlt)
    rw [truncate, if_pos (Nat.cast_nonneg _), Int.floor_natCast] at htoNat
    have hnarrowed : c.toUInt16 (.finite id.toNat) = id := UInt16.toNat_inj.1 (by exact_mod_cast htoNat)
    unfold messageIdFromParam
    rw [hwithin]
    simp [hnarrowed]

theorem messageIdFromParam_none (c : Conversion) {param : Param} (h : ∀ id : UInt16, param ≠ .finite id.toNat) :
    messageIdFromParam c param = none := by
  cases hid : messageIdFromParam c param with
  | none => rfl
  | some id => exact absurd ((messageIdFromParam_iff c param id).1 hid) (h id)

namespace TaskMavlink

/-! ## What every run keeps -/

/-- The rows hold the functions of the initialiser, with intervals that fit once they are in microseconds. -/
structure Tables (s : TaskMavlink) : Prop where
  function : ∀ port row, (s.schedule port row).function = rowFunction row
  interval : ∀ port row, 0 < (s.schedule port row).intervalMs.toNat ∧ (s.schedule port row).intervalMs.toNat * 1000 < 2 ^ 31

theorem start_tables (b : Start) : b.task.Tables := by
  constructor
  · intro port row
    rw [b.task_schedule]
    exact schedule_function _ _ row
  · intro port row
    rw [b.task_schedule]
    exact schedule_interval _ _ row

/-- What a command may make of a row keeps both. -/
theorem setRow_keeps {now : UInt32} {before after : ScheduleEntry} (h : SetRow now before after) :
    after.function = before.function ∧ (after.intervalMs = before.intervalMs ∨
      0 < after.intervalMs.toNat ∧ after.intervalMs.toNat * 1000 < 2 ^ 31) := by
  rcases h with rfl | ⟨ms, hfloor, hceiling, rfl⟩
  · exact ⟨rfl, Or.inl rfl⟩
  · have hle : 1000 ≤ ms.toNat := hfloor
    exact ⟨rfl, Or.inr ⟨by show 0 < ms.toNat; omega, hceiling⟩⟩

theorem heard_keeps (s : TaskMavlink) (c : Conversion) (e : Pass) (port : Fin 2) (row : Fin 5) :
    ((s.heard c e).schedule port row).function = (s.schedule port row).function ∧
      (((s.heard c e).schedule port row).intervalMs = (s.schedule port row).intervalMs ∨
        0 < ((s.heard c e).schedule port row).intervalMs.toNat ∧
          ((s.heard c e).schedule port row).intervalMs.toNat * 1000 < 2 ^ 31) := by
  rcases s.heard_schedule c e port row with heq | ⟨-, hset⟩
  · exact ⟨by rw [heq], Or.inl (by rw [heq])⟩
  · exact setRow_keeps hset

theorem pass_tables {s : TaskMavlink} (h : s.Tables) (c : Conversion) (e : Pass) : (s.pass c e).Tables := by
  have hrow : ∀ port row, ((s.pass c e).schedule port row).function = ((s.heard c e).schedule port row).function ∧
      ((s.pass c e).schedule port row).intervalMs = ((s.heard c e).schedule port row).intervalMs := by
    intro port row
    rcases s.pass_schedule c e port row with heq | heq
    · exact ⟨by rw [heq], by rw [heq]⟩
    · exact ⟨by rw [heq]; rfl, by rw [heq]; rfl⟩
  constructor
  · intro port row
    rw [(hrow port row).1, (s.heard_keeps c e port row).1, h.function]
  · intro port row
    rw [(hrow port row).2]
    rcases (s.heard_keeps c e port row).2 with heq | hfits
    · rw [heq]
      exact h.interval port row
    · exact hfits

theorem run_tables {c : Conversion} {b : Start} {es : List Pass} {s : TaskMavlink} (h : run (step c) b.task es = some s) :
    s.Tables := by
  refine inv (P := Tables) (fun s e s' hs hstep => ?_) (start_tables b) h
  unfold step at hstep
  split at hstep
  · cases hstep
  · cases hstep
    exact pass_tables hs c e

/-! ## The interval that is reported -/

section

variable {s : TaskMavlink} (h : s.Tables) (r : Readings) (port : Fin 2) (id : UInt16)

include h r

theorem emits_row (row : Fin 5) : (s.schedule port row).function.Emits id ↔ (rowFunction row).msgid = id := by
  rw [s.emits_iff r, h.function]

/-- The table names the row that streams a message, if one does. -/
theorem findMessage_iff (row : Fin 5) : (s.schedule port row).function.Emits id ↔
    ∃ entry, findMessage id = some entry ∧ entry.scheduleRow = some row := by
  rw [emits_row h r port id row]
  constructor
  · exact findMessage_row
  · rintro ⟨entry, hfind, hrow⟩
    have hid : entry.id = id := (findMessage_send hfind).1
    rw [kMessages_row entry (List.mem_of_find?_eq_some hfind) row hrow, hid]

theorem obtainable_iff : s.Obtainable port id ↔ (findMessage id).isSome = true := by
  unfold Obtainable
  simp only [findMessage_iff h r port id, servedOnRequest_iff]
  constructor
  · rintro (⟨row, entry, hfind, -⟩ | ⟨entry, hfind, -⟩)
    · rw [hfind]; rfl
    · rw [hfind]; rfl
  · intro hsome
    obtain ⟨entry, hfind⟩ := Option.isSome_iff_exists.1 hsome
    rcases kMessages_sent entry (List.mem_of_find?_eq_some hfind) with hsend | hrow
    · exact Or.inr ⟨entry, hfind, hsend⟩
    · obtain ⟨row, hrow⟩ := Option.isSome_iff_exists.1 hrow
      exact Or.inl ⟨row, entry, hfind, hrow⟩

end

/-- Milliseconds below the bound are the same number of microseconds in an `int32_t`. -/
theorem toInt_us {ms : UInt32} (h : ms.toNat * 1000 < 2 ^ 31) : (ms * 1000).toInt32.toInt = 1000 * (ms.toNat : Int) := by
  have hmul : (ms * 1000).toNat = ms.toNat * 1000 := by
    rw [UInt32.toNat_mul, show (1000 : UInt32).toNat = 1000 from rfl]
    exact Nat.mod_eq_of_lt (by omega)
  have hbits : (ms * 1000).toInt32.toInt = (ms * 1000).toBitVec.toInt := rfl
  rw [hbits, BitVec.toInt_eq_toNat_cond, UInt32.toNat_toBitVec, hmul, if_pos (by omega)]
  push_cast
  ring

/-- What `MESSAGE_INTERVAL` reports is the row that streams the message, or that none does now, or that
there is no such message. -/
theorem intervalUs_spec {s : TaskMavlink} (h : s.Tables) (r : Readings) (port : Fin 2) (id : UInt16) :
    (0 < (s.intervalUs port id).toInt ↔ s.Streams port id) ∧
      (∀ row, (s.schedule port row).function.Emits id → (s.schedule port row).enabled = true →
        (s.intervalUs port id).toInt = 1000 * ((s.schedule port row).intervalMs.toNat : Int)) ∧
      (s.intervalUs port id = -1 ↔ s.Obtainable port id ∧ ¬ s.Streams port id) ∧
      (s.intervalUs port id = 0 ↔ ¬ s.Obtainable port id) := by
  have hrow := findMessage_iff h r port id
  rw [obtainable_iff h r port id]
  have hstreams : s.Streams port id ↔ ∃ row, (∃ entry, findMessage id = some entry ∧ entry.scheduleRow = some row) ∧
      (s.schedule port row).enabled = true := exists_congr fun row => and_congr_left' (hrow row)
  rw [hstreams]
  simp only [hrow]
  unfold intervalUs
  cases hfind : findMessage id with
  | none => simp
  | some entry =>
    dsimp only
    cases hentry : entry.scheduleRow with
    | none => simp [hentry]
    | some row =>
      dsimp only
      by_cases henabled : (s.schedule port row).enabled = true
      · have hfits := h.interval port row
        have hval := toInt_us hfits.2
        rw [if_pos henabled]
        refine ⟨⟨fun _ => ⟨row, ⟨entry, rfl, hentry⟩, henabled⟩, fun _ => by omega⟩, ?_, ⟨fun hoff => ?_, fun hoff => ?_⟩,
          ⟨fun hnone => ?_, fun hnone => absurd rfl hnone⟩⟩
        · rintro row' ⟨entry', heq, hrow'⟩ -
          cases heq
          rw [hentry] at hrow'
          cases hrow'
          exact hval
        · rw [hoff] at hval
          have hminus : (-1 : Int32).toInt = -1 := rfl
          omega
        · exact absurd ⟨row, ⟨entry, rfl, hentry⟩, henabled⟩ hoff.2
        · rw [hnone] at hval
          have hzero : (0 : Int32).toInt = 0 := rfl
          omega
      · rw [if_neg henabled]
        simp [hentry, henabled]

/-! ## The two commands -/

/-- A parameter that is no id is refused, whichever of the two commands it comes with. -/
theorem query_denied (s : TaskMavlink) (c : Conversion) (port : Fin 2) (command : CommandLong) (r : Nat → Readings)
    (h : ∀ id : UInt16, command.param1 ≠ .finite id.toNat) :
    s.getMessageInterval c port command r = s.sendCommandAck port cmdGetMessageInterval resultDenied (r 0) ∧
      s.requestMessage c port command r = s.sendCommandAck port cmdRequestMessage resultDenied (r 0) := by
  have hnone := messageIdFromParam_none c h
  constructor
  · unfold getMessageInterval
    rw [hnone]
  · unfold requestMessage
    rw [hnone]
    rfl

/-- A request is granted with an item of the message itself, and refused with no item at all. -/
theorem requestMessage_spec {s : TaskMavlink} (h : s.Tables) (c : Conversion) (port : Fin 2) (command : CommandLong)
    (r : Nat → Readings) (id : UInt16) (hid : command.param1 = .finite id.toNat) :
    (s.Granted port id → ∃ m : LinkMsg, m.PackedAs id ∧ (s.requestMessage c port command r).offered =
      s.offered ++ [(port, .commandAck ⟨cmdRequestMessage, resultAccepted⟩), (port, m)]) ∧
    (¬ s.Granted port id → ∃ result ≠ resultAccepted, (s.requestMessage c port command r).offered =
      s.offered ++ [(port, .commandAck ⟨cmdRequestMessage, result⟩)]) := by
  have hparam := (messageIdFromParam_iff c command.param1 id).2 hid
  have hgranted : s.Granted port id ↔ (∃ entry, findMessage id = some entry ∧ entry.send.isSome = true) ∧
      ∀ row, (∃ entry, findMessage id = some entry ∧ entry.scheduleRow = some row) → (s.schedule port row).enabled = true := by
    unfold Granted
    rw [servedOnRequest_iff]
    simp only [findMessage_iff h (r 0) port id]
  rw [hgranted]
  unfold requestMessage
  rw [hparam]
  dsimp only [Option.bind_some]
  cases hfind : findMessage id with
  | none => exact ⟨by simp, fun _ => ⟨resultDenied, by decide, rfl⟩⟩
  | some entry =>
    dsimp only
    cases hsend : entry.send with
    | none => exact ⟨by simp [hsend], fun _ => ⟨resultDenied, by decide, rfl⟩⟩
    | some send =>
      dsimp only
      by_cases hwithheld : (entry.scheduleRow.any fun row => !(s.schedule port row).enabled) = true
      · rw [if_pos hwithheld]
        obtain ⟨row, hrow, hoff⟩ := (Option.any_eq_true _ _).1 hwithheld
        refine ⟨fun hall => ?_, fun _ => ⟨resultTemporarilyRejected, by decide, rfl⟩⟩
        have hon := hall.2 row ⟨entry, rfl, hrow⟩
        rw [hon] at hoff
        cases hoff
      · rw [if_neg hwithheld]
        have hmsgid := ((findMessage_send hfind).2 send hsend).2
        obtain ⟨m, t, cursor, hm, -, -, -, hcall⟩ :=
          (s.sendCommandAck port cmdRequestMessage resultAccepted (r 0)).call_spec send port (r 1)
        refine ⟨fun _ => ⟨m, hmsgid ▸ hm, ?_⟩, fun hnot => absurd ⟨⟨entry, rfl, by rw [hsend]; rfl⟩, ?_⟩ hnot⟩
        · rw [hcall]
          exact List.append_assoc ..
        · rintro row ⟨entry', heq, hrow⟩
          cases heq
          by_contra hoff
          exact hwithheld (by rw [hrow]; simpa using hoff)

theorem getMessageInterval_spec (s : TaskMavlink) (c : Conversion) (port : Fin 2) (command : CommandLong) (r : Nat → Readings)
    (id : UInt16) (hid : command.param1 = .finite id.toNat) :
    (s.getMessageInterval c port command r).offered = s.offered ++
      [(port, .commandAck ⟨cmdGetMessageInterval, resultAccepted⟩), (port, .messageInterval ⟨s.intervalUs port id, id⟩)] := by
  unfold getMessageInterval
  rw [(messageIdFromParam_iff c command.param1 id).2 hid]
  exact List.append_assoc ..

/-- Neither of the two touches a row or a cursor. -/
theorem query_frame (s : TaskMavlink) (c : Conversion) (now : UInt32) (port : Fin 2) (command : CommandLong) (r : Nat → Readings)
    (h : command.command ≠ cmdSetMessageInterval) :
    (s.commandLong c now port command r).schedule = s.schedule ∧
      (s.commandLong c now port command r).housekeepingCursor = s.housekeepingCursor := by
  have hcases := s.commandLong_cases c now port command r
  generalize s.commandLong c now port command r = s' at hcases ⊢
  cases hcases with
  | acknowledged => exact ⟨rfl, rfl⟩
  | rebooted => exact ⟨rfl, rfl⟩
  | preceded => exact ⟨rfl, rfl⟩
  | followed => exact ⟨rfl, rfl⟩
  | scheduled result entry once set is_set => exact absurd is_set h

/-- In every state of every run, with any parameter: the interval that is reported for an id is the
interval of the enabled row that really streams the message, -1 if the message can be had but no row
streams it now, and 0 if it cannot be had; a request is accepted exactly if the message is served and
its row is not off, and is then followed by that message alone; what is no id is denied; and neither
command touches a row or a cursor. -/
theorem queries_agree (c : Conversion) (b : Start) (es : List Pass) (s : TaskMavlink)
    (hrun : run (step c) b.task es = some s) (now : UInt32) (inbound : InboundMsg) (r : Nat → Readings)
    (hmsg : inbound.msg.msgid = msgIdCommandLong) :
    (inbound.msg.commandLong.command = cmdGetMessageInterval →
      ∀ id : UInt16, inbound.msg.commandLong.param1 = .finite id.toNat → ∃ us : Int32,
        (s.dispatch c now inbound r).offered = s.offered ++
          [(inbound.chan, .commandAck ⟨cmdGetMessageInterval, resultAccepted⟩), (inbound.chan, .messageInterval ⟨us, id⟩)] ∧
        (0 < us.toInt ↔ s.Streams inbound.chan id) ∧
        (∀ row, (s.schedule inbound.chan row).function.Emits id → (s.schedule inbound.chan row).enabled = true →
          us.toInt = 1000 * ((s.schedule inbound.chan row).intervalMs.toNat : Int)) ∧
        (us = -1 ↔ s.Obtainable inbound.chan id ∧ ¬ s.Streams inbound.chan id) ∧
        (us = 0 ↔ ¬ s.Obtainable inbound.chan id)) ∧
    (inbound.msg.commandLong.command = cmdRequestMessage →
      ∀ id : UInt16, inbound.msg.commandLong.param1 = .finite id.toNat →
        (s.Granted inbound.chan id → ∃ m : LinkMsg, m.PackedAs id ∧ (s.dispatch c now inbound r).offered = s.offered ++
          [(inbound.chan, .commandAck ⟨cmdRequestMessage, resultAccepted⟩), (inbound.chan, m)]) ∧
        (¬ s.Granted inbound.chan id → ∃ result ≠ resultAccepted, (s.dispatch c now inbound r).offered = s.offered ++
          [(inbound.chan, .commandAck ⟨cmdRequestMessage, result⟩)])) ∧
    (inbound.msg.commandLong.command = cmdGetMessageInterval ∨ inbound.msg.commandLong.command = cmdRequestMessage →
      ((∀ id : UInt16, inbound.msg.commandLong.param1 ≠ .finite id.toNat) → (s.dispatch c now inbound r).offered =
        s.offered ++ [(inbound.chan, .commandAck ⟨inbound.msg.commandLong.command, resultDenied⟩)]) ∧
      (s.dispatch c now inbound r).schedule = s.schedule ∧
      (s.dispatch c now inbound r).housekeepingCursor = s.housekeepingCursor) := by
  have htables := run_tables hrun
  rw [s.dispatch_command c now hmsg]
  refine ⟨fun hget id hid => ?_, fun hrequest id hid => ?_, fun hquery => ⟨fun hno => ?_, ?_⟩⟩
  · rw [s.commandLong_get c now _ r hget]
    exact ⟨s.intervalUs inbound.chan id, s.getMessageInterval_spec c _ _ r id hid,
      intervalUs_spec htables (r 0) inbound.chan id⟩
  · rw [s.commandLong_request c now _ r hrequest]
    exact requestMessage_spec htables c _ _ r id hid
  · obtain ⟨hget, hrequest⟩ := s.query_denied c inbound.chan inbound.msg.commandLong r hno
    rcases hquery with h | h
    · rw [s.commandLong_get c now _ r h, hget, h]
      rfl
    · rw [s.commandLong_request c now _ r h, hrequest, h]
      rfl
  · apply query_frame
    rcases hquery with h | h
    · rw [h]
      decide
    · rw [h]
      decide

/-- Asked for the interval of its heartbeat, a board that has just begun reports a second. -/
theorem queries_agree_heartbeat : ∃ us : Int32, us.toInt = 1000000 ∧
    (freshStart.task.dispatch .vcvt 0 (longCommand cmdGetMessageInterval (.finite 0) .nan) fun _ => quiet).offered =
      freshStart.task.offered ++
        [(linkChanUsb, .commandAck ⟨cmdGetMessageInterval, resultAccepted⟩), (linkChanUsb, .messageInterval ⟨us, 0⟩)] := by
  have h := queries_agree .vcvt freshStart [] freshStart.task rfl 0 (longCommand cmdGetMessageInterval (.finite 0) .nan)
    (fun _ => quiet) rfl
  obtain ⟨us, hoffered, -, hinterval, -⟩ := h.1 rfl 0 rfl
  have hrow : freshStart.task.schedule linkChanUsb kHeartbeatScheduleIndex =
      Link.schedule (tickMs 500) false kHeartbeatScheduleIndex := by
    rw [freshStart.task_schedule]
    rfl
  refine ⟨us, ?_, hoffered⟩
  have hreported := hinterval kHeartbeatScheduleIndex
  rw [show (longCommand cmdGetMessageInterval (.finite 0) .nan).chan = linkChanUsb from rfl, hrow] at hreported
  exact hreported ((freshStart.task.emits_iff quiet _ _).2 rfl) rfl

end TaskMavlink

end BoredomOS.Link
