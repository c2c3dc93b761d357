/-
`MAV_CMD_SET_MESSAGE_INTERVAL` against its table. The command compares the converted parameters where
its siblings compare the parameters themselves, so an id between 252 and 253 is taken for 252 and an
interval below a microsecond for the default rate; everywhere else the table holds.
-/
import BoredomOS.Link.Queries

namespace BoredomOS.Link

open Runs

/-! ## The two conversions -/

/-- The first parameter reads as 252: it truncates to it, or has no defined conversion and yields it. -/
def ReadsAs252 (c : Conversion) (param1 : ℚ) : Prop :=
  252 ≤ param1 ∧ param1 < 253 ∨ (param1 ≤ -1 ∨ 65536 ≤ param1) ∧ c.toUInt16 (.finite param1) = 252

theorem readsAs252_iff (c : Conversion) (param1 : ℚ) :
    c.toUInt16 (.finite param1) = TaskMavlink.msgIdNamedValueInt ↔ ReadsAs252 c param1 := by
  unfold ReadsAs252 TaskMavlink.msgIdNamedValueInt
  by_cases hdefined : -1 < param1 ∧ param1 < 65536
  · obtain ⟨hlow, hhigh⟩ := hdefined
    have hout : ¬ (param1 ≤ -1 ∨ 65536 ≤ param1) := by
      rintro (h | h)
      · linarith
      · linarith
    have htoNat := c.toUInt16_eq param1 hlow hhigh
    have hconverted : c.toUInt16 (.finite param1) = 252 ↔ truncate param1 = 252 := by
      rw [← htoNat, ← UInt16.toNat_inj]
      norm_cast
    rw [hconverted, truncate]
    split
    · rw [Int.floor_eq_iff]
      simp only [hout, false_and, or_false]
      norm_num
    · rename_i hneg
      have hceil : ⌈param1⌉ ≤ 0 := Int.ceil_le.2 (by push_cast; linarith)
      constructor
      · intro h
        omega
      · rintro (h | h)
        · linarith [h.1]
        · exact absurd h.1 hout
  · have hout : param1 ≤ -1 ∨ 65536 ≤ param1 := by
      by_contra h
      push Not at h
      exact hdefined h
    constructor
    · exact fun h => Or.inr ⟨hout, h⟩
    · rintro (h | h)
      · exact absurd ⟨by linarith [h.1], by linarith [h.2]⟩ hdefined
      · exact h.2

section

variable (c : Conversion) {param2 : ℚ} (hlow : -2147483648 ≤ param2) (hhigh : param2 < 2147483648)

include hlow hhigh

/-- Less than one microsecond is none. -/
theorem toInt32_le_zero : c.toInt32 (.finite param2) ≤ 0 ↔ param2 < 1 := by
  rw [Int32.le_iff_toInt_le, c.toInt32_eq param2 (by linarith) hhigh, show (0 : Int32).toInt = 0 from rfl, truncate]
  split
  · rw [show ⌊param2⌋ ≤ 0 ↔ ⌊param2⌋ < 1 by omega, Int.floor_lt]
    norm_num
  · rename_i hneg
    have hceil : ⌈param2⌉ ≤ 0 := Int.ceil_le.2 (by push_cast; linarith)
    simp only [hceil, true_iff]
    linarith

/-- From one microsecond on, the milliseconds are those of the parameter itself. -/
theorem requestedMs_eq (h : 1 ≤ param2) :
    (((c.toInt32 (.finite param2)).toUInt32 / 1000).toNat : ℤ) = ⌊param2 / 1000⌋ := by
  have hpositive : ¬ c.toInt32 (.finite param2) ≤ 0 := by
    rw [toInt32_le_zero c hlow hhigh]
    linarith
  have hle := Int32.le_of_lt (Int32.not_le.1 hpositive)
  have hvalue : ((c.toInt32 (.finite param2)).toNatClampNeg : ℤ) = ⌊param2⌋ := by
    have htoInt := c.toInt32_eq param2 (by linarith) hhigh
    rw [truncate, if_pos (by linarith)] at htoInt
    have hfloor : 0 ≤ ⌊param2⌋ := Int.floor_nonneg.2 (by linarith)
    rw [← Int32.toNat_toInt, htoInt, Int.toNat_of_nonneg hfloor]
  rw [UInt32.toNat_div, Int32.toNat_toUInt32_of_le hle, show (1000 : UInt32).toNat = 1000 from rfl]
  push_cast
  rw [hvalue]
  exact (Int.floor_div_natCast param2 1000).symm

theorem requestedMs_lt_floor (h : 1 ≤ param2) :
    (c.toInt32 (.finite param2)).toUInt32 / 1000 < 1000 ↔ param2 < 1000000 := by
  have hvalue := requestedMs_eq c hlow hhigh h
  rw [UInt32.lt_iff_toNat_lt, show (1000 : UInt32).toNat = 1000 from rfl]
  have hlt : ⌊param2 / 1000⌋ < 1000 ↔ param2 / 1000 < 1000 := by
    rw [Int.floor_lt]
    norm_num
  rw [show param2 < 1000000 ↔ param2 / 1000 < 1000 by constructor <;> intro h <;> linarith, ← hlt]
  omega

end

namespace TaskMavlink

variable (s : TaskMavlink) (c : Conversion) (now : UInt32) (port : Fin 2) (r : Nat → Readings)

/-! ## The four answers -/

section

variable {command : CommandLong} {param1 param2 : ℚ} (hparam1 : command.param1 = .finite param1)
  (hparam2 : command.param2 = .finite param2) (hlow : -2147483648 ≤ param2) (hhigh : param2 < 2147483648)

include hparam1

theorem setMessageInterval_unread (h : ¬ ReadsAs252 c param1) :
    s.setMessageInterval c now port command r = s.sendCommandAck port cmdSetMessageInterval resultDenied (r 0) := by
  unfold setMessageInterval
  rw [hparam1]
  exact if_neg fun hread => h ((readsAs252_iff c param1).1 hread)

include hparam2 hlow hhigh

theorem setMessageInterval_off (h : ReadsAs252 c param1) (hoff : param2 < 1) :
    s.setMessageInterval c now port command r =
      (s.setRow port kHousekeepingScheduleIndex
        { s.schedule port kHousekeepingScheduleIndex with enabled := false }).sendCommandAck port cmdSetMessageInterval
          resultAccepted (r 0) := by
  unfold setMessageInterval
  rw [hparam1, hparam2, if_pos ((readsAs252_iff c param1).2 h)]
  dsimp only
  rw [if_pos ((toInt32_le_zero c hlow hhigh).2 hoff)]

theorem setMessageInterval_tooFast (h : ReadsAs252 c param1) (hone : 1 ≤ param2) (hfast : param2 < 1000000) :
    s.setMessageInterval c now port command r = s.sendCommandAck port cmdSetMessageInterval resultDenied (r 0) := by
  have hpositive : ¬ c.toInt32 (.finite param2) ≤ 0 := by
    rw [toInt32_le_zero c hlow hhigh]
    linarith
  unfold setMessageInterval
  rw [hparam1, hparam2, if_pos ((readsAs252_iff c param1).2 h)]
  dsimp only
  rw [if_neg hpositive, if_pos ((requestedMs_lt_floor c hlow hhigh hone).2 hfast)]

theorem setMessageInterval_on (h : ReadsAs252 c param1) (hslow : 1000000 ≤ param2) :
    ∃ ms : UInt32, (ms.toNat : ℤ) = ⌊param2 / 1000⌋ ∧ ms.toNat * 1000 < 2 ^ 31 ∧
      s.setMessageInterval c now port command r =
        (s.setRow port kHousekeepingScheduleIndex
          { s.schedule port kHousekeepingScheduleIndex with intervalMs := ms, lastMs := now, enabled := true }).sendCommandAck
            port cmdSetMessageInterval resultAccepted (r 0) := by
  have hone : 1 ≤ param2 := by linarith
  have hpositive : ¬ c.toInt32 (.finite param2) ≤ 0 := by
    rw [toInt32_le_zero c hlow hhigh]
    linarith
  refine ⟨(c.toInt32 (.finite param2)).toUInt32 / 1000, requestedMs_eq c hlow hhigh hone, requestedMs_lt hpositive, ?_⟩
  unfold setMessageInterval
  rw [hparam1, hparam2, if_pos ((readsAs252_iff c param1).2 h)]
  dsimp only
  rw [if_neg hpositive, if_neg]
  rw [requestedMs_lt_floor c hlow hhigh hone]
  linarith

end

/-! ## What a later query reports -/

/-- A `MAV_CMD_GET_MESSAGE_INTERVAL` for 252 in a later pass of any run, in which no other set came to
the port, reports these microseconds. -/
def ReportsLater (us : ℤ) : Prop :=
  ∀ (resumed : UInt32) (fire : Fin 2 → Fin 5 → Readings) (ended : Nat) (es : List Pass) (s' : TaskMavlink),
    run (step c) ((s.fire resumed fire).endPass ended) es = some s' →
    (∀ e ∈ es, ∀ inbound ∈ e.received, ¬ IsSet inbound port kHousekeepingScheduleIndex) →
    ∀ (e : Pass) (query : InboundMsg), e.received = some query → query.chan = port →
      query.msg.msgid = msgIdCommandLong → query.msg.commandLong.command = cmdGetMessageInterval →
      query.msg.commandLong.param1 = .finite 252 →
      ∃ reported : Int32, reported.toInt = us ∧ (s'.heard c e).offered = (s'.awaited e).offered ++
        [(port, .commandAck ⟨cmdGetMessageInterval, resultAccepted⟩), (port, .messageInterval ⟨reported, 252⟩)]

/-- A row is on with this interval. -/
def RunsAt (row : Fin 5) (ms : UInt32) : Prop := (s.schedule port row).enabled = true ∧ (s.schedule port row).intervalMs = ms

variable {s c port}

theorem RunsAt.of_advance {s' : TaskMavlink} {row : Fin 5} {ms : UInt32} (h : s.RunsAt port row ms)
    (hrow : s'.schedule port row = s.schedule port row ∨ s'.schedule port row = (s.schedule port row).advance) :
    s'.RunsAt port row ms := by
  rcases hrow with heq | heq
  · exact ⟨by rw [heq]; exact h.1, by rw [heq]; exact h.2⟩
  · exact ⟨by rw [heq]; exact h.1, by rw [heq]; exact h.2⟩

theorem RunsAt.fired {row : Fin 5} {ms : UInt32} (h : s.RunsAt port row ms) (resumed : UInt32)
    (fire : Fin 2 → Fin 5 → Readings) (ended : Nat) : ((s.fire resumed fire).endPass ended).RunsAt port row ms := by
  apply h.of_advance
  have hfire : ((s.fire resumed fire).endPass ended).schedule port row = _ := s.fire_schedule resumed fire port row
  rw [hfire]
  split
  · exact Or.inr rfl
  · exact Or.inl rfl

theorem RunsAt.pass {row : Fin 5} {ms : UInt32} (h : s.RunsAt port row ms) (c : Conversion) {e : Pass}
    (hset : ∀ inbound ∈ e.received, ¬ IsSet inbound port row) : (s.pass c e).RunsAt port row ms := by
  have hheard : (s.heard c e).RunsAt port row ms := by
    apply h.of_advance
    rcases s.heard_schedule c e port row with heq | ⟨⟨inbound, harrived, his⟩, -⟩
    · exact Or.inl heq
    · exact absurd his (hset inbound harrived)
  exact hheard.of_advance (s.pass_schedule c e port row)

theorem RunsAt.run {row : Fin 5} {ms : UInt32} : ∀ {es : List Pass} {s s' : TaskMavlink}, s.RunsAt port row ms →
    Runs.run (step c) s es = some s' → (∀ e ∈ es, ∀ inbound ∈ e.received, ¬ IsSet inbound port row) → s'.RunsAt port row ms
  | [], _, _, h, hrun, _ => by
    cases hrun
    exact h
  | e :: es, s, s', h, hrun, hset => by
    obtain ⟨m, hm, hrun⟩ := Option.bind_eq_some_iff.1 hrun
    refine RunsAt.run ?_ hrun fun e' he' => hset e' (List.mem_cons_of_mem _ he')
    unfold step at hm
    split at hm
    · cases hm
    · cases hm
      exact h.pass c (hset e List.mem_cons_self)

theorem RunsAt.reportsLater {ms : UInt32} (h : s.RunsAt port kHousekeepingScheduleIndex ms) (hfits : ms.toNat * 1000 < 2 ^ 31) :
    s.ReportsLater c port (1000 * (ms.toNat : ℤ)) := by
  intro resumed fire ended es s' hrun hset e query hreceived hport hmsg hget hid
  obtain ⟨henabled, hms⟩ := RunsAt.run (h.fired resumed fire ended) hrun hset
  have hrow : (s'.awaited e).schedule port kHousekeepingScheduleIndex = s'.schedule port kHousekeepingScheduleIndex := by
    rw [awaited_schedule]
  have hreported : (s'.awaited e).intervalUs port 252 = (ms * 1000).toInt32 := by
    show (if ((s'.awaited e).schedule port kHousekeepingScheduleIndex).enabled then _ else _) = _
    rw [hrow, if_pos henabled, hms]
  refine ⟨(ms * 1000).toInt32, toInt_us hfits, ?_⟩
  unfold heard
  rw [hreceived]
  dsimp only
  rw [dispatch_command _ c _ hmsg, commandLong_get _ c _ _ _ hget, hport,
    getMessageInterval_spec _ c port _ _ 252 (by rw [hid]; rfl), hreported]

/-! ## The table -/

/-- What the command is to do with the two parameters: another id is denied and changes nothing, an
interval below a second is denied, none switches the row off and a second or more switches it on. -/
structure SetTable (c : Conversion) (port : Fin 2) (param1 param2 : ℚ) (r : Nat → Readings) (s s' : TaskMavlink) : Prop where
  other_id : param1 ≠ 252 → s' = s.sendCommandAck port cmdSetMessageInterval resultDenied (r 0)
  too_fast : param1 = 252 → 0 < param2 → param2 < 1000000 →
    s'.offered = s.offered ++ [(port, .commandAck ⟨cmdSetMessageInterval, resultDenied⟩)] ∧ s'.schedule = s.schedule
  off : param1 = 252 → param2 ≤ 0 →
    s'.offered = s.offered ++ [(port, .commandAck ⟨cmdSetMessageInterval, resultAccepted⟩)] ∧
      (s'.schedule port kHousekeepingScheduleIndex).enabled = false
  on : param1 = 252 → 1000000 ≤ param2 →
    s'.offered = s.offered ++ [(port, .commandAck ⟨cmdSetMessageInterval, resultAccepted⟩)] ∧
      (s'.schedule port kHousekeepingScheduleIndex).enabled = true ∧
      ((s'.schedule port kHousekeepingScheduleIndex).intervalMs.toNat : ℤ) = ⌊param2 / 1000⌋ ∧ 1000 ≤ ⌊param2 / 1000⌋ ∧
      s'.ReportsLater c port (1000 * ⌊param2 / 1000⌋)
  rows : ∀ p row, (p, row) ≠ (port, kHousekeepingScheduleIndex) → s'.schedule p row = s.schedule p row

theorem setRow_schedule (s : TaskMavlink) (port : Fin 2) (row : Fin 5) (entry : ScheduleEntry) :
    (s.setRow port row entry).schedule port row = entry ∧
      ∀ p row', (p, row') ≠ (port, row) → (s.setRow port row entry).schedule p row' = s.schedule p row' := by
  unfold setRow
  dsimp only
  constructor
  · rw [Function.update_self, Function.update_self]
  · intro p row' hne
    by_cases hport : p = port
    · subst hport
      have hrow : row' ≠ row := fun h => hne (by rw [h])
      rw [Function.update_self, Function.update_of_ne hrow]
    · rw [Function.update_of_ne hport]

/-- A denial meets every row of the table but the two that accept. -/
theorem SetTable.denied {param1 param2 : ℚ} (r : Nat → Readings)
    (h : param1 = 252 → 0 < param2 ∧ param2 < 1000000) :
    SetTable c port param1 param2 r s (s.sendCommandAck port cmdSetMessageInterval resultDenied (r 0)) := by
  refine ⟨fun _ => rfl, fun _ _ _ => ⟨rfl, rfl⟩, fun hid hoff => ?_, fun hid hon => ?_, fun _ _ _ => rfl⟩
  · linarith [(h hid).1]
  · linarith [(h hid).2]

/-- An accepted set is no denial. -/
theorem accepted_ne_denied (s : TaskMavlink) (port : Fin 2) (entry : ScheduleEntry) (readings : Readings) :
    ((s.setRow port kHousekeepingScheduleIndex entry).sendCommandAck port cmdSetMessageInterval resultAccepted
      readings).offered ≠ s.offered ++ [(port, .commandAck ⟨cmdSetMessageInterval, resultDenied⟩)] := by
  intro h
  have haccepted : s.offered ++ [(port, .commandAck ⟨cmdSetMessageInterval, resultAccepted⟩)] =
      s.offered ++ [(port, .commandAck ⟨cmdSetMessageInterval, resultDenied⟩)] := h
  rw [List.append_cancel_left_eq] at haccepted
  simp [resultAccepted, resultDenied] at haccepted

section

variable (s : TaskMavlink) (c : Conversion) (now : UInt32) (port : Fin 2) (r : Nat → Readings) {command : CommandLong}
  {param1 param2 : ℚ} (hparam1 : command.param1 = .finite param1) (hparam2 : command.param2 = .finite param2)
  (hlow : -2147483648 ≤ param2) (hhigh : param2 < 2147483648)

include hparam1 hparam2 hlow hhigh

/-- Below one microsecond the command switches the row off. -/
theorem setTable_off (hread : ReadsAs252 c param1) (hoff : param2 < 1) :
    SetTable c port param1 param2 r s (s.setMessageInterval c now port command r) ↔ param1 = 252 ∧ param2 ≤ 0 := by
  rw [s.setMessageInterval_off c now port r hparam1 hparam2 hlow hhigh hread hoff]
  generalize hentry : ({ s.schedule port kHousekeepingScheduleIndex with enabled := false } : ScheduleEntry) = entry
  have hrow := s.setRow_schedule port kHousekeepingScheduleIndex entry
  constructor
  · intro h
    have hid : param1 = 252 := by
      by_contra hid
      exact s.accepted_ne_denied port entry (r 0) (congrArg TaskMavlink.offered (h.other_id hid))
    refine ⟨hid, ?_⟩
    by_contra hpositive
    exact s.accepted_ne_denied port entry (r 0) (h.too_fast hid (by linarith) (by linarith)).1
  · rintro ⟨hid, hzero⟩
    refine ⟨fun hother => absurd hid hother, fun _ hpositive => by linarith, fun _ _ => ⟨rfl, ?_⟩, fun _ hon => by linarith,
      hrow.2⟩
    show ((s.setRow port kHousekeepingScheduleIndex entry).schedule port kHousekeepingScheduleIndex).enabled = false
    rw [hrow.1, ← hentry]

/-- From a second on it switches the row on. -/
theorem setTable_on (hread : ReadsAs252 c param1) (hslow : 1000000 ≤ param2) :
    SetTable c port param1 param2 r s (s.setMessageInterval c now port command r) ↔ param1 = 252 := by
  obtain ⟨ms, hms, hfits, heq⟩ := s.setMessageInterval_on c now port r hparam1 hparam2 hlow hhigh hread hslow
  rw [heq]
  generalize hentry : ({ s.schedule port kHousekeepingScheduleIndex with
    intervalMs := ms, lastMs := now, enabled := true } : ScheduleEntry) = entry
  have hrow := (s.setRow_schedule port kHousekeepingScheduleIndex entry).1
  have hruns : ((s.setRow port kHousekeepingScheduleIndex entry).sendCommandAck port cmdSetMessageInterval resultAccepted
      (r 0)).RunsAt port kHousekeepingScheduleIndex ms := by
    constructor
    · show ((s.setRow port kHousekeepingScheduleIndex entry).schedule port kHousekeepingScheduleIndex).enabled = true
      rw [hrow, ← hentry]
    · show ((s.setRow port kHousekeepingScheduleIndex entry).schedule port kHousekeepingScheduleIndex).intervalMs = ms
      rw [hrow, ← hentry]
  constructor
  · intro h
    by_contra hid
    exact s.accepted_ne_denied port entry (r 0) (congrArg TaskMavlink.offered (h.other_id hid))
  · intro hid
    refine ⟨fun hother => absurd hid hother, fun _ _ hfast => by linarith, fun _ hoff => by linarith, fun _ _ => ?_,
      (s.setRow_schedule port kHousekeepingScheduleIndex entry).2⟩
    have hfloor : (1000 : ℤ) ≤ ⌊param2 / 1000⌋ := Int.le_floor.2 (by push_cast; linarith)
    exact ⟨rfl, hruns.1, by rw [hruns.2, hms], hfloor, hms ▸ hruns.reportsLater hfits⟩

theorem setTable_iff :
    SetTable c port param1 param2 r s (s.setMessageInterval c now port command r) ↔
      param1 = 252 ∧ ¬ (0 < param2 ∧ param2 < 1) ∨
        param1 ≠ 252 ∧ (ReadsAs252 c param1 → 1 ≤ param2 ∧ param2 < 1000000) := by
  have h252 : ∀ {x : ℚ}, x = 252 → ReadsAs252 c x := by
    rintro x rfl
    exact Or.inl (by norm_num)
  by_cases hread : ReadsAs252 c param1
  swap
  · rw [s.setMessageInterval_unread c now port r hparam1 hread]
    have hid : param1 ≠ 252 := fun h => hread (h252 h)
    simp only [hid, false_and, ne_eq, not_false_eq_true, true_and, false_or, hread, false_implies, iff_true]
    exact SetTable.denied r fun h => absurd h hid
  by_cases hoff : param2 < 1
  · rw [s.setTable_off c now port r hparam1 hparam2 hlow hhigh hread hoff]
    simp only [hoff, and_true, hread, true_implies, not_lt]
    constructor
    · exact fun h => Or.inl h
    · rintro (h | ⟨-, hone, -⟩)
      · exact h
      · linarith
  by_cases hslow : 1000000 ≤ param2
  · rw [s.setTable_on c now port r hparam1 hparam2 hlow hhigh hread hslow]
    constructor
    · exact fun h => Or.inl ⟨h, fun hsmall => hoff hsmall.2⟩
    · rintro (h | ⟨-, hfast⟩)
      · exact h.1
      · linarith [(hfast hread).2]
  · rw [s.setMessageInterval_tooFast c now port r hparam1 hparam2 hlow hhigh hread (by linarith) (by linarith)]
    constructor
    · intro _
      by_cases hid : param1 = 252
      · exact Or.inl ⟨hid, fun hsmall => hoff hsmall.2⟩
      · exact Or.inr ⟨hid, fun _ => ⟨by linarith, by linarith⟩⟩
    · exact fun _ => SetTable.denied r fun _ => ⟨by linarith, by linarith⟩

end

/-- Every `MAV_CMD_SET_MESSAGE_INTERVAL` with two finite parameters, on either port and in every state,
keeps to its table exactly if it names 252 and no interval between none and one microsecond, or names
another id that is not read as 252 or comes with an interval that is denied anyway. -/
theorem dispatch_setTable_iff (s : TaskMavlink) (c : Conversion) (now : UInt32) (inbound : InboundMsg) (r : Nat → Readings)
    (hmsg : inbound.msg.msgid = msgIdCommandLong) (hset : inbound.msg.commandLong.command = cmdSetMessageInterval)
    (param1 param2 : ℚ) (hparam1 : inbound.msg.commandLong.param1 = .finite param1)
    (hparam2 : inbound.msg.commandLong.param2 = .finite param2) (hlow : -2147483648 ≤ param2) (hhigh : param2 < 2147483648) :
    SetTable c inbound.chan param1 param2 r s (s.dispatch c now inbound r) ↔
      param1 = 252 ∧ ¬ (0 < param2 ∧ param2 < 1) ∨
        param1 ≠ 252 ∧ (ReadsAs252 c param1 → 1 ≤ param2 ∧ param2 < 1000000) := by
  rw [s.dispatch_command c now hmsg, s.commandLong_set c now _ r hset]
  exact s.setTable_iff c now inbound.chan r hparam1 hparam2 hlow hhigh

/-- Two seconds for housekeeping, as a board that has just begun takes them. -/
theorem dispatch_setTable_twoSeconds :
    SetTable .vcvt linkChanUsb 252 2000000 (fun _ => quiet) freshStart.task
      (freshStart.task.dispatch .vcvt 0 (longCommand cmdSetMessageInterval (.finite 252) (.finite 2000000)) fun _ => quiet) :=
  (freshStart.task.dispatch_setTable_iff .vcvt 0 (longCommand cmdSetMessageInterval (.finite 252) (.finite 2000000))
    (fun _ => quiet) rfl rfl 252 2000000 rfl rfl (by norm_num) (by norm_num)).2 (Or.inl ⟨rfl, by norm_num⟩)

/-- Half an id above 252 arms the row, and half a microsecond switches it off. -/
theorem setTable_fractions :
    ¬ SetTable .vcvt linkChanUsb (505 / 2) 2000000 (fun _ => quiet) freshStart.task
      (freshStart.task.dispatch .vcvt 0 (longCommand cmdSetMessageInterval (.finite (505 / 2)) (.finite 2000000))
        fun _ => quiet) ∧
    ¬ SetTable .vcvt linkChanUsb 252 (1 / 2) (fun _ => quiet) freshStart.task
      (freshStart.task.dispatch .vcvt 0 (longCommand cmdSetMessageInterval (.finite 252) (.finite (1 / 2)))
        fun _ => quiet) := by
  constructor
  · rw [freshStart.task.dispatch_command .vcvt 0 rfl, freshStart.task.commandLong_set .vcvt 0 _ _ rfl]
    intro h
    have hid := (@setTable_on freshStart.task .vcvt 0 linkChanUsb (fun _ => quiet)
      (longCommand cmdSetMessageInterval (.finite (505 / 2)) (.finite 2000000)).msg.commandLong (505 / 2) 2000000 rfl rfl
      (by norm_num) (by norm_num) (Or.inl (by norm_num)) (by norm_num)).1 h
    norm_num at hid
  · rw [freshStart.task.dispatch_command .vcvt 0 rfl, freshStart.task.commandLong_set .vcvt 0 _ _ rfl]
    intro h
    have hoff := (@setTable_off freshStart.task .vcvt 0 linkChanUsb (fun _ => quiet)
      (longCommand cmdSetMessageInterval (.finite 252) (.finite (1 / 2))).msg.commandLong 252 (1 / 2) rfl rfl
      (by norm_num) (by norm_num) (Or.inl (by norm_num)) (by norm_num)).1 h
    norm_num at hoff

end TaskMavlink

end BoredomOS.Link
