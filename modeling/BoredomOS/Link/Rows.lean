/-
What a pass does to the rows of the schedule. Before the firing loop a row is as it was, unless it is
the housekeeping row of the port a `MAV_CMD_SET_MESSAGE_INTERVAL` arrived on; the loop then advances
exactly the rows that are due, each once, and touches nothing else of them. In between the task waits for
the least of what is left of the rows that are on.
-/
import BoredomOS.Link.Effects

namespace BoredomOS.Link

theorem port_cases : ∀ port : Fin 2, port = linkChanUart ∨ port = linkChanUsb := by decide

theorem Start.task_schedule (b : Start) :
    b.task.schedule = fun _ => schedule (tickMs b.bootMs) b.running.info.reducedConfiguration := by
  unfold Start.task TaskMavlink.sendClockStatusText
  rfl

namespace TaskMavlink

variable (s : TaskMavlink)

/-! ## Up to the firing loop -/

theorem reconcile_schedule (now : UInt32) (r : Nat → Readings) : (s.reconcile now r).schedule = s.schedule := by
  by_cases h : now - s.lastReseedMs < kClockReseedIntervalMs
  · rw [s.reconcile_early h]
  · obtain ⟨t₁, t₂, q, records, -, -, -, heq⟩ := s.reconcile_spec h r
    rw [heq]
    exact (s.reportChange_frame t₁ r).2.1

theorem recordBattery_schedule (now : UInt32) (r : Readings) : (s.recordBattery now r).schedule = s.schedule := by
  obtain ⟨t, q, records, last, -, -, heq⟩ := s.recordBattery_spec now r
  rw [heq]

/-- The command that may change a row. -/
def IsSet (inbound : InboundMsg) (port : Fin 2) (row : Fin 5) : Prop :=
  inbound.chan = port ∧ row = kHousekeepingScheduleIndex ∧ inbound.msg.msgid = msgIdCommandLong ∧
    inbound.msg.commandLong.command = cmdSetMessageInterval

theorem dispatch_schedule (c : Conversion) (now : UInt32) (inbound : InboundMsg) (r : Nat → Readings) (port : Fin 2)
    (row : Fin 5) :
    (s.dispatch c now inbound r).schedule port row = s.schedule port row ∨
      IsSet inbound port row ∧ SetRow now (s.schedule port row) ((s.dispatch c now inbound r).schedule port row) := by
  have h := s.dispatch_cases c now inbound r
  generalize s.dispatch c now inbound r = s' at h ⊢
  cases h with
  | silent => exact Or.inl rfl
  | replied => exact Or.inl rfl
  | forwarded => exact Or.inl rfl
  | timed answer t₁ =>
    left
    show (s.reportChange t₁ r).schedule port row = s.schedule port row
    rw [(s.reportChange_frame t₁ r).2.1]
  | commanded is_command effect =>
    cases effect with
    | acknowledged => exact Or.inl rfl
    | rebooted => exact Or.inl rfl
    | preceded => exact Or.inl rfl
    | followed => exact Or.inl rfl
    | scheduled result entry once set is_set =>
      show Function.update s.schedule inbound.chan _ port row = s.schedule port row ∨ IsSet inbound port row ∧
        SetRow now (s.schedule port row) (Function.update s.schedule inbound.chan _ port row)
      by_cases hport : port = inbound.chan
      · subst hport
        rw [Function.update_self]
        by_cases hrow : row = kHousekeepingScheduleIndex
        · subst hrow
          rw [Function.update_self]
          exact Or.inr ⟨⟨rfl, rfl, is_command, is_set⟩, set⟩
        · exact Or.inl (Function.update_of_ne hrow _ _)
      · left
        rw [Function.update_of_ne hport]

/-- The state the wait comes back to. -/
def awaited (e : Pass) : TaskMavlink :=
  let now := tickMs e.started
  let s := (s.reconcile now e.reconcile).recordBattery now e.battery
  { s with waited := some (pdMS_TO_TICKS (s.waitMs now)) }

/-- The state at the end of the `switch`. -/
def heard (c : Conversion) (e : Pass) : TaskMavlink :=
  match e.received with
  | some inbound => (s.awaited e).dispatch c (tickMs e.started) inbound e.dispatch
  | none => s.awaited e

theorem running_of_step {c : Conversion} {s s' : TaskMavlink} {e : Pass} (h : step c s e = some s') :
    s.running.resetting = none := by
  unfold step at h
  split at h
  · cases h
  · rename_i hrunning
    simpa using hrunning

theorem pass_of_step {c : Conversion} {s s' : TaskMavlink} {e : Pass} (h : step c s e = some s') :
    s.pass c e = s' := by
  unfold step at h
  split at h
  · cases h
  · exact Option.some.inj h

theorem pass_eq (c : Conversion) (e : Pass) :
    s.pass c e = if (s.heard c e).running.resetting.isSome then s.heard c e
      else ((s.heard c e).fire (tickMs e.resumed) e.fire).endPass e.ended := rfl

theorem awaited_running (e : Pass) : (s.awaited e).running = s.running := by
  have hreconcile : (s.reconcile (tickMs e.started) e.reconcile).running = s.running := by
    by_cases h : tickMs e.started - s.lastReseedMs < kClockReseedIntervalMs
    · rw [s.reconcile_early h]
    · obtain ⟨t₁, t₂, q, records, -, -, -, heq⟩ := s.reconcile_spec h e.reconcile
      rw [heq]
      exact (s.reportChange_frame t₁ e.reconcile).2.2.2
  obtain ⟨t, q, records, last, -, -, heq⟩ :=
    (s.reconcile (tickMs e.started) e.reconcile).recordBattery_spec (tickMs e.started) e.battery
  show ((s.reconcile (tickMs e.started) e.reconcile).recordBattery (tickMs e.started) e.battery).running = s.running
  rw [heq, ← hreconcile]

theorem awaited_schedule (e : Pass) : (s.awaited e).schedule = s.schedule := by
  show ((s.reconcile (tickMs e.started) e.reconcile).recordBattery (tickMs e.started) e.battery).schedule = s.schedule
  rw [recordBattery_schedule, reconcile_schedule]

theorem heard_schedule (c : Conversion) (e : Pass) (port : Fin 2) (row : Fin 5) :
    (s.heard c e).schedule port row = s.schedule port row ∨
      (∃ inbound ∈ e.received, IsSet inbound port row) ∧
        SetRow (tickMs e.started) (s.schedule port row) ((s.heard c e).schedule port row) := by
  unfold heard
  rw [← s.awaited_schedule e]
  cases e.received with
  | none => exact Or.inl rfl
  | some inbound =>
    rcases (s.awaited e).dispatch_schedule c (tickMs e.started) inbound e.dispatch port row with heq | ⟨hset, hrow⟩
    · exact Or.inl heq
    · exact Or.inr ⟨⟨inbound, rfl, hset⟩, hrow⟩

/-! ## The firing loop -/

theorem fireRow_schedule (now : UInt32) (r : Fin 2 → Fin 5 → Readings) (row : Fin 2 × Fin 5) :
    (fireRow now r s row).schedule = Function.update s.schedule row.1 (Function.update (s.schedule row.1) row.2
      (if (s.schedule row.1 row.2).isDue now then (s.schedule row.1 row.2).advance else s.schedule row.1 row.2)) := by
  unfold fireRow
  dsimp only
  split
  · obtain ⟨m, t, cursor, -, -, -, -, hcall⟩ := s.call_spec (s.schedule row.1 row.2).function row.1 (r row.1 row.2)
    rw [hcall]
    rfl
  · rw [Function.update_eq_self, Function.update_eq_self]

/-- Over any rows without repetition, each is looked at as it was before the loop. -/
theorem foldl_fireRow_schedule (now : UInt32) (r : Fin 2 → Fin 5 → Readings) (port : Fin 2) (row : Fin 5) :
    ∀ (l : List (Fin 2 × Fin 5)) (s : TaskMavlink), l.Nodup →
      (l.foldl (fireRow now r) s).schedule port row =
        if (port, row) ∈ l ∧ (s.schedule port row).isDue now then (s.schedule port row).advance else s.schedule port row
  | [], s, _ => by simp
  | x :: l, s, h => by
    obtain ⟨hx, hl⟩ := List.nodup_cons.1 h
    rw [List.foldl_cons, foldl_fireRow_schedule now r port row l _ hl, fireRow_schedule]
    by_cases hport : port = x.1
    · by_cases hrow : row = x.2
      · subst hport
        subst hrow
        have hnot : ¬ (x.1, x.2) ∈ l := hx
        simp [hnot]
      · have hne : (port, row) ≠ x := fun heq => hrow (congrArg Prod.snd heq)
        subst hport
        simp [Function.update_of_ne hrow, hne]
    · have hne : (port, row) ≠ x := fun heq => hport (congrArg Prod.fst heq)
      simp [Function.update_of_ne hport, hne]

/-- A row of the loop leaves the others as they are. -/
theorem fireRow_other {now : UInt32} {r : Fin 2 → Fin 5 → Readings} {x y : Fin 2 × Fin 5} {l : List (Fin 2 × Fin 5)}
    (hx : x ∉ l) (hy : y ∈ l) : (fireRow now r s x).schedule y.1 y.2 = s.schedule y.1 y.2 := by
  have hone := foldl_fireRow_schedule now r y.1 y.2 [x] s (List.nodup_singleton x)
  rwa [if_neg] at hone
  rintro ⟨heq, -⟩
  exact hx (List.mem_singleton.1 heq ▸ hy)

theorem rows_nodup : rows.Nodup := by decide

theorem mem_rows (port : Fin 2) (row : Fin 5) : (port, row) ∈ rows := by
  revert port row
  decide

theorem fire_schedule (now : UInt32) (r : Fin 2 → Fin 5 → Readings) (port : Fin 2) (row : Fin 5) :
    (s.fire now r).schedule port row =
      if (s.schedule port row).isDue now then (s.schedule port row).advance else s.schedule port row := by
  unfold fire
  rw [foldl_fireRow_schedule now r port row rows s rows_nodup]
  simp [mem_rows]

/-- Firing is no business of the boot's record, nor of the wait. -/
theorem fireRow_frame (now : UInt32) (r : Fin 2 → Fin 5 → Readings) (x : Fin 2 × Fin 5) :
    (fireRow now r s x).running = s.running ∧ (fireRow now r s x).waited = s.waited := by
  unfold fireRow
  dsimp only
  split
  · obtain ⟨m, t, cursor, -, -, -, -, hcall⟩ := s.call_spec (s.schedule x.1 x.2).function x.1 (r x.1 x.2)
    rw [hcall]
    exact ⟨rfl, rfl⟩
  · exact ⟨rfl, rfl⟩

theorem fire_frame (now : UInt32) (r : Fin 2 → Fin 5 → Readings) :
    (s.fire now r).running = s.running ∧ (s.fire now r).waited = s.waited := by
  unfold fire
  induction rows generalizing s with
  | nil => exact ⟨rfl, rfl⟩
  | cons x l ih =>
    obtain ⟨hrunning, hwaited⟩ := s.fireRow_frame now r x
    rw [List.foldl_cons, ← hrunning, ← hwaited]
    exact ih (fireRow now r s x)

/-- Each due row is called once, in the order of the rows, with one item of its own message. -/
theorem foldl_fireRow_offered (now : UInt32) (r : Fin 2 → Fin 5 → Readings) : ∀ (l : List (Fin 2 × Fin 5)) (s : TaskMavlink),
    l.Nodup → ∃ m : Fin 2 × Fin 5 → LinkMsg, (∀ x ∈ l, (m x).PackedAs (s.schedule x.1 x.2).function.msgid) ∧
      (l.foldl (fireRow now r) s).offered =
        s.offered ++ (l.filter fun x => (s.schedule x.1 x.2).isDue now).map fun x => (x.1, m x)
  | [], s, _ => ⟨fun _ => .heartbeat, by simp, by simp⟩
  | x :: l, s, h => by
    obtain ⟨hx, hl⟩ := List.nodup_cons.1 h
    obtain ⟨m, hm, hoffered⟩ := foldl_fireRow_offered now r l (fireRow now r s x) hl
    have hsame : ∀ y ∈ l, (fireRow now r s x).schedule y.1 y.2 = s.schedule y.1 y.2 := fun y hy => s.fireRow_other hx hy
    have hfilter : (l.filter fun y => ((fireRow now r s x).schedule y.1 y.2).isDue now) =
        l.filter fun y => (s.schedule y.1 y.2).isDue now :=
      List.filter_congr fun y hy => by rw [hsame y hy]
    have hone : ∃ mx : LinkMsg, mx.PackedAs (s.schedule x.1 x.2).function.msgid ∧ (fireRow now r s x).offered =
        s.offered ++ if (s.schedule x.1 x.2).isDue now then [(x.1, mx)] else [] := by
      obtain ⟨mx, t, cursor, hpacked, -, -, -, hcall⟩ := s.call_spec (s.schedule x.1 x.2).function x.1 (r x.1 x.2)
      refine ⟨mx, hpacked, ?_⟩
      unfold fireRow
      dsimp only
      split
      · rw [hcall]
        rfl
      · exact (List.append_nil _).symm
    obtain ⟨mx, hmx, hfired⟩ := hone
    refine ⟨Function.update m x mx, ?_, ?_⟩
    · intro y hy
      by_cases heq : y = x
      · subst heq
        rwa [Function.update_self]
      · have hyl := (List.mem_cons.1 hy).resolve_left heq
        rw [Function.update_of_ne heq, ← hsame y hyl]
        exact hm y hyl
    · have hmap : (l.filter fun y => (s.schedule y.1 y.2).isDue now).map (fun y => (y.1, Function.update m x mx y)) =
          (l.filter fun y => (s.schedule y.1 y.2).isDue now).map fun y => (y.1, m y) := by
        refine List.map_congr_left fun y hy => ?_
        have hne : y ≠ x := fun heq => hx (heq ▸ (List.mem_filter.1 hy).1)
        rw [Function.update_of_ne hne]
      rw [List.foldl_cons, hoffered, hfired, hfilter, List.append_assoc, List.filter_cons]
      split
      · rw [List.map_cons, hmap, Function.update_self]
        rfl
      · rw [hmap]
        rfl

theorem fire_offered (now : UInt32) (r : Fin 2 → Fin 5 → Readings) : ∃ m : Fin 2 × Fin 5 → LinkMsg,
    (∀ x, (m x).PackedAs (s.schedule x.1 x.2).function.msgid) ∧ (s.fire now r).offered =
      s.offered ++ (rows.filter fun x => (s.schedule x.1 x.2).isDue now).map fun x => (x.1, m x) := by
  obtain ⟨m, hm, hoffered⟩ := foldl_fireRow_offered now r rows s rows_nodup
  exact ⟨m, fun x => hm x (mem_rows x.1 x.2), hoffered⟩

/-- The row fires in this pass. -/
def fires (c : Conversion) (e : Pass) (port : Fin 2) (row : Fin 5) : Bool :=
  !(s.heard c e).running.resetting.isSome && ((s.heard c e).schedule port row).isDue (tickMs e.resumed)

theorem pass_row (c : Conversion) (e : Pass) (port : Fin 2) (row : Fin 5) : (s.pass c e).schedule port row =
    if s.fires c e port row then ((s.heard c e).schedule port row).advance else (s.heard c e).schedule port row := by
  unfold fires
  rw [pass_eq]
  cases (s.heard c e).running.resetting.isSome with
  | true => rfl
  | false => exact (s.heard c e).fire_schedule (tickMs e.resumed) e.fire port row

/-- A pass leaves a row as it stood after the `switch`, or advances it, if no reset is under way. -/
theorem pass_schedule (c : Conversion) (e : Pass) (port : Fin 2) (row : Fin 5) :
    (s.pass c e).schedule port row = (s.heard c e).schedule port row ∨
      (s.pass c e).schedule port row = ((s.heard c e).schedule port row).advance := by
  rw [pass_row]
  split
  · exact Or.inr rfl
  · exact Or.inl rfl

/-! ## The wait -/

/-- A loop that keeps the least key of what it looks at, and what it started with if there is none below. -/
theorem foldl_least {α : Type} (f : UInt32 → α → UInt32) (on : α → Bool) (key : α → UInt32)
    (hf : ∀ w x, f w x = if !on x then w else if key x < w then key x else w) : ∀ (l : List α) (w : UInt32),
    l.foldl f w ≤ w ∧ (∀ x ∈ l, on x = true → l.foldl f w ≤ key x) ∧
      (l.foldl f w = w ∨ ∃ x ∈ l, on x = true ∧ l.foldl f w = key x)
  | [], w => ⟨UInt32.le_refl w, by simp, Or.inl rfl⟩
  | x :: l, w => by
    obtain ⟨hle, hleast, hattained⟩ := foldl_least f on key hf l (f w x)
    have hstep : f w x ≤ w ∧ (on x = true → f w x ≤ key x) ∧ (f w x = w ∨ on x = true ∧ f w x = key x) := by
      rw [hf]
      cases hon : on x with
      | false => simp
      | true =>
        by_cases hlt : key x < w
        · simp [hlt, UInt32.le_of_lt hlt]
        · simp [hlt, UInt32.not_lt.1 hlt]
    obtain ⟨hw, hx, hcases⟩ := hstep
    rw [List.foldl_cons]
    refine ⟨UInt32.le_trans hle hw, ?_, ?_⟩
    · rintro y hy hon
      rcases List.mem_cons.1 hy with rfl | hy
      · exact UInt32.le_trans hle (hx hon)
      · exact hleast y hy hon
    · rcases hattained with heq | ⟨y, hy, hon, heq⟩
      · rcases hcases with hsame | ⟨hon, hkey⟩
        · exact Or.inl (heq.trans hsame)
        · exact Or.inr ⟨x, List.mem_cons_self, hon, heq.trans hkey⟩
      · exact Or.inr ⟨y, List.mem_cons_of_mem x hy, hon, heq⟩

/-- The least of what is left of the rows that are on, if one of them is. -/
theorem waitMs_spec (now : UInt32) :
    (∀ port row, (s.schedule port row).enabled = true → s.waitMs now ≤ (s.schedule port row).due now) ∧
      (s.waitMs now = 0xFFFFFFFF ∨
        ∃ port row, (s.schedule port row).enabled = true ∧ s.waitMs now = (s.schedule port row).due now) := by
  obtain ⟨-, hleast, hattained⟩ := foldl_least (fun waitMs (x : Fin 2 × Fin 5) =>
    if !(s.schedule x.1 x.2).enabled then waitMs
    else if (s.schedule x.1 x.2).due now < waitMs then (s.schedule x.1 x.2).due now else waitMs)
    (fun x => (s.schedule x.1 x.2).enabled) (fun x => (s.schedule x.1 x.2).due now) (fun _ _ => rfl) rows 0xFFFFFFFF
  refine ⟨fun port row hon => hleast (port, row) (mem_rows port row) hon, hattained.imp_right ?_⟩
  rintro ⟨x, -, hon, heq⟩
  exact ⟨x.1, x.2, hon, heq⟩

/-- A millisecond is a tick, below the 4294968 that overflow. -/
theorem pdMS_TO_TICKS_of_le {ms : UInt32} (h : ms.toNat ≤ 1000) : pdMS_TO_TICKS ms = ms := by
  rw [← UInt32.toNat_inj]
  unfold pdMS_TO_TICKS
  rw [UInt32.toNat_div, UInt32.toNat_mul, show (1000 : UInt32).toNat = 1000 from rfl]
  omega

theorem awaited_waited (e : Pass) : (s.awaited e).waited = some (pdMS_TO_TICKS (s.waitMs (tickMs e.started))) := by
  have hschedule := s.awaited_schedule e
  show some (pdMS_TO_TICKS ((s.awaited e).waitMs (tickMs e.started))) = _
  unfold waitMs
  rw [hschedule]

end TaskMavlink

end BoredomOS.Link
