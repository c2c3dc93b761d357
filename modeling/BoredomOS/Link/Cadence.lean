/-
The firing loop against the same loop in time that does not wrap. The rows of the second one hold their
last time as an integer, before the reset or after any number of wraps; while no row is found 2^32
milliseconds behind, the 32-bit rows show the same elapsed time and fire in the same passes.
-/
import BoredomOS.Lib.Periodic
import BoredomOS.Link.Queries
import BoredomOS.Link.Replies

namespace BoredomOS.Link

open Runs

/-! ## The ideal loop -/

/-- A row of the schedule, in milliseconds that are not counted in 32 bits. -/
structure IdealEntry where
  intervalMs : Nat
  lastMs : Int
  enabled : Bool

/-- The rows as the task begins; the first times may lie before the reset. -/
def idealSchedule (startMs : Nat) (reducedConfiguration : Bool) : Fin 5 → IdealEntry :=
  ![⟨1000, startMs - 1000, true⟩,
    ⟨1000, startMs - 500, true⟩,
    ⟨2000, startMs - 2000, !reducedConfiguration⟩,
    ⟨1000, startMs, false⟩,
    ⟨1000, startMs - 250, true⟩]

/-- A pass that ends in the reset its message commands. -/
def Pass.reboots (e : Pass) : Bool :=
  e.received.any fun inbound => inbound.msg.msgid = TaskMavlink.msgIdCommandLong &&
    inbound.msg.commandLong.command = TaskMavlink.cmdPreflightRebootShutdown

namespace IdealEntry

variable (entry : IdealEntry)

def isDue (now : Int) : Bool := entry.enabled && (entry.intervalMs : Int) ≤ now - entry.lastMs

/-- The time left to the next deadline, none if it is past. -/
def due (now : Int) : Int := max 0 (entry.lastMs + entry.intervalMs - now)

def advance : IdealEntry := { entry with lastMs := entry.lastMs + entry.intervalMs }

/-- What `MAV_CMD_SET_MESSAGE_INTERVAL` makes of a row. -/
def set (c : Conversion) (now : Int) (command : CommandLong) : IdealEntry :=
  if c.toUInt16 command.param1 = TaskMavlink.msgIdNamedValueInt then
    let requestedUs := (c.toInt32 command.param2).toInt
    if requestedUs ≤ 0 then { entry with enabled := false }
    else if requestedUs / 1000 < 1000 then entry
    else { intervalMs := (requestedUs / 1000).toNat, lastMs := now, enabled := true }
  else entry

instance (inbound : InboundMsg) (port : Fin 2) (row : Fin 5) : Decidable (TaskMavlink.IsSet inbound port row) :=
  inferInstanceAs (Decidable (_ ∧ _ ∧ _ ∧ _))

variable (c : Conversion) (port : Fin 2) (row : Fin 5) (e : Pass)

/-- The row behind the message of a pass. -/
def heard : IdealEntry :=
  match e.received with
  | some inbound => if TaskMavlink.IsSet inbound port row then entry.set c e.started inbound.msg.commandLong else entry
  | none => entry

def fires : Bool := !e.reboots && (entry.heard c port row e).isDue e.resumed

/-- The row behind the firing loop, if the pass comes to it. -/
def look : IdealEntry := if !e.reboots && entry.isDue e.resumed then entry.advance else entry

def pass : IdealEntry := (entry.heard c port row e).look e

/-- The row behind these passes. -/
def passes (es : List Pass) : IdealEntry := es.foldl (fun entry e => entry.pass c port row e) entry

end IdealEntry

/-- The passes look at the clock in the order of its time. -/
def InOrder : Nat → List Pass → Prop
  | _, [] => True
  | t, e :: es => t ≤ e.started ∧ e.started ≤ e.resumed ∧ InOrder e.resumed es

/-- No pass finds the row 2^32 milliseconds behind while it is on. -/
def InReach (c : Conversion) (port : Fin 2) (row : Fin 5) : IdealEntry → List Pass → Prop
  | _, [] => True
  | entry, e :: es =>
    (entry.enabled = true → e.started - entry.lastMs < 2 ^ 32) ∧
      ((entry.heard c port row e).enabled = true → e.resumed - (entry.heard c port row e).lastMs < 2 ^ 32) ∧
      InReach c port row (entry.pass c port row e) es

/-! ## One row of the two loops -/

/-- The 32-bit row of an ideal one. -/
structure IdealEntry.Wraps (ideal : IdealEntry) (entry : ScheduleEntry) : Prop where
  intervalMs : entry.intervalMs.toNat = ideal.intervalMs
  lastMs : entry.lastMs = UInt32.ofInt ideal.lastMs
  enabled : entry.enabled = ideal.enabled

theorem toBitVec_ofInt (x : Int) : (UInt32.ofInt x).toBitVec = BitVec.ofInt 32 x := by
  apply BitVec.eq_of_toNat_eq
  rw [BitVec.toNat_ofInt, UInt32.toNat_toBitVec, UInt32.ofInt, UInt32.toNat_ofNat']
  omega

theorem tickMs_eq (ms : Nat) : tickMs ms = UInt32.ofInt ms := by
  apply UInt32.toNat_inj.1
  unfold tickMs UInt32.ofInt
  rw [UInt32.toNat_ofNat', UInt32.toNat_ofNat']
  omega

theorem elapsed_eq {last now : Int} (hle : last ≤ now) (hlt : now - last < 2 ^ 32) :
    ((UInt32.ofInt now - UInt32.ofInt last).toNat : Int) = now - last := by
  rw [← Periodic.elapsed_ofInt (w := 32) hle hlt, ← toBitVec_ofInt, ← toBitVec_ofInt, ← UInt32.toBitVec_sub,
    UInt32.toNat_toBitVec]

namespace IdealEntry.Wraps

variable {ideal : IdealEntry} {entry : ScheduleEntry} (h : ideal.Wraps entry)

include h

/-- What has gone since the last time is the same in both. -/
theorem elapsed {now : Nat} (hle : ideal.lastMs ≤ now) (hlt : (now : Int) - ideal.lastMs < 2 ^ 32) :
    ((tickMs now - entry.lastMs).toNat : Int) = now - ideal.lastMs := by
  rw [h.lastMs, tickMs_eq]
  exact elapsed_eq hle hlt

theorem isDue {now : Nat} (hle : ideal.lastMs ≤ now) (hlt : ideal.enabled = true → (now : Int) - ideal.lastMs < 2 ^ 32) :
    entry.isDue (tickMs now) = ideal.isDue now := by
  unfold ScheduleEntry.isDue IdealEntry.isDue
  rw [h.enabled]
  cases henabled : ideal.enabled with
  | false => rfl
  | true =>
    have helapsed := h.elapsed hle (hlt henabled)
    have hinterval := h.intervalMs
    rw [Bool.true_and, Bool.true_and, decide_eq_decide, UInt32.le_iff_toNat_le]
    omega

theorem due {now : Nat} (hle : ideal.lastMs ≤ now) (hlt : (now : Int) - ideal.lastMs < 2 ^ 32) :
    ((entry.due (tickMs now)).toNat : Int) = ideal.due now := by
  have helapsed := h.elapsed hle hlt
  have hinterval := h.intervalMs
  unfold ScheduleEntry.due IdealEntry.due
  dsimp only
  split
  · rename_i hpast
    rw [UInt32.le_iff_toNat_le] at hpast
    show (0 : Int) = _
    omega
  · rename_i hleft
    rw [UInt32.le_iff_toNat_le] at hleft
    rw [UInt32.toNat_sub_of_le _ _ (by rw [UInt32.le_iff_toNat_le]; omega)]
    omega

theorem advance : ideal.advance.Wraps entry.advance := by
  refine ⟨h.intervalMs, ?_, h.enabled⟩
  have hinterval : entry.intervalMs = UInt32.ofInt ideal.intervalMs := by
    rw [← tickMs_eq, ← h.intervalMs]
    exact (UInt32.ofNat_toNat).symm
  show entry.lastMs + entry.intervalMs = UInt32.ofInt (ideal.lastMs + ideal.intervalMs)
  rw [UInt32.ofInt_add, ← h.lastMs, ← hinterval]

end IdealEntry.Wraps

namespace TaskMavlink

variable (s : TaskMavlink) (c : Conversion)

/-- A set makes the same of both. -/
theorem setMessageInterval_wraps {ideal : IdealEntry} {port : Fin 2}
    (h : ideal.Wraps (s.schedule port kHousekeepingScheduleIndex)) (now : Nat) (command : CommandLong) (r : Nat → Readings) :
    (ideal.set c now command).Wraps
      ((s.setMessageInterval c (tickMs now) port command r).schedule port kHousekeepingScheduleIndex) := by
  have hrow : ∀ (ideal' : IdealEntry) (entry : ScheduleEntry) (result : UInt8), ideal'.Wraps entry → ideal'.Wraps
      (((s.setRow port kHousekeepingScheduleIndex entry).sendCommandAck port cmdSetMessageInterval result (r 0)).schedule port
        kHousekeepingScheduleIndex) := by
    intro ideal' entry result hwraps
    show ideal'.Wraps (Function.update s.schedule port (Function.update (s.schedule port) kHousekeepingScheduleIndex entry)
      port kHousekeepingScheduleIndex)
    rwa [Function.update_self, Function.update_self]
  unfold setMessageInterval IdealEntry.set
  by_cases hid : c.toUInt16 command.param1 = msgIdNamedValueInt
  swap
  · rw [if_neg hid, if_neg hid]
    exact h
  rw [if_pos hid, if_pos hid]
  dsimp only
  have hzero : c.toInt32 command.param2 ≤ 0 ↔ (c.toInt32 command.param2).toInt ≤ 0 := Int32.le_iff_toInt_le
  by_cases hoff : (c.toInt32 command.param2).toInt ≤ 0
  · rw [if_pos hoff, if_pos (hzero.2 hoff)]
    exact hrow _ _ resultAccepted ⟨h.intervalMs, h.lastMs, rfl⟩
  rw [if_neg hoff, if_neg (mt hzero.1 hoff)]
  have hms : (((c.toInt32 command.param2).toUInt32 / 1000).toNat : Int) = (c.toInt32 command.param2).toInt / 1000 := by
    have hle : 0 ≤ c.toInt32 command.param2 := by
      rw [Int32.le_iff_toInt_le]
      exact le_of_lt (not_le.1 hoff)
    rw [UInt32.toNat_div, Int32.toNat_toUInt32_of_le hle, show (1000 : UInt32).toNat = 1000 from rfl, ← Int32.toNat_toInt]
    omega
  have hfloor : (c.toInt32 command.param2).toUInt32 / 1000 < 1000 ↔ (c.toInt32 command.param2).toInt / 1000 < 1000 := by
    rw [UInt32.lt_iff_toNat_lt, show (1000 : UInt32).toNat = 1000 from rfl, ← hms]
    omega
  by_cases hfast : (c.toInt32 command.param2).toInt / 1000 < 1000
  · rw [if_pos hfast, if_pos (hfloor.2 hfast)]
    exact h
  · rw [if_neg hfast, if_neg (mt hfloor.1 hfast)]
    exact hrow _ _ resultAccepted ⟨by dsimp only; omega, tickMs_eq now, rfl⟩

/-! ## A pass of the two loops -/

/-- A set for the row arrives. -/
theorem dispatch_wraps {ideal : IdealEntry} {port : Fin 2} {row : Fin 5} (h : ideal.Wraps (s.schedule port row)) (now : Nat)
    {inbound : InboundMsg} (hset : IsSet inbound port row) (r : Nat → Readings) :
    (ideal.set c now inbound.msg.commandLong).Wraps ((s.dispatch c (tickMs now) inbound r).schedule port row) := by
  obtain ⟨rfl, rfl, hmsg, hcommand⟩ := hset
  rw [s.dispatch_command c _ hmsg, s.commandLong_set c _ _ r hcommand]
  exact s.setMessageInterval_wraps c h now _ r

theorem heard_wraps {ideal : IdealEntry} {port : Fin 2} {row : Fin 5} (h : ideal.Wraps (s.schedule port row)) (e : Pass) :
    (ideal.heard c port row e).Wraps ((s.heard c e).schedule port row) := by
  rw [← s.awaited_schedule e] at h
  unfold IdealEntry.heard heard
  cases e.received with
  | none => exact h
  | some inbound =>
    dsimp only
    split
    · rename_i hset
      exact (s.awaited e).dispatch_wraps c h e.started hset e.dispatch
    · rename_i hset
      rcases (s.awaited e).dispatch_schedule c (tickMs e.started) inbound e.dispatch port row with heq | hrow
      · rw [heq]
        exact h
      · exact absurd hrow.1 hset

theorem dispatch_resetting (now : UInt32) (inbound : InboundMsg) (r : Nat → Readings) :
    (s.dispatch c now inbound r).running.resetting =
      if inbound.msg.msgid = msgIdCommandLong ∧ inbound.msg.commandLong.command = cmdPreflightRebootShutdown
      then some .commanded else s.running.resetting := by
  by_cases hreboot : inbound.msg.msgid = msgIdCommandLong ∧ inbound.msg.commandLong.command = cmdPreflightRebootShutdown
  · rw [if_pos hreboot, s.dispatch_command c now hreboot.1]
    unfold commandLong
    rw [if_neg (by rw [hreboot.2]; decide), if_pos hreboot.2]
    rfl
  · rw [if_neg hreboot]
    have h := s.dispatch_cases c now inbound r
    generalize s.dispatch c now inbound r = s' at h ⊢
    cases h with
    | silent => rfl
    | replied => rfl
    | forwarded => rfl
    | timed answer t₁ => exact congrArg _ (s.reportChange_frame t₁ r).2.2.2
    | commanded is_command effect =>
      obtain ⟨items, result, -, -, -, hreset⟩ := s.commanded_replies effect
      by_contra hne
      exact hreboot ⟨is_command, hreset hne⟩

theorem heard_resetting (h : s.running.resetting = none) (e : Pass) :
    (s.heard c e).running.resetting.isSome = e.reboots := by
  unfold heard Pass.reboots
  cases e.received with
  | none =>
    rw [awaited_running, h]
    rfl
  | some inbound =>
    dsimp only
    rw [dispatch_resetting, awaited_running, h, Option.any_some, ← Bool.decide_and]
    split
    · rename_i hreboot
      simp [hreboot]
    · rename_i hreboot
      simp [hreboot]

end TaskMavlink

/-! ## A run of the two loops -/

/-- Where a run of the two loops stands: the row wraps the ideal one, and of the passes to come none
looks at an earlier time or finds the row out of reach. -/
structure Tracks (c : Conversion) (port : Fin 2) (row : Fin 5) (ideal : IdealEntry) (s : TaskMavlink) (es : List Pass) :
    Prop where
  wraps : ideal.Wraps (s.schedule port row)
  order : ∃ t, ideal.lastMs ≤ (t : Nat) ∧ InOrder t es
  reach : InReach c port row ideal es

namespace Tracks

variable {c : Conversion} {port : Fin 2} {row : Fin 5} {ideal : IdealEntry} {s s' : TaskMavlink} {e : Pass} {es : List Pass}

/-- The time a set puts into a row is that of its own pass. -/
theorem heard_lastMs (ideal : IdealEntry) (c : Conversion) (port : Fin 2) (row : Fin 5) (e : Pass) :
    (ideal.heard c port row e).lastMs = ideal.lastMs ∨ (ideal.heard c port row e).lastMs = e.started := by
  unfold IdealEntry.heard IdealEntry.set
  cases e.received with
  | none => exact Or.inl rfl
  | some inbound =>
    dsimp only
    split
    · split
      · split
        · exact Or.inl rfl
        split
        · exact Or.inl rfl
        · exact Or.inr rfl
      · exact Or.inl rfl
    · exact Or.inl rfl

theorem heard_le (h : Tracks c port row ideal s (e :: es)) : (ideal.heard c port row e).lastMs ≤ e.resumed := by
  obtain ⟨t, hle, hstarted, hresumed, -⟩ := h.order
  rcases heard_lastMs ideal c port row e with heq | heq
  · rw [heq]
    omega
  · rw [heq]
    omega

/-- The two loops fire the row in the same passes. -/
theorem fires (h : Tracks c port row ideal s (e :: es)) (hs : s.running.resetting = none) :
    s.fires c e port row = ideal.fires c port row e := by
  have hwraps := s.heard_wraps c h.wraps e
  unfold TaskMavlink.fires IdealEntry.fires
  rw [s.heard_resetting c hs, hwraps.isDue h.heard_le h.reach.2.1]

theorem step (h : Tracks c port row ideal s (e :: es)) (hstep : TaskMavlink.step c s e = some s') :
    Tracks c port row (ideal.pass c port row e) s' es := by
  obtain ⟨t, hle, hstarted, hresumed, hrest⟩ := h.order
  have hheard := h.heard_le
  refine ⟨?_, ⟨e.resumed, ?_, hrest⟩, h.reach.2.2⟩
  · have hwraps := s.heard_wraps c h.wraps e
    rw [← TaskMavlink.pass_of_step hstep, s.pass_row, h.fires (TaskMavlink.running_of_step hstep)]
    unfold IdealEntry.pass IdealEntry.look IdealEntry.fires
    split
    · exact hwraps.advance
    · exact hwraps
  · unfold IdealEntry.pass IdealEntry.look
    split
    · rename_i hdue
      simp only [IdealEntry.isDue, Bool.and_eq_true, decide_eq_true_eq] at hdue
      show (ideal.heard c port row e).lastMs + ((ideal.heard c port row e).intervalMs : Int) ≤ e.resumed
      linarith [hdue.2.2]
    · exact hheard

theorem run : ∀ {es₁ : List Pass} {ideal : IdealEntry} {s m : TaskMavlink}, Tracks c port row ideal s (es₁ ++ es) →
    Runs.run (TaskMavlink.step c) s es₁ = some m → Tracks c port row (ideal.passes c port row es₁) m es
  | [], _, _, _, h, hrun => by
    cases hrun
    exact h
  | e :: es₁, ideal, s, m, h, hrun => by
    obtain ⟨s₁, hs₁, hrun⟩ := Option.bind_eq_some_iff.1 hrun
    have hnext : Tracks c port row (ideal.pass c port row e) s₁ (es₁ ++ es) := h.step hs₁
    have hrest := run hnext hrun
    exact hrest

end Tracks

/-! ## A row that is left on -/

/-- The firings of a row in these passes. -/
def TaskMavlink.firings (c : Conversion) (port : Fin 2) (row : Fin 5) : TaskMavlink → List Pass → Nat
  | _, [] => 0
  | s, e :: es => (if s.fires c e port row then 1 else 0) + firings c port row (s.pass c e) es

/-- When the passes look at the rows. -/
def looks (es : List Pass) : List Int := (es.filter fun e => !e.reboots).map fun e => (e.resumed : Int)

/-- What a set has to ask for to be accepted. -/
def TaskMavlink.Accepted (c : Conversion) (command : CommandLong) : Prop :=
  c.toUInt16 command.param1 = msgIdNamedValueInt ∧
    ((c.toInt32 command.param2).toInt ≤ 0 ∨ 1000 ≤ (c.toInt32 command.param2).toInt / 1000)

/-- No message in these passes sets the row; a set that is denied does not. -/
def LeftAlone (c : Conversion) (port : Fin 2) (row : Fin 5) (es : List Pass) : Prop :=
  ∀ e ∈ es, ∀ inbound ∈ e.received, TaskMavlink.IsSet inbound port row → ¬ TaskMavlink.Accepted c inbound.msg.commandLong

namespace IdealEntry

variable (c : Conversion) (port : Fin 2) (row : Fin 5)

/-- A set that is denied changes nothing. -/
theorem set_of_not_accepted (entry : IdealEntry) (now : Int) {command : CommandLong} (h : ¬ TaskMavlink.Accepted c command) :
    entry.set c now command = entry := by
  unfold set
  split
  · rename_i hid
    have hdenied : ¬ ((c.toInt32 command.param2).toInt ≤ 0 ∨ 1000 ≤ (c.toInt32 command.param2).toInt / 1000) :=
      fun haccepted => h ⟨hid, haccepted⟩
    rw [not_or, not_le, not_le] at hdenied
    dsimp only
    rw [if_neg (not_le.2 hdenied.1), if_pos hdenied.2]
  · rfl

theorem heard_of_leftAlone (entry : IdealEntry) {e : Pass}
    (h : ∀ inbound ∈ e.received, TaskMavlink.IsSet inbound port row → ¬ TaskMavlink.Accepted c inbound.msg.commandLong) :
    entry.heard c port row e = entry := by
  unfold heard
  cases hreceived : e.received with
  | none => rfl
  | some inbound =>
    dsimp only
    split
    · rename_i hset
      exact entry.set_of_not_accepted c e.started (h inbound hreceived hset)
    · rfl

theorem looks_singleton (e : Pass) : looks [e] = if !e.reboots then [(e.resumed : Int)] else [] := by
  unfold looks
  rw [List.filter_singleton]
  cases e.reboots <;> rfl

/-- One look at a row that is on is a look at a timer, if the pass comes to it. -/
theorem look_eq (entry : IdealEntry) (henabled : entry.enabled = true) (e : Pass) :
    entry.look e = { entry with lastMs := (looks [e]).foldl (Periodic.after entry.intervalMs) entry.lastMs } := by
  unfold look
  rw [looks_singleton]
  cases e.reboots with
  | true => rfl
  | false =>
    obtain ⟨intervalMs, lastMs, enabled⟩ := entry
    cases henabled
    simp only [Bool.not_false, Bool.true_and, isDue, decide_eq_true_eq, if_true, List.foldl_cons, List.foldl_nil, Periodic.after]
    split
    · rfl
    · rfl

theorem looks_cons (e : Pass) (es : List Pass) : looks (e :: es) = looks [e] ++ looks es := by
  unfold looks
  rw [← List.map_append, ← List.filter_append]
  rfl

/-- Over passes that leave it alone, a row that is on is a timer with these looks. -/
theorem passes_eq : ∀ {es : List Pass} (entry : IdealEntry), entry.enabled = true → LeftAlone c port row es →
    entry.passes c port row es = { entry with lastMs := (looks es).foldl (Periodic.after entry.intervalMs) entry.lastMs }
  | [], _, _, _ => rfl
  | e :: es, entry, henabled, hleft => by
    obtain ⟨he, hes⟩ := List.forall_mem_cons.1 hleft
    have hpass : entry.pass c port row e = entry.look e := by
      unfold pass
      rw [entry.heard_of_leftAlone c port row he]
    have hrest : (entry.look e).passes c port row es = _ := passes_eq (entry.look e) (by rw [look_eq entry henabled]; exact henabled) hes
    rw [looks_cons, List.foldl_append]
    show (entry.pass c port row e).passes c port row es = _
    rw [hpass, hrest, look_eq entry henabled]

/-- The same from a pass whose message may set the row, up to what a last pass finds. -/
theorem found_eq (ideal : IdealEntry) {es es₁ es₂ : List Pass} {e e₁ : Pass} (hsplit : es ++ [e] = es₁ ++ e₁ :: es₂)
    (henabled : ((ideal.passes c port row es₁).heard c port row e₁).enabled = true) (hleft : LeftAlone c port row es₂) :
    ∃ init, e₁ :: es₂ = init ++ [e] ∧ (ideal.passes c port row es).heard c port row e =
      { (ideal.passes c port row es₁).heard c port row e₁ with
        lastMs := (looks init).foldl (Periodic.after ((ideal.passes c port row es₁).heard c port row e₁).intervalMs)
          ((ideal.passes c port row es₁).heard c port row e₁).lastMs } := by
  rcases List.eq_nil_or_concat es₂ with rfl | ⟨es₃, e', rfl⟩
  · obtain ⟨rfl, heq⟩ := List.append_inj' hsplit rfl
    cases heq
    exact ⟨[], rfl, rfl⟩
  · rw [List.concat_eq_append] at hsplit hleft ⊢
    rw [← List.cons_append, ← List.append_assoc] at hsplit
    obtain ⟨rfl, heq⟩ := List.append_inj' hsplit rfl
    cases heq
    refine ⟨e₁ :: es₃, rfl, ?_⟩
    have he := heard_of_leftAlone c port row (ideal.passes c port row (es₁ ++ e₁ :: es₃)) (hleft e (by simp))
    have hlook := look_eq ((ideal.passes c port row es₁).heard c port row e₁) henabled e₁
    have hrest := passes_eq c port row (((ideal.passes c port row es₁).heard c port row e₁).look e₁)
      (by rw [hlook]; exact henabled) fun e' he' => hleft e' (List.mem_append_left _ he')
    have hpasses : ideal.passes c port row (es₁ ++ e₁ :: es₃) =
        (((ideal.passes c port row es₁).heard c port row e₁).look e₁).passes c port row es₃ := by
      unfold passes
      rw [List.foldl_append, List.foldl_cons]
      rfl
    rw [he, hpasses, hrest, hlook, looks_cons e₁ es₃, List.foldl_append]

/-- A row that is on fires in a pass as the timer does. -/
theorem fires_eq (entry : IdealEntry) (e : Pass) (henabled : (entry.heard c port row e).enabled = true) :
    (if entry.fires c port row e then 1 else 0) =
      Periodic.fired (entry.heard c port row e).intervalMs (entry.heard c port row e).lastMs (looks [e]) := by
  unfold fires isDue
  rw [looks_singleton, henabled]
  cases e.reboots with
  | true => rfl
  | false => simp [Periodic.fired]

end IdealEntry

namespace Tracks

variable {c : Conversion} {port : Fin 2} {row : Fin 5}

/-- From a pass that leaves the row on, over passes that leave it alone, it fires as the timer does. -/
theorem firings_eq : ∀ {es : List Pass} {e : Pass} {ideal : IdealEntry} {s s' : TaskMavlink},
    Tracks c port row ideal s (e :: es) → (ideal.heard c port row e).enabled = true → LeftAlone c port row es →
    Runs.run (TaskMavlink.step c) s (e :: es) = some s' → s.firings c port row (e :: es) =
      Periodic.fired (ideal.heard c port row e).intervalMs (ideal.heard c port row e).lastMs (looks (e :: es)) := by
  intro es
  induction es with
  | nil =>
    intro e ideal s s' h henabled _ hrun
    obtain ⟨m, hm, -⟩ := Option.bind_eq_some_iff.1 hrun
    rw [TaskMavlink.firings, h.fires (TaskMavlink.running_of_step hm), ideal.fires_eq c port row e henabled]
    rfl
  | cons e₂ es ih =>
    intro e ideal s s' h henabled hleft hrun
    obtain ⟨m, hm, hrest⟩ := Option.bind_eq_some_iff.1 hrun
    obtain ⟨he₂, hes⟩ := List.forall_mem_cons.1 hleft
    have hlook := (ideal.heard c port row e).look_eq henabled e
    have hheard : (ideal.pass c port row e).heard c port row e₂ = (ideal.heard c port row e).look e :=
      IdealEntry.heard_of_leftAlone c port row _ he₂
    have hnext := ih (h.step hm) (by rw [hheard, hlook]; exact henabled) hes hrest
    rw [hheard, hlook] at hnext
    rw [TaskMavlink.firings, h.fires (TaskMavlink.running_of_step hm), ideal.fires_eq c port row e henabled, TaskMavlink.pass_of_step hm, hnext,
      IdealEntry.looks_cons e (e₂ :: es), Periodic.fired_append]

end Tracks

/-! ## The wait -/

namespace TaskMavlink

/-- With every enabled row in reach and one of them due within a second, the wait is the least time
left to a deadline. -/
theorem waitMs_isLeast {s : TaskMavlink} {ideal : Fin 2 → Fin 5 → IdealEntry} {now : Nat}
    (hwraps : ∀ port row, (ideal port row).Wraps (s.schedule port row)) (hle : ∀ port row, (ideal port row).lastMs ≤ now)
    (hreach : ∀ port row, (ideal port row).enabled = true → (now : Int) - (ideal port row).lastMs < 2 ^ 32)
    (hsoon : ∃ port row, (ideal port row).enabled = true ∧ (ideal port row).intervalMs ≤ 1000) :
    IsLeast {left : Int | ∃ port row, (ideal port row).enabled = true ∧ left = (ideal port row).due now}
      (pdMS_TO_TICKS (s.waitMs (tickMs now))).toNat := by
  obtain ⟨hall, hor⟩ := s.waitMs_spec (tickMs now)
  have hdue : ∀ port row, (ideal port row).enabled = true →
      (((s.schedule port row).due (tickMs now)).toNat : Int) = (ideal port row).due now := fun port row henabled =>
    (hwraps port row).due (hle port row) (hreach port row henabled)
  have hbelow : ∀ port row, (ideal port row).enabled = true → ((s.waitMs (tickMs now)).toNat : Int) ≤ (ideal port row).due now := by
    intro port row henabled
    have hwait := hall port row (by rw [(hwraps port row).enabled, henabled])
    rw [UInt32.le_iff_toNat_le] at hwait
    rw [← hdue port row henabled]
    exact_mod_cast hwait
  have hshort : (s.waitMs (tickMs now)).toNat ≤ 1000 := by
    obtain ⟨port, row, henabled, hinterval⟩ := hsoon
    have hwait := hbelow port row henabled
    have hlast := hle port row
    unfold IdealEntry.due at hwait
    omega
  rw [pdMS_TO_TICKS_of_le hshort]
  constructor
  · rcases hor with heq | ⟨port, row, henabled, heq⟩
    · rw [heq] at hshort
      exact absurd hshort (by decide)
    · have hon : (ideal port row).enabled = true := by rw [← (hwraps port row).enabled, henabled]
      exact ⟨port, row, hon, by rw [← hdue port row hon, ← heq]⟩
  · rintro left ⟨port, row, henabled, rfl⟩
    exact hbelow port row henabled

end TaskMavlink

/-! ## From the boot on -/

/-- The ideal rows of a boot. -/
def Start.ideal (b : Start) (row : Fin 5) : IdealEntry := idealSchedule b.bootMs b.running.info.reducedConfiguration row

theorem tickMs_sub (ms k : Nat) : tickMs ms - UInt32.ofNat k = UInt32.ofInt (ms - k) := by
  have hk : UInt32.ofNat k = UInt32.ofInt k := tickMs_eq k
  rw [tickMs_eq, hk, Int.sub_eq_add_neg, UInt32.ofInt_add, UInt32.ofInt_neg, UInt32.sub_eq_add_neg]

theorem idealSchedule_wraps (startMs : Nat) (reducedConfiguration : Bool) (row : Fin 5) :
    (idealSchedule startMs reducedConfiguration row).Wraps (schedule (tickMs startMs) reducedConfiguration row) := by
  fin_cases row
  · exact ⟨rfl, tickMs_sub startMs 1000, rfl⟩
  · exact ⟨rfl, tickMs_sub startMs 500, rfl⟩
  · exact ⟨rfl, tickMs_sub startMs 2000, rfl⟩
  · exact ⟨rfl, tickMs_eq startMs, rfl⟩
  · exact ⟨rfl, tickMs_sub startMs 250, rfl⟩

theorem idealSchedule_le (startMs : Nat) (reducedConfiguration : Bool) (row : Fin 5) :
    (idealSchedule startMs reducedConfiguration row).lastMs ≤ startMs := by
  fin_cases row <;> simp [idealSchedule]

theorem Start.tracks (b : Start) {c : Conversion} {port : Fin 2} {row : Fin 5} {es : List Pass} (horder : InOrder b.bootMs es)
    (hreach : InReach c port row (b.ideal row) es) : Tracks c port row (b.ideal row) b.task es := by
  refine ⟨?_, ⟨b.bootMs, idealSchedule_le _ _ row, horder⟩, hreach⟩
  rw [b.task_schedule]
  exact idealSchedule_wraps _ _ row

/-- Only a set changes whether a row is on and its interval, and only the housekeeping row is ever set. -/
theorem IdealEntry.passes_frame (entry : IdealEntry) (c : Conversion) (port : Fin 2) {row : Fin 5}
    (hrow : row ≠ kHousekeepingScheduleIndex) (henabled : entry.enabled = true) (es : List Pass) :
    (entry.passes c port row es).enabled = true ∧ (entry.passes c port row es).intervalMs = entry.intervalMs := by
  have hleft : LeftAlone c port row es := fun e _ inbound _ hset => absurd hset.2.1 hrow
  rw [entry.passes_eq c port row henabled hleft]
  exact ⟨henabled, rfl⟩

/-- A row left on with the last time `seed` and the interval `intervalMs`, behind a pass and with `fired`
firings by then; `found` is the ideal row the pass's look found. -/
structure OnCadence (c : Conversion) (port : Fin 2) (row : Fin 5) (seed : Int) (intervalMs fired : Nat) (found : IdealEntry)
    (s : TaskMavlink) (e : Pass) (s' : TaskMavlink) : Prop where
  lastMs : (s'.schedule port row).lastMs = UInt32.ofInt (seed + intervalMs * fired)
  not_early : s.fires c e port row = true → seed + intervalMs * fired ≤ e.resumed
  exact : e.reboots = false → e.resumed - found.lastMs < 2 * intervalMs → (fired : Int) = (e.resumed - seed) / intervalMs

/-- From the pass that leaves a row on, over passes that leave it alone. -/
theorem onCadence {c : Conversion} {b : Start} {es : List Pass} {s s' : TaskMavlink} {e : Pass}
    (hrun : run (TaskMavlink.step c) b.task es = some s) (hstep : TaskMavlink.step c s e = some s') {port : Fin 2} {row : Fin 5}
    (htracks : Tracks c port row (b.ideal row) b.task (es ++ [e])) {es₁ es₂ : List Pass} {e₁ : Pass} {m : TaskMavlink}
    (hsplit : es ++ [e] = es₁ ++ e₁ :: es₂) (hm : run (TaskMavlink.step c) b.task es₁ = some m) (hleft : LeftAlone c port row es₂)
    (henabled : (((b.ideal row).passes c port row es₁).heard c port row e₁).enabled = true) :
    OnCadence c port row (((b.ideal row).passes c port row es₁).heard c port row e₁).lastMs
      (((b.ideal row).passes c port row es₁).heard c port row e₁).intervalMs (m.firings c port row (e₁ :: es₂))
      (((b.ideal row).passes c port row es).heard c port row e) s e s' := by
  -- the same run, cut where the row was left on and where the last pass begins
  have hwhole : run (TaskMavlink.step c) b.task (es ++ [e]) = some s' := run_concat.2 ⟨s, hrun, hstep⟩
  have hsegment : run (TaskMavlink.step c) m (e₁ :: es₂) = some s' := by
    rw [hsplit, run_append, hm] at hwhole
    exact hwhole
  have hlast : Tracks c port row ((b.ideal row).passes c port row es) s [e] := htracks.run hrun
  have hat : Tracks c port row ((b.ideal row).passes c port row es₁) m (e₁ :: es₂) := by
    rw [hsplit] at htracks
    exact htracks.run hm
  have hfirings := hat.firings_eq henabled hleft hsegment
  obtain ⟨init, hinit, hfound⟩ := (b.ideal row).found_eq c port row hsplit henabled hleft
  generalize ((b.ideal row).passes c port row es₁).heard c port row e₁ = entry at henabled hfirings hfound ⊢
  have hlook := (((b.ideal row).passes c port row es).heard c port row e).look_eq (by rw [hfound]; exact henabled) e
  have hpassed : ((b.ideal row).passes c port row es).pass c port row e =
      { entry with lastMs := entry.lastMs + entry.intervalMs * m.firings c port row (e₁ :: es₂) } := by
    show (((b.ideal row).passes c port row es).heard c port row e).look e = _
    rw [hlook, hfound, hfirings, ← Periodic.foldl_after, hinit]
    dsimp only
    have hlooks : looks (init ++ [e]) = looks init ++ looks [e] := by
      unfold looks
      rw [List.filter_append, List.map_append]
    rw [hlooks, List.foldl_append]
  have hbehind := hlast.step hstep
  rw [hpassed] at hbehind
  refine ⟨hbehind.wraps.lastMs, fun hfires => ?_, fun hreboots hlate => ?_⟩
  · rw [hlast.fires (TaskMavlink.running_of_step hstep)] at hfires
    have hmoved : entry.lastMs + entry.intervalMs * m.firings c port row (e₁ :: es₂) =
        (((b.ideal row).passes c port row es).heard c port row e).advance.lastMs := by
      have hpass : ((b.ideal row).passes c port row es).pass c port row e =
          (((b.ideal row).passes c port row es).heard c port row e).advance := if_pos hfires
      rw [← hpass, hpassed]
    simp only [IdealEntry.fires, IdealEntry.isDue, Bool.and_eq_true, decide_eq_true_eq] at hfires
    rw [hmoved]
    exact Periodic.after_le_of_due hfires.2.2
  · have hle := hlast.heard_le
    rw [hfound] at hle hlate
    have hexact := Periodic.fired_eq_div hle hlate
    have hlooks : looks (e₁ :: es₂) = looks init ++ [(e.resumed : Int)] := by
      rw [hinit]
      unfold looks
      rw [List.filter_append, List.map_append, List.filter_cons_of_pos (by rw [hreboots]; rfl)]
      rfl
    rw [hfirings, hlooks]
    exact hexact

/-- In a pass each row that fires is called once, and no other. -/
theorem TaskMavlink.pass_called (s : TaskMavlink) (c : Conversion) (e : Pass) :
    ∃ called : List (Fin 2 × Fin 5), called.Nodup ∧ (∀ port row, (port, row) ∈ called ↔ s.fires c e port row = true) ∧
      ∃ m : Fin 2 × Fin 5 → LinkMsg, (∀ x, (m x).PackedAs ((s.heard c e).schedule x.1 x.2).function.msgid) ∧
        (s.pass c e).offered = (s.heard c e).offered ++ called.map fun x => (x.1, m x) := by
  obtain ⟨m, hm, hoffered⟩ := (s.heard c e).fire_offered (tickMs e.resumed) e.fire
  refine ⟨TaskMavlink.rows.filter fun x => s.fires c e x.1 x.2, TaskMavlink.rows_nodup.filter _, ?_, m, hm, ?_⟩
  · intro port row
    rw [List.mem_filter]
    exact and_iff_right (TaskMavlink.mem_rows port row)
  · rw [TaskMavlink.pass_eq]
    unfold TaskMavlink.fires
    cases (s.heard c e).running.resetting.isSome with
    | true => simp
    | false => exact hoffered

/-- Every run from a boot, at times that never go back, as long as no pass finds an enabled row 2^32
milliseconds behind: in every pass the rows that fire are those of the loop in time that does not wrap,
each is called once, and the wait is the least time left to a deadline of that loop; and a row that was
left on keeps its cadence. -/
theorem scheduler_ideal {c : Conversion} {b : Start} {es : List Pass} {s s' : TaskMavlink} {e : Pass}
    (hrun : run (TaskMavlink.step c) b.task es = some s) (hstep : TaskMavlink.step c s e = some s')
    (horder : InOrder b.bootMs (es ++ [e])) (hreach : ∀ port row, InReach c port row (b.ideal row) (es ++ [e])) :
    (∀ port row, s.fires c e port row = ((b.ideal row).passes c port row es).fires c port row e) ∧
      (∃ called : List (Fin 2 × Fin 5), called.Nodup ∧ (∀ port row, (port, row) ∈ called ↔ s.fires c e port row = true) ∧
        ∃ m : Fin 2 × Fin 5 → LinkMsg, (∀ x, (m x).PackedAs ((s.heard c e).schedule x.1 x.2).function.msgid) ∧
          s'.offered = (s.heard c e).offered ++ called.map fun x => (x.1, m x)) ∧
      (∃ wait : UInt32, (s.awaited e).waited = some wait ∧
        IsLeast {left : Int | ∃ port row, ((b.ideal row).passes c port row es).enabled = true ∧
          left = ((b.ideal row).passes c port row es).due e.started} wait.toNat) ∧
      ∀ port row es₁ e₁ es₂ m, es ++ [e] = es₁ ++ e₁ :: es₂ → run (TaskMavlink.step c) b.task es₁ = some m →
        LeftAlone c port row es₂ → (((b.ideal row).passes c port row es₁).heard c port row e₁).enabled = true →
        OnCadence c port row (((b.ideal row).passes c port row es₁).heard c port row e₁).lastMs
          (((b.ideal row).passes c port row es₁).heard c port row e₁).intervalMs (m.firings c port row (e₁ :: es₂))
          (((b.ideal row).passes c port row es).heard c port row e) s e s' := by
  have htracks : ∀ port row, Tracks c port row (b.ideal row) b.task (es ++ [e]) := fun port row => b.tracks horder (hreach port row)
  have hlast : ∀ port row, Tracks c port row ((b.ideal row).passes c port row es) s [e] := fun port row =>
    (htracks port row).run hrun
  refine ⟨fun port row => (hlast port row).fires (TaskMavlink.running_of_step hstep), ?_, ?_, ?_⟩
  · rw [← TaskMavlink.pass_of_step hstep]
    exact s.pass_called c e
  · refine ⟨_, s.awaited_waited e, TaskMavlink.waitMs_isLeast (fun port row => (hlast port row).wraps) (fun port row => ?_)
      (fun port row => (hlast port row).reach.1) ⟨linkChanUart, kHeartbeatScheduleIndex, ?_⟩⟩
    · obtain ⟨t, hle, hstarted, -⟩ := (hlast port row).order
      omega
    · obtain ⟨henabled, hinterval⟩ := (b.ideal kHeartbeatScheduleIndex).passes_frame c linkChanUart
        (show kHeartbeatScheduleIndex ≠ kHousekeepingScheduleIndex by decide) rfl es
      exact ⟨henabled, by rw [hinterval]; exact le_refl 1000⟩
  · intro port row es₁ e₁ es₂ m hsplit hm hleft henabled
    exact onCadence hrun hstep (htracks port row) hsplit hm hleft henabled

/-- The first pass of a board that began half a second after its reset finds its heartbeat due. -/
theorem scheduler_ideal_first : ∃ s', TaskMavlink.step .vcvt freshStart.task (quietPass 501 none) = some s' ∧
    freshStart.task.fires .vcvt (quietPass 501 none) linkChanUart kHeartbeatScheduleIndex = true ∧
    (s'.schedule linkChanUart kHeartbeatScheduleIndex).lastMs = UInt32.ofInt 500 := by
  have hreach : ∀ port row, InReach .vcvt port row (freshStart.ideal row) ([] ++ [quietPass 501 none]) := by
    intro port row
    have hle : (501 : Int) - (freshStart.ideal row).lastMs < 2 ^ 32 := by
      fin_cases row <;> decide
    exact ⟨fun _ => hle, fun _ => hle, trivial⟩
  have h := @scheduler_ideal .vcvt freshStart [] freshStart.task _ (quietPass 501 none) rfl rfl
    ⟨by decide, by decide, trivial⟩ hreach
  have hfires : freshStart.task.fires .vcvt (quietPass 501 none) linkChanUart kHeartbeatScheduleIndex = true :=
    (h.1 linkChanUart kHeartbeatScheduleIndex).trans (by rfl)
  have hcadence := h.2.2.2 linkChanUart kHeartbeatScheduleIndex [] (quietPass 501 none) [] freshStart.task rfl rfl
    (fun _ hmem => by cases hmem) rfl
  refine ⟨_, rfl, hfires, hcadence.lastMs.trans ?_⟩
  rw [TaskMavlink.firings, hfires]
  rfl

end BoredomOS.Link
