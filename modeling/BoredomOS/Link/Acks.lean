/-
The acknowledgements of a run. Whatever is received on whichever port, and whatever else is due in between,
`TaskMavlink` offers a port one COMMAND_ACK for each COMMAND_LONG it took from there, in their order, and no
other: no row, no text and no answer to another message is one.
-/
import BoredomOS.Link.Replies
import BoredomOS.Link.Rows

namespace BoredomOS.Link

open Runs

/-- The command an item acknowledges. -/
def LinkMsg.acks : LinkMsg → Option UInt16
  | .commandAck m => some m.command
  | _ => none

/-- The commands acknowledged on a port, in the order of the items. -/
def acknowledged (port : Fin 2) (items : List (Fin 2 × LinkMsg)) : List UInt16 :=
  items.filterMap fun x => if x.1 = port then x.2.acks else none

/-- The command a message of a port asks for. -/
def InboundMsg.asks (port : Fin 2) (x : InboundMsg) : Option UInt16 :=
  if x.chan = port ∧ x.msg.msgid = TaskMavlink.msgIdCommandLong then some x.msg.commandLong.command else none

/-- The commands a port's passes received. -/
def asked (port : Fin 2) (es : List Pass) : List UInt16 := es.filterMap fun e => e.received.bind (·.asks port)

theorem acknowledged_append (port : Fin 2) (xs ys : List (Fin 2 × LinkMsg)) :
    acknowledged port (xs ++ ys) = acknowledged port xs ++ acknowledged port ys := List.filterMap_append

theorem acks_eq_none {m : LinkMsg} (h : m.isCommandAck = false) : m.acks = none := by
  cases m <;> first | rfl | cases h

/-- No row sends an acknowledgement. -/
theorem acks_of_packedAs {m : LinkMsg} {function : SendFunction} (h : m.PackedAs function.msgid) : m.acks = none := by
  cases m with
  | commandAck m =>
    have hid := h ⟨⟨.start, [], .powerOn, false, 0, 0⟩, fun _ => 0, 0⟩
    cases function <;> cases hid
  | _ => rfl

theorem acknowledged_eq_nil {port : Fin 2} {items : List (Fin 2 × LinkMsg)} (h : ∀ x ∈ items, x.2.acks = none) :
    acknowledged port items = [] := by
  refine List.filterMap_eq_nil_iff.2 fun x hx => ?_
  rw [h x hx, ite_self]

namespace TaskMavlink

variable (s : TaskMavlink)

/-- A part of a pass that acknowledges `command` on `chan`, if there is one, and nothing else. -/
def Acks (chan : Fin 2) (command : Option UInt16) (s s' : TaskMavlink) : Prop :=
  ∃ items, s'.offered = s.offered ++ items ∧
    ∀ port, acknowledged port items = if chan = port then command.toList else []

section

variable {s} {s' s'' : TaskMavlink} {chan : Fin 2} {command : Option UInt16}

theorem Acks.of_items (items : List (Fin 2 × LinkMsg)) (hitems : s'.offered = s.offered ++ items)
    (hnone : ∀ x ∈ items, x.2.acks = none) : Acks chan none s s' := by
  refine ⟨items, hitems, fun port => ?_⟩
  rw [acknowledged_eq_nil hnone, Option.toList_none, ite_self]

theorem Acks.of_same (h : s'.offered = s.offered) : Acks chan none s s' :=
  .of_items [] (by rw [h, List.append_nil]) (by simp)

theorem Acks.before (h : Acks chan none s s') (h' : Acks chan command s' s'') : Acks chan command s s'' := by
  obtain ⟨items, hitems, hacks⟩ := h
  obtain ⟨items', hitems', hacks'⟩ := h'
  refine ⟨items ++ items', by rw [hitems', hitems, List.append_assoc], fun port => ?_⟩
  rw [acknowledged_append, hacks, hacks', Option.toList_none, ite_self, List.nil_append]

theorem Acks.after (h : Acks chan command s s') (h' : Acks chan none s' s'') : Acks chan command s s'' := by
  obtain ⟨items, hitems, hacks⟩ := h
  obtain ⟨items', hitems', hacks'⟩ := h'
  refine ⟨items ++ items', by rw [hitems', hitems, List.append_assoc], fun port => ?_⟩
  rw [acknowledged_append, hacks, hacks', Option.toList_none, ite_self, List.append_nil]

end

theorem acks_reportChange (chan : Fin 2) (t : Clock.SystemTime) (r : Nat → Readings) :
    Acks chan none s (s.reportChange t r) := by
  refine .of_items _ ((s.reportChange_sends t r).offered) ?_
  intro x hx
  split at hx
  · cases hx
  · obtain ⟨port, -, rfl⟩ := List.mem_map.1 hx
    rfl

/-- What comes before the wait acknowledges nothing. -/
theorem acks_awaited (chan : Fin 2) (e : Pass) : Acks chan none s (s.awaited e) := by
  have hreconcile : Acks chan none s (s.reconcile (tickMs e.started) e.reconcile) := by
    by_cases h : tickMs e.started - s.lastReseedMs < kClockReseedIntervalMs
    · rw [s.reconcile_early h]
      exact .of_same rfl
    · obtain ⟨t₁, t₂, q, records, -, -, -, heq⟩ := s.reconcile_spec h e.reconcile
      rw [heq]
      exact s.acks_reportChange chan t₁ e.reconcile
  obtain ⟨t, q, records, last, -, -, hbattery⟩ :=
    (s.reconcile (tickMs e.started) e.reconcile).recordBattery_spec (tickMs e.started) e.battery
  refine hreconcile.before (.of_same ?_)
  show ((s.reconcile (tickMs e.started) e.reconcile).recordBattery (tickMs e.started) e.battery).offered = _
  rw [hbattery]

theorem acks_dispatch (c : Conversion) (now : UInt32) (inbound : InboundMsg) (r : Nat → Readings) :
    Acks inbound.chan (inbound.asks inbound.chan) s (s.dispatch c now inbound r) := by
  have hcommand : inbound.msg.msgid = msgIdCommandLong → inbound.asks inbound.chan = some inbound.msg.commandLong.command :=
    fun h => if_pos ⟨rfl, h⟩
  have hnone : inbound.msg.msgid ≠ msgIdCommandLong → inbound.asks inbound.chan = none :=
    fun h => if_neg fun hasks => h hasks.2
  have h := s.dispatch_cases c now inbound r
  generalize s.dispatch c now inbound r = s' at h ⊢
  cases h with
  | silent no_command =>
    rw [hnone no_command]
    exact .of_same rfl
  | replied m t k no_command no_time reply =>
    rw [hnone no_command]
    refine .of_items [(inbound.chan, m)] rfl ?_
    rintro x hx
    rw [List.mem_singleton.1 hx]
    exact acks_eq_none reply.1
  | forwarded requests q no_command =>
    rw [hnone no_command]
    exact .of_same rfl
  | timed answer t₁ t₂ q records is_time =>
    rw [hnone (by rw [is_time]; decide)]
    exact s.acks_reportChange inbound.chan t₁ r
  | commanded is_command effect =>
    rw [hcommand is_command]
    have hack : ∀ result port, acknowledged port [(inbound.chan, .commandAck ⟨inbound.msg.commandLong.command, result⟩)] =
        if inbound.chan = port then [inbound.msg.commandLong.command] else [] := by
      intro result port
      by_cases hport : inbound.chan = port <;> simp [acknowledged, LinkMsg.acks, hport]
    have hplain : ∀ m : LinkMsg, m.Plain → ∀ x ∈ [(inbound.chan, m)], x.2.acks = none := by
      intro m hm x hx
      rw [List.mem_singleton.1 hx]
      exact acks_eq_none hm.1
    cases effect with
    | acknowledged result once => exact ⟨_, rfl, hack result⟩
    | scheduled result entry => exact ⟨_, rfl, hack result⟩
    | rebooted => exact ⟨_, rfl, hack resultAccepted⟩
    | preceded m twice companion =>
      have hfirst : Acks inbound.chan none s (s.enqueueWrite inbound.chan m (r 0)) := .of_items _ rfl (hplain m companion)
      exact hfirst.before ⟨_, rfl, hack resultAccepted⟩
    | followed m t twice companion =>
      have hfirst : Acks inbound.chan (some inbound.msg.commandLong.command) s
          (s.sendCommandAck inbound.chan inbound.msg.commandLong.command resultAccepted (r 0)) :=
        ⟨_, rfl, hack resultAccepted⟩
      exact hfirst.after (.of_items _ rfl (hplain m companion))

theorem acks_fire (chan : Fin 2) (now : UInt32) (r : Fin 2 → Fin 5 → Readings) : Acks chan none s (s.fire now r) := by
  obtain ⟨m, hm, hoffered⟩ := s.fire_offered now r
  refine .of_items _ hoffered ?_
  intro x hx
  obtain ⟨row, -, rfl⟩ := List.mem_map.1 hx
  exact acks_of_packedAs (hm row)

/-- A pass acknowledges what it received, if that is a command. -/
theorem acks_pass (c : Conversion) (e : Pass) : ∃ items, (s.pass c e).offered = s.offered ++ items ∧
    ∀ port, acknowledged port items = (e.received.bind (·.asks port)).toList := by
  have hheard : ∃ chan command, Acks chan command s (s.heard c e) ∧
      ∀ port, (if chan = port then command.toList else []) = (e.received.bind (·.asks port)).toList := by
    unfold heard
    cases e.received with
    | none => exact ⟨linkChanUart, none, s.acks_awaited _ e, fun port => ite_self _⟩
    | some inbound =>
      refine ⟨_, _, (s.acks_awaited inbound.chan e).before ((s.awaited e).acks_dispatch c _ inbound _), fun port => ?_⟩
      by_cases hport : inbound.chan = port
      · rw [if_pos hport, ← hport]
        rfl
      · simp [InboundMsg.asks, hport]
  obtain ⟨chan, command, hacks, hasks⟩ := hheard
  have hpass : Acks chan command s (s.pass c e) := by
    rw [pass_eq]
    split
    · exact hacks
    · exact hacks.after ((s.heard c e).acks_fire chan (tickMs e.resumed) e.fire)
  obtain ⟨items, hitems, hacked⟩ := hpass
  exact ⟨items, hitems, fun port => (hacked port).trans (hasks port)⟩

theorem acks_task (b : Start) (port : Fin 2) : acknowledged port b.task.offered = [] := by
  refine acknowledged_eq_nil fun x hx => ?_
  have htexts : ∀ x ∈ b.task.offered, ∃ m, x.2 = .statusText m := by
    unfold Start.task sendClockStatusText
    simp only [sendStatusText, sendBootStatement, enqueueWrite]
    simp [Link.sendBootStatement, Link.sendStatusText]
  obtain ⟨m, hm⟩ := htexts x hx
  rw [hm]
  rfl

/-- In every run, of any messages at any times on both ports: the acknowledgements offered to a port are those
of the commands received there, each once and in their order. -/
theorem acks_answer_commands (c : Conversion) (b : Start) (es : List Pass) (s : TaskMavlink)
    (hrun : run (step c) b.task es = some s) (port : Fin 2) : acknowledged port s.offered = asked port es := by
  refine inv_history (P := fun es s => acknowledged port s.offered = asked port es) (acks_task b port) ?_ hrun
  intro es s e s' _ hs hstep
  obtain ⟨items, hitems, hacks⟩ := s.acks_pass c e
  rw [← pass_of_step hstep, hitems, acknowledged_append, hs, hacks, asked, asked, List.filterMap_append]
  cases hasks : e.received.bind (·.asks port) <;> simp [hasks]

/-- A command on USB while rows are due, the time from the ground, and two passes with nothing received. -/
def askedBetween : List Pass :=
  [quietPass 600 none, quietPass 1500 (some (longCommand cmdRequestMessage (.finite 0) .nan)),
    quietPass 1600 (some (groundTime 1790000000000000)), quietPass 1700 (some (longCommand 410 .nan .nan)), quietPass 2600 none]

theorem acks_answer_commands_askedBetween : ∃ s, run (step .vcvt) freshStart.task askedBetween = some s ∧
    acknowledged linkChanUsb s.offered = asked linkChanUsb askedBetween ∧
    asked linkChanUsb askedBetween = [cmdRequestMessage, 410] ∧ acknowledged linkChanUart s.offered = [] := by
  obtain ⟨s, hs⟩ : ∃ s, run (step .vcvt) freshStart.task askedBetween = some s := ⟨_, rfl⟩
  refine ⟨s, hs, acks_answer_commands .vcvt freshStart askedBetween s hs linkChanUsb, by decide, ?_⟩
  rw [acks_answer_commands .vcvt freshStart askedBetween s hs linkChanUart]
  decide

end TaskMavlink

end BoredomOS.Link
