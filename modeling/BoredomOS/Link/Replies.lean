/-
What goes out in answer to one message, and where. A command gets one acknowledgement, every answer
leaves by the port its message arrived on, and the only item the other port ever sees is the report
that a ground station changed where the clock's time comes from. Over a run the write queues and
`sdWriteQueue` are sent what is noted as offered and recorded, and no more.
-/
import BoredomOS.Link.Rows

namespace BoredomOS.Link

open Log (SdRecord)
open Runs

/-- What the steps of a pass find. -/
def Pass.readings (e : Pass) : Set Readings :=
  Set.range e.reconcile ∪ {e.battery} ∪ Set.range e.dispatch ∪ {r | ∃ port row, e.fire port row = r}

namespace TaskMavlink

variable (s : TaskMavlink)

/-- A dispatch that keeps to the port `port`: what it sends to the write queues and to `sdWriteQueue`, and what
it leaves alone on the other port. -/
structure KeepsTo (port : Fin 2) (found : Set Readings) (s s' : TaskMavlink) (items : List (Fin 2 × LinkMsg))
    (records : List SdRecord) : Prop extends Sends found items records s s' where
  answered : ∀ x ∈ records, x.isRequest = true → answerPort x = some (UInt8.ofNat port)
  schedule : ∀ other ≠ port, s'.schedule other = s.schedule other
  housekeepingCursor : ∀ other ≠ port, s'.housekeepingCursor other = s.housekeepingCursor other

/-- A dispatch that touches no row and no cursor. -/
theorem KeepsTo.of_still {port : Fin 2} {found : Set Readings} {s s' : TaskMavlink} {items : List (Fin 2 × LinkMsg)}
    {records : List SdRecord} (hsends : Sends found items records s s')
    (hanswered : ∀ x ∈ records, x.isRequest = true → answerPort x = some (UInt8.ofNat port))
    (hschedule : s'.schedule = s.schedule) (hcursor : s'.housekeepingCursor = s.housekeepingCursor) :
    KeepsTo port found s s' items records :=
  ⟨hsends, hanswered, fun _ _ => by rw [hschedule], fun _ _ => by rw [hcursor]⟩

/-- The two texts of a change of the source. -/
def clockTexts (t : Clock.SystemTime) : List (Fin 2 × LinkMsg) :=
  [linkChanUart, linkChanUsb].map fun port =>
    (port, Link.sendStatusText (clockStatusText t.source t.foundRunning) severityInfo)

/-! ## A command -/

/-- One acknowledgement and at most one plain item, all on the command's port; a reset is under way only
behind the acknowledgement of the reboot command. -/
theorem commanded_replies {c : Conversion} {now : UInt32} {port : Fin 2} {command : CommandLong} {r : Nat → Readings}
    {s' : TaskMavlink} (h : Commanded c now port command r s s') :
    ∃ items result, KeepsTo port (Set.range r) s s' items [] ∧ (∀ x ∈ items, x.1 = port ∧ x.2.isClockText = false) ∧
      items.filter (fun x => x.2.isCommandAck) = [(port, .commandAck { command := command.command, result })] ∧
      (s'.running.resetting ≠ s.running.resetting → command.command = cmdPreflightRebootShutdown) := by
  have hstill : ∀ s' items, Sends (Set.range r) items [] s s' → s'.schedule = s.schedule →
      s'.housekeepingCursor = s.housekeepingCursor → KeepsTo port (Set.range r) s s' items [] := by
    intro s' items hsends hschedule hcursor
    exact .of_still hsends (by simp) hschedule hcursor
  have hsend : ∀ (s : TaskMavlink) (m : LinkMsg) (k : Nat),
      Sends (Set.range r) [(port, m)] [] s (s.enqueueWrite port m (r k)) := fun s m k =>
    Sends.enqueueWrite s port m (Set.mem_range_self k)
  cases h with
  | acknowledged result once =>
    exact ⟨[(port, .commandAck ⟨command.command, result⟩)], result, hstill _ _ (hsend s _ 0) rfl rfl,
      by simp, by simp, fun h => absurd rfl h⟩
  | scheduled result entry once set is_set =>
    have hset : Sends (Set.range r) [] [] s (s.setRow port kHousekeepingScheduleIndex entry) := .nothing rfl rfl rfl rfl
    refine ⟨[(port, .commandAck ⟨command.command, result⟩)], result, ⟨hset.trans (hsend _ _ 0), by simp, ?_, fun _ _ => rfl⟩,
      by simp, by simp, fun h => absurd rfl h⟩
    intro other hother
    exact Function.update_of_ne hother _ _
  | rebooted once is_reboot =>
    exact ⟨[(port, .commandAck ⟨command.command, resultAccepted⟩)], resultAccepted,
      hstill _ _ ((hsend s _ 0).congr rfl rfl rfl rfl) rfl rfl, by simp, by simp, fun _ => is_reboot⟩
  | preceded m twice companion =>
    refine ⟨[(port, m), (port, .commandAck ⟨command.command, resultAccepted⟩)], resultAccepted,
      hstill _ _ ((hsend s m 0).trans (hsend _ _ 1)) rfl rfl, ?_, ?_, fun h => absurd rfl h⟩
    · simpa using companion.2
    · simp [companion.1]
  | followed m t twice companion drift =>
    refine ⟨[(port, .commandAck ⟨command.command, resultAccepted⟩), (port, m)], resultAccepted,
      hstill _ _ (((hsend s _ 0).trans (hsend _ m 1)).congr rfl rfl rfl rfl) rfl rfl, ?_, ?_, fun h => absurd rfl h⟩
    · simpa using companion.2
    · rw [List.filter_cons_of_pos rfl, List.filter_cons_of_neg (by simp [companion.1]), List.filter_nil]

/-! ## A `SYSTEM_TIME` -/

theorem reportChange_sends (t : Clock.SystemTime) (r : Nat → Readings) :
    Sends (Set.range r) (if t.source = s.systemTime.source then [] else clockTexts t) [] s (s.reportChange t r) := by
  unfold reportChange
  split
  · exact .nothing rfl rfl rfl rfl
  · have hclock : Sends (Set.range r) [] [] s { s with systemTime := t } := .nothing rfl rfl rfl rfl
    exact (hclock.trans (.enqueueWrite _ linkChanUart _ (Set.mem_range_self 1))).trans
      (.enqueueWrite _ linkChanUsb _ (Set.mem_range_self 2))

/-! ## Every message -/

/-- Every message of either port, in every state: a command is acknowledged exactly once, before the
reset if it asks for one; all that is offered leaves by the message's own port, except the texts about
the clock, on both ports, of an accepted `SYSTEM_TIME` that changed the source; and the other port's
schedule and cursor stay, as a forwarded request is answered here. What is offered is what the write queues were
sent, each port's its own, and what is recorded is what `sdWriteQueue` was sent. -/
theorem dispatch_replies (c : Conversion) (now : UInt32) (inbound : InboundMsg) (r : Nat → Readings) (s : TaskMavlink) :
    ∃ items records, KeepsTo inbound.chan (Set.range r) s (s.dispatch c now inbound r) items records ∧
      (inbound.msg.msgid = msgIdCommandLong → ∃ result, items.filter (fun x => x.2.isCommandAck) =
        [(inbound.chan, .commandAck { command := inbound.msg.commandLong.command, result })]) ∧
      ((s.dispatch c now inbound r).running.resetting ≠ s.running.resetting →
        inbound.msg.msgid = msgIdCommandLong ∧ inbound.msg.commandLong.command = cmdPreflightRebootShutdown) ∧
      (inbound.msg.msgid ≠ msgIdSystemTime → ∀ x ∈ items, x.1 = inbound.chan ∧ x.2.isClockText = false) ∧
      (inbound.msg.msgid = msgIdSystemTime →
        items = if (s.clock (Clock.setUnixTime (inbound.msg.systemTimeUnixUsec / 1000000).toNat .ground) (r 0)).1.1 = true ∧
            (s.dispatch c now inbound r).systemTime.source ≠ s.systemTime.source
          then clockTexts (s.dispatch c now inbound r).systemTime else []) := by
  have h := s.dispatch_cases c now inbound r
  generalize s.dispatch c now inbound r = s' at h ⊢
  cases h with
  | silent no_command no_time =>
    refine ⟨[], [], .of_still (.nothing rfl rfl rfl rfl) (by simp) rfl rfl,
      fun h => absurd h no_command, fun h => absurd rfl h, by simp, fun h => absurd h no_time⟩
  | replied m t k no_command no_time reply drift =>
    have hsend : Sends (Set.range r) [(inbound.chan, m)] [] s (s.enqueueWrite inbound.chan m (r k)) :=
      .enqueueWrite s _ m (Set.mem_range_self k)
    refine ⟨[(inbound.chan, m)], [], .of_still (hsend.congr rfl rfl rfl rfl) (by simp) rfl rfl,
      fun h => absurd h no_command, fun h => absurd rfl h, ?_, fun h => absurd h no_time⟩
    simpa using fun _ => reply.2
  | forwarded requests q no_command no_time answers sent =>
    have hsends : Sends (Set.range r) [] requests s { s with sdWriteQueue := q, recorded := s.recorded ++ requests } :=
      ⟨(List.append_nil _).symm, fun _ => .nothing _, rfl, sent⟩
    exact ⟨[], requests, .of_still hsends (fun x hx _ => answers x hx) rfl rfl,
      fun h => absurd h no_command, fun h => absurd rfl h, by simp, fun h => absurd h no_time⟩
  | commanded is_command effect =>
    obtain ⟨items, result, hkeeps, hport, hack, hreset⟩ := s.commanded_replies effect
    refine ⟨items, [], hkeeps, fun _ => ⟨result, hack⟩, fun h => ⟨is_command, hreset h⟩, fun _ => hport, ?_⟩
    intro h
    rw [is_command] at h
    exact absurd h (by decide)
  | timed answer t₁ t₂ q records is_time answered set drift recorded =>
    obtain ⟨-, hschedule, hcursor, hrunning⟩ := s.reportChange_frame t₁ r
    have hsends : Sends (Set.range r) _ records s { s.reportChange t₁ r with
        systemTime := t₂, sdWriteQueue := q, recorded := s.recorded ++ records } :=
      ⟨(s.reportChange_sends t₁ r).offered, (s.reportChange_sends t₁ r).outbound, rfl, recorded.sent⟩
    refine ⟨_, records, .of_still hsends ?_ hschedule hcursor, ?_, ?_, ?_, ?_⟩
    · intro x hx hrequest
      rw [recorded.no_request x hx] at hrequest
      cases hrequest
    · intro h
      rw [is_time] at h
      exact absurd h (by decide)
    · intro h
      exact absurd (congrArg _ hrunning) h
    · exact fun h => absurd is_time h
    · intro _
      dsimp only
      rw [answered, drift.source]
      have htexts : clockTexts t₂ = clockTexts t₁ := by rw [clockTexts, drift.source, drift.foundRunning, clockTexts]
      rw [htexts]
      by_cases hsame : t₁.source = s.systemTime.source
      · simp [hsame]
      · have haccepted : answer.1 = true := set.accepted_iff.2 (set.source_ne_iff.1 hsame).1
        rw [if_neg hsame, if_pos ⟨haccepted, hsame⟩]

/-! ## A whole run -/

theorem reconcile_sends (now : UInt32) (r : Nat → Readings) :
    ∃ items records, Sends (Set.range r) items records s (s.reconcile now r) := by
  by_cases h : now - s.lastReseedMs < kClockReseedIntervalMs
  · rw [s.reconcile_early h]
    exact ⟨[], [], .nothing rfl rfl rfl rfl⟩
  · obtain ⟨t₁, t₂, q, records, -, -, hrecorded, heq⟩ := s.reconcile_spec h r
    rw [heq]
    exact ⟨_, records, (s.reportChange_sends t₁ r).offered, (s.reportChange_sends t₁ r).outbound, rfl, hrecorded.sent⟩

theorem recordBattery_sends (now : UInt32) (r : Readings) : ∃ records, Sends {r} [] records s (s.recordBattery now r) := by
  obtain ⟨t, q, records, last, -, hrecorded, heq⟩ := s.recordBattery_spec now r
  rw [heq]
  exact ⟨records, (List.append_nil _).symm, fun _ => .nothing _, rfl, hrecorded.sent⟩

theorem foldl_fireRow_sends (now : UInt32) (r : Fin 2 → Fin 5 → Readings) {found : Set Readings}
    (hfound : ∀ port row, r port row ∈ found) : ∀ (l : List (Fin 2 × Fin 5)) (s : TaskMavlink),
      ∃ items, Sends found items [] s (l.foldl (fireRow now r) s)
  | [], s => ⟨[], .nothing rfl rfl rfl rfl⟩
  | x :: l, s => by
    obtain ⟨items, hrest⟩ := foldl_fireRow_sends now r hfound l (fireRow now r s x)
    have hone : ∃ items, Sends found items [] s (fireRow now r s x) := by
      unfold fireRow
      dsimp only
      split
      · obtain ⟨m, t, cursor, -, -, -, -, hcall⟩ := s.call_spec (s.schedule x.1 x.2).function x.1 (r x.1 x.2)
        rw [hcall]
        exact ⟨[(x.1, m)], (Sends.enqueueWrite s x.1 m (hfound _ _)).congr rfl rfl rfl rfl⟩
      · exact ⟨[], .nothing rfl rfl rfl rfl⟩
    obtain ⟨first, hfirst⟩ := hone
    exact ⟨first ++ items, hfirst.trans hrest⟩

theorem pass_sends (c : Conversion) (e : Pass) : ∃ items records, Sends e.readings items records s (s.pass c e) := by
  obtain ⟨items₁, records₁, h₁⟩ := s.reconcile_sends (tickMs e.started) e.reconcile
  obtain ⟨records₂, h₂⟩ := (s.reconcile (tickMs e.started) e.reconcile).recordBattery_sends (tickMs e.started) e.battery
  have hawaited : Sends e.readings (items₁ ++ []) (records₁ ++ records₂) s (s.awaited e) :=
    ((h₁.mono fun r hr => .inl (.inl (.inl hr))).trans (h₂.mono fun r hr => .inl (.inl (.inr hr)))).congr rfl rfl rfl rfl
  have hheard : ∃ items records, Sends e.readings items records (s.awaited e) (s.heard c e) := by
    unfold heard
    cases e.received with
    | none => exact ⟨[], [], .nothing rfl rfl rfl rfl⟩
    | some inbound =>
      obtain ⟨items, records, hkeeps, -⟩ := dispatch_replies c (tickMs e.started) inbound e.dispatch (s.awaited e)
      exact ⟨items, records, hkeeps.toSends.mono fun r hr => .inl (.inr hr)⟩
  obtain ⟨items₃, records₃, h₃⟩ := hheard
  rw [pass_eq]
  split
  · exact ⟨_, _, hawaited.trans h₃⟩
  · have hfound : ∀ port row, e.fire port row ∈ e.readings := fun port row => .inr ⟨port, row, rfl⟩
    obtain ⟨items₄, h₄⟩ := foldl_fireRow_sends (tickMs e.resumed) e.fire hfound rows (s.heard c e)
    exact ⟨_, _, ((hawaited.trans h₃).trans h₄).congr rfl rfl rfl rfl⟩

/-- A run sends the queues what it notes, whoever else uses them in between. -/
theorem run_sends {c : Conversion} : ∀ {es : List Pass} {s s' : TaskMavlink}, run (step c) s es = some s' →
    ∃ items records, Sends {r | ∃ e ∈ es, r ∈ e.readings} items records s s'
  | [], s, s', hrun => by
    cases hrun
    exact ⟨[], [], .nothing rfl rfl rfl rfl⟩
  | e :: es, s, s', hrun => by
    obtain ⟨m, hm, hrest⟩ := Option.bind_eq_some_iff.1 hrun
    obtain ⟨items, records, hpass⟩ := s.pass_sends c e
    obtain ⟨items', records', hsends⟩ := run_sends hrest
    rw [pass_of_step hm] at hpass
    have hfirst : e.readings ⊆ {r | ∃ e' ∈ e :: es, r ∈ e'.readings} := fun r hr => ⟨e, List.mem_cons_self, hr⟩
    have hlater : {r | ∃ e' ∈ es, r ∈ e'.readings} ⊆ {r | ∃ e' ∈ e :: es, r ∈ e'.readings} :=
      fun r ⟨e', he', hr⟩ => ⟨e', List.mem_cons_of_mem e he', hr⟩
    exact ⟨_, _, (hpass.mono hfirst).trans (hsends.mono hlater)⟩

/-- In a run in which nobody else uses the queues, each holds what was noted, sent in its order. -/
theorem run_queues {c : Conversion} {es : List Pass} {s s' : TaskMavlink} (hrun : run (step c) s es = some s')
    (hidle : ∀ e ∈ es, Idle e.readings) : ∃ items records,
      s'.offered = s.offered ++ items ∧ s'.recorded = s.recorded ++ records ∧
        (∀ port, s'.outbound port = (sentTo port items).foldl Outbound.enqueueWrite (s.outbound port)) ∧
        s'.sdWriteQueue = records.foldl (fun q x => (Log.xQueueSend q x).2) s.sdWriteQueue := by
  obtain ⟨items, records, hsends⟩ := run_sends hrun
  have hstill : Idle {r | ∃ e ∈ es, r ∈ e.readings} := fun r ⟨e, he, hr⟩ => hidle e he r hr
  exact ⟨items, records, hsends.offered, hsends.recorded, fun port => (hsends.outbound port).eq_foldl hstill,
    hsends.sdWriteQueue.eq_foldl hstill⟩

end TaskMavlink

end BoredomOS.Link
