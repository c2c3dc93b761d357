/-
How many items one pass offers to a port, against the depth of the port's write queue. A pass has a text
for a source that the reconciliation changed, at most two items for what it receives and one for each
row that is due: eight if all of them come together, and never more.
-/
import BoredomOS.Link.Replies
import BoredomOS.Link.Rows

namespace BoredomOS.Link

open Clock (Drift SetOutcome Source)

/-- What happens to a write queue by itself: the writer takes from it, and the log protocol adds to it up
to two items. -/
def Readings.KeepsRoom (r : Readings) : Prop := ∀ queue, (r.writeQueue queue).length ≤ max queue.length 2

structure Pass.KeepsRoom (e : Pass) : Prop where
  reconcile : ∀ k, (e.reconcile k).KeepsRoom
  dispatch : ∀ k, (e.dispatch k).KeepsRoom
  fire : ∀ port row, (e.fire port row).KeepsRoom

namespace TaskMavlink

/-- A part of a pass that offers a port `n` items, and has none of them refused where they fit. -/
structure Offers (H : Prop) (port : Fin 2) (n : Nat) (s s' : TaskMavlink) : Prop where
  offered : ∃ items, s'.offered = s.offered ++ items ∧ items.countP (fun x => x.1 = port) = n
  room : H → ∀ k, 2 ≤ k → k + n ≤ writeQueueDepth → (s.outbound port).writeQueue.length ≤ k →
    (s'.outbound port).writeQueue.length ≤ k + n ∧
      (s'.outbound port).refused .taskMavlink = (s.outbound port).refused .taskMavlink

namespace Offers

variable {H : Prop} {port : Fin 2} {s s' s'' : TaskMavlink}

/-- A part that leaves the queues alone. -/
theorem none (hoffered : s'.offered = s.offered) (houtbound : s'.outbound = s.outbound) : Offers H port 0 s s' := by
  constructor
  · exact ⟨[], by rw [hoffered, List.append_nil], rfl⟩
  · intro _ k _ _ hlen
    rw [houtbound]
    exact ⟨hlen, rfl⟩

theorem trans {n n' : Nat} (h : Offers H port n s s') (h' : Offers H port n' s' s'') : Offers H port (n + n') s s'' := by
  obtain ⟨items, hitems, hcount⟩ := h.offered
  obtain ⟨items', hitems', hcount'⟩ := h'.offered
  constructor
  · exact ⟨items ++ items', by rw [hitems', hitems, List.append_assoc], by rw [List.countP_append, hcount, hcount']⟩
  · intro hH k hk hroom hlen
    obtain ⟨hlen₁, hrefused₁⟩ := h.room hH k hk (by omega) hlen
    obtain ⟨hlen₂, hrefused₂⟩ := h'.room hH (k + n) (by omega) (by omega) hlen₁
    exact ⟨by omega, hrefused₂.trans hrefused₁⟩

/-- What goes on beside the queues. -/
theorem congr {n : Nat} (h : Offers H port n s s') (hoffered : s''.offered = s'.offered)
    (houtbound : s''.outbound = s'.outbound) : Offers H port n s s'' := h.trans (none hoffered houtbound)

theorem enqueueWrite (s : TaskMavlink) (chan : Fin 2) (m : LinkMsg) {r : Readings} (hr : H → r.KeepsRoom) :
    Offers H port (if chan = port then 1 else 0) s (s.enqueueWrite chan m r) := by
  constructor
  · refine ⟨[(chan, m)], rfl, ?_⟩
    by_cases hchan : chan = port
    · simp [hchan]
    · simp [hchan]
  · intro hH k hk hroom hlen
    unfold TaskMavlink.enqueueWrite
    by_cases hchan : chan = port
    · subst hchan
      rw [if_pos rfl] at hroom ⊢
      have hfound := hr hH (s.outbound chan).writeQueue
      have hlt : (r.writeQueue (s.outbound chan).writeQueue).length < writeQueueDepth := by omega
      dsimp only
      rw [Function.update_self]
      unfold Outbound.enqueueWrite Outbound.xQueueSend
      simp only [Fifo.send, hlt, if_true, Bool.not_true, Bool.false_and, Bool.false_eq_true, if_false, List.length_append,
        List.length_singleton, Function.update_self, Nat.add_zero, and_true]
      omega
    · rw [if_neg hchan]
      dsimp only
      rw [Function.update_of_ne (Ne.symm hchan)]
      exact ⟨hlen, rfl⟩

end Offers

/-! ## The parts of a pass -/

theorem one_each : ∀ port : Fin 2, (if linkChanUart = port then 1 else 0) + (if linkChanUsb = port then 1 else 0) = 1 := by
  decide

section

variable {H : Prop} (s : TaskMavlink) (port : Fin 2)

theorem reportChange_offers (t : Clock.SystemTime) {r : Nat → Readings} (hr : H → ∀ k, (r k).KeepsRoom) :
    Offers H port (if t.source = s.systemTime.source then 0 else 1) s (s.reportChange t r) := by
  unfold reportChange
  split
  · exact Offers.none rfl rfl
  · let text := Link.sendStatusText (clockStatusText t.source t.foundRunning) severityInfo
    have hsame : Offers H port 0 s { s with systemTime := t } := Offers.none rfl rfl
    have huart : Offers H port _ { s with systemTime := t } _ :=
      Offers.enqueueWrite _ linkChanUart text fun hH => hr hH 1
    have husb : Offers H port _ ({ s with systemTime := t }.enqueueWrite linkChanUart text (r 1)) _ :=
      Offers.enqueueWrite _ linkChanUsb text fun hH => hr hH 2
    have hboth := huart.trans husb
    rw [one_each port] at hboth
    exact hsame.trans hboth

theorem recordBattery_offers (now : UInt32) (r : Readings) : Offers H port 0 s (s.recordBattery now r) := by
  obtain ⟨t, q, records, last, -, -, heq⟩ := s.recordBattery_spec now r
  rw [heq]
  exact Offers.none rfl rfl

/-- Where the reconciliation changes the source: it is due, the source is one a DS1307 may replace, and
what the DS1307 shows at its step is accepted. -/
def Promotes (e : Pass) : Prop :=
  ¬ tickMs e.started - s.lastReseedMs < kClockReseedIntervalMs ∧
    (s.systemTime.source = .survived ∨ s.systemTime.source = .none) ∧ s.systemTime.ds1307Present = true ∧
    Clock.Accepts (e.reconcile 0).meanwhile 2
      ((e.reconcile 0).meanwhile.move 1 ((e.reconcile 0).meanwhile.move 0 s.systemTime)).ds1307Now .ds1307
      ((e.reconcile 0).meanwhile.move 1 ((e.reconcile 0).meanwhile.move 0 s.systemTime))

theorem Reconciled.source_ne_iff {m : Clock.Meanwhile} {t t' : Clock.SystemTime} (h : Reconciled m t t') :
    t'.source ≠ t.source ↔ (t.source = .survived ∨ t.source = .none) ∧ t.ds1307Present = true ∧
      Clock.Accepts m 2 (m.move 1 (m.move 0 t)).ds1307Now .ds1307 (m.move 1 (m.move 0 t)) := by
  cases h with
  | pushed ground drift => simp [drift.source, ground]
  | absent absent drift => simp [drift.source, absent]
  | @seeded answer t' not_ground present set =>
    have hd : Drift t (m.move 1 (m.move 0 t)) := ((Drift.refl t).move m 0).move m 1
    rw [← hd.source, set.source_ne_iff, hd.source]
    cases hsrc : t.source with
    | ground => exact absurd hsrc not_ground
    | ds1307 => simp
    | survived => simp [present]
    | none => simp [present]

theorem reconcile_offers (e : Pass) (hr : H → ∀ k, (e.reconcile k).KeepsRoom) :
    ∃ n, Offers H port n s (s.reconcile (tickMs e.started) e.reconcile) ∧ n ≤ 1 ∧ (n = 1 ↔ s.Promotes e) := by
  unfold Promotes
  by_cases hearly : tickMs e.started - s.lastReseedMs < kClockReseedIntervalMs
  · rw [s.reconcile_early hearly]
    exact ⟨0, Offers.none rfl rfl, Nat.zero_le _, by simp [hearly]⟩
  · obtain ⟨t₁, t₂, q, records, hreconciled, -, -, heq⟩ := s.reconcile_spec hearly e.reconcile
    have hsource := Reconciled.source_ne_iff hreconciled
    rw [heq, ← hsource]
    refine ⟨_, (s.reportChange_offers port t₁ hr).congr rfl rfl, ?_, ?_⟩
    · split <;> simp
    · split
      · rename_i hsame
        simp [hsame]
      · rename_i hchanged
        simp [hchanged, hearly]

theorem awaited_offers (e : Pass) (hr : H → e.KeepsRoom) :
    ∃ n, Offers H port n s (s.awaited e) ∧ n ≤ 1 ∧ (n = 1 ↔ s.Promotes e) := by
  obtain ⟨n, hn, hle, hiff⟩ := s.reconcile_offers port e fun hH => (hr hH).reconcile
  refine ⟨n, ?_, hle, hiff⟩
  have hbattery := recordBattery_offers (H := H) (s.reconcile (tickMs e.started) e.reconcile) port (tickMs e.started) e.battery
  exact (hn.trans hbattery).congr rfl rfl

/-- A part of a pass that offers a port two items at most, and two exactly if `two` holds; then it touches no
row and starts no reset. -/
structure AtMostTwo (H : Prop) (port : Fin 2) (two : Prop) (n : Nat) (s s' : TaskMavlink) : Prop where
  offers : Offers H port n s s'
  le : n ≤ 2
  two_iff : n = 2 ↔ two
  still : n = 2 → s'.schedule = s.schedule ∧ s'.running = s.running

theorem Offers.few {two : Prop} {n : Nat} {s s' : TaskMavlink} (h : Offers H port n s s') (hle : n ≤ 1) (hnot : ¬ two) :
    ∃ n, AtMostTwo H port two n s s' := by
  refine ⟨n, h, by omega, ⟨fun htwo => ?_, fun htwo => absurd htwo hnot⟩, fun htwo => ?_⟩
  · omega
  · omega

/-- Two items on one port: for this port both or none. -/
theorem Offers.both {two : Prop} {chan : Fin 2} {s s' : TaskMavlink}
    (h : Offers H port ((if chan = port then 1 else 0) + if chan = port then 1 else 0) s s') (htwo : two ↔ chan = port)
    (hschedule : s'.schedule = s.schedule) (hrunning : s'.running = s.running) : ∃ n, AtMostTwo H port two n s s' := by
  refine ⟨_, h, ?_, ?_, fun _ => ⟨hschedule, hrunning⟩⟩
  · split <;> simp
  · rw [htwo]
    split <;> simp_all

/-- A command of this port that is answered twice. -/
def BringsTwo (c : Conversion) (inbound : InboundMsg) : Prop :=
  inbound.chan = port ∧ inbound.msg.msgid = msgIdCommandLong ∧
    s.answersTwice c inbound.chan inbound.msg.commandLong = true

/-- A message brings at most two items, and two only if it is a command of this port that is answered twice. -/
theorem dispatch_offers (c : Conversion) (now : UInt32) (inbound : InboundMsg) {r : Nat → Readings}
    (hr : H → ∀ k, (r k).KeepsRoom) :
    ∃ n, AtMostTwo H port (s.BringsTwo port c inbound) n s (s.dispatch c now inbound r) := by
  have h := s.dispatch_cases c now inbound r
  generalize s.dispatch c now inbound r = s' at h ⊢
  have hitem : (if inbound.chan = port then 1 else 0) ≤ 1 := by split <;> simp
  have hsend : ∀ (s : TaskMavlink) (m : LinkMsg) (k : Nat),
      Offers H port (if inbound.chan = port then 1 else 0) s (s.enqueueWrite inbound.chan m (r k)) := fun s m k =>
    Offers.enqueueWrite s inbound.chan m fun hH => hr hH k
  have hother : inbound.msg.msgid ≠ msgIdCommandLong → ¬ s.BringsTwo port c inbound := fun hne htwo => hne htwo.2.1
  cases h with
  | silent no_command => exact (Offers.none rfl rfl).few port (Nat.zero_le _) (hother no_command)
  | replied m t k no_command =>
    refine Offers.few port ?_ hitem (hother no_command)
    exact (hsend s m k).congr rfl rfl
  | forwarded requests q no_command =>
    refine Offers.few port ?_ (Nat.zero_le _) (hother no_command)
    exact Offers.none rfl rfl
  | timed answer t₁ t₂ q records is_time =>
    refine Offers.few port ((s.reportChange_offers port t₁ hr).congr rfl rfl) ?_ (hother ?_)
    · split <;> simp
    · rw [is_time]
      decide
  | commanded is_command effect =>
    have honce : s.answersTwice c inbound.chan inbound.msg.commandLong = false → ¬ s.BringsTwo port c inbound := by
      rintro hfalse ⟨-, -, htrue⟩
      rw [hfalse] at htrue
      cases htrue
    have htwice : s.answersTwice c inbound.chan inbound.msg.commandLong = true →
        (s.BringsTwo port c inbound ↔ inbound.chan = port) := fun htrue => and_iff_left ⟨is_command, htrue⟩
    cases effect with
    | acknowledged result once => exact (hsend s _ 0).few port hitem (honce once)
    | scheduled result entry once =>
      have hsame : Offers H port 0 s (s.setRow inbound.chan kHousekeepingScheduleIndex entry) := Offers.none rfl rfl
      have hset := hsame.trans (hsend _ (.commandAck ⟨inbound.msg.commandLong.command, result⟩) 0)
      rw [Nat.zero_add] at hset
      exact hset.few port hitem (honce once)
    | rebooted once =>
      refine Offers.few port ?_ hitem (honce once)
      exact (hsend s _ 0).congr rfl rfl
    | preceded m twice => exact ((hsend s m 0).trans (hsend _ _ 1)).both port (htwice twice) rfl rfl
    | followed m t twice =>
      refine Offers.both port ?_ (htwice twice) rfl rfl
      exact ((hsend s _ 0).trans (hsend _ m 1)).congr rfl rfl

/-- How many rows of the port are due. -/
def dueRows (now : UInt32) : Nat := (List.finRange 5).countP fun row => (s.schedule port row).isDue now

theorem foldl_fireRow_offers (now : UInt32) (r : Fin 2 → Fin 5 → Readings) (hr : H → ∀ port row, (r port row).KeepsRoom) :
    ∀ (l : List (Fin 2 × Fin 5)) (s : TaskMavlink), l.Nodup →
      Offers H port (l.countP fun x => x.1 = port && (s.schedule x.1 x.2).isDue now) s (l.foldl (fireRow now r) s)
  | [], s, _ => Offers.none rfl rfl
  | x :: l, s, h => by
    obtain ⟨hx, hl⟩ := List.nodup_cons.1 h
    have hrest := foldl_fireRow_offers now r hr l (fireRow now r s x) hl
    have hone : Offers H port (if x.1 = port && (s.schedule x.1 x.2).isDue now then 1 else 0) s (fireRow now r s x) := by
      unfold fireRow
      dsimp only
      cases hdue : (s.schedule x.1 x.2).isDue now with
      | false =>
        simp only [Bool.and_false, Bool.false_eq_true, if_false]
        exact Offers.none rfl rfl
      | true =>
        obtain ⟨m, t, cursor, -, -, -, -, hcall⟩ := s.call_spec (s.schedule x.1 x.2).function x.1 (r x.1 x.2)
        simp only [Bool.and_true, decide_eq_true_eq, if_true]
        rw [hcall]
        exact (Offers.enqueueWrite s x.1 m fun hH => hr hH x.1 x.2).congr rfl rfl
    have hcount : (l.countP fun y => y.1 = port && ((fireRow now r s x).schedule y.1 y.2).isDue now) =
        l.countP fun y => y.1 = port && (s.schedule y.1 y.2).isDue now := by
      refine List.countP_congr fun y hy => ?_
      rw [s.fireRow_other hx hy]
    rw [hcount] at hrest
    rw [List.countP_cons, Nat.add_comm, List.foldl_cons]
    exact hone.trans hrest

theorem fire_offers (now : UInt32) (r : Fin 2 → Fin 5 → Readings) (hr : H → ∀ port row, (r port row).KeepsRoom) :
    Offers H port (s.dueRows port now) s (s.fire now r) := by
  have h := foldl_fireRow_offers port now r hr rows s rows_nodup
  have hcount : (rows.countP fun x => x.1 = port && (s.schedule x.1 x.2).isDue now) = s.dueRows port now := by
    have hne : linkChanUart ≠ linkChanUsb ∧ linkChanUsb ≠ linkChanUart := by decide
    unfold rows dueRows
    rcases port_cases port with rfl | rfl
    · simp [List.countP_append, List.countP_map, Function.comp_def, hne.2]
    · simp [List.countP_append, List.countP_map, Function.comp_def, hne.1]
  rw [hcount] at h
  exact h

theorem dueRows_le (now : UInt32) : s.dueRows port now ≤ 5 ∧
    (s.dueRows port now = 5 ↔ ∀ row, (s.schedule port row).isDue now = true) := by
  unfold dueRows
  constructor
  · exact List.countP_le_length
  · have hiff := List.countP_eq_length (p := fun row => (s.schedule port row).isDue now) (l := List.finRange 5)
    rw [List.length_finRange] at hiff
    rw [hiff]
    simp

/-! ## A whole pass -/

/-- Everything at once: a text for the source, a command that is answered twice and five due rows. -/
def Crowded (c : Conversion) (e : Pass) : Prop :=
  s.Promotes e ∧
    (∃ inbound ∈ e.received, inbound.chan = port ∧ inbound.msg.msgid = msgIdCommandLong ∧
      s.answersTwice c inbound.chan inbound.msg.commandLong = true) ∧
    ∀ row, (s.schedule port row).isDue (tickMs e.resumed) = true

theorem awaited_answersTwice (c : Conversion) (e : Pass) (chan : Fin 2) (command : CommandLong) :
    (s.awaited e).answersTwice c chan command = s.answersTwice c chan command := by
  unfold answersTwice
  rw [awaited_schedule]

theorem heard_offers (c : Conversion) (e : Pass) (hr : H → e.KeepsRoom) :
    ∃ n, AtMostTwo H port (∃ inbound ∈ e.received, s.BringsTwo port c inbound) n (s.awaited e) (s.heard c e) := by
  unfold heard
  cases e.received with
  | none => exact (Offers.none rfl rfl).few port (Nat.zero_le _) (by simp)
  | some inbound =>
    obtain ⟨n, hn⟩ := (s.awaited e).dispatch_offers port c (tickMs e.started) inbound fun hH => (hr hH).dispatch
    unfold BringsTwo at hn
    rw [awaited_answersTwice] at hn
    exact ⟨n, hn.offers, hn.le, hn.two_iff.trans (by simp [BringsTwo]), hn.still⟩

theorem pass_offers (hs : s.running.resetting = none) (c : Conversion) (e : Pass) (hr : H → e.KeepsRoom) :
    ∃ n, Offers H port n s (s.pass c e) ∧ n ≤ 8 ∧ (n = 8 ↔ s.Crowded port c e) := by
  obtain ⟨n₁, hn₁, hle₁, hiff₁⟩ := s.awaited_offers port e hr
  obtain ⟨n₂, hn₂, hle₂, hiff₂, hframe⟩ := s.heard_offers port c e hr
  rw [awaited_schedule] at hframe
  show ∃ n, _ ∧ _ ∧ (n = 8 ↔ s.Promotes e ∧ (∃ inbound ∈ e.received, s.BringsTwo port c inbound) ∧ _)
  rw [← hiff₁, ← hiff₂, pass_eq]
  split
  · rename_i hreset
    refine ⟨n₁ + n₂, hn₁.trans hn₂, by omega, fun h => by omega, fun ⟨_, htwo, _⟩ => ?_⟩
    rw [(hframe htwo).2, awaited_running, hs] at hreset
    cases hreset
  · obtain ⟨hle, hall⟩ := (s.heard c e).dueRows_le port (tickMs e.resumed)
    have hfire := (s.heard c e).fire_offers port (tickMs e.resumed) e.fire fun hH => (hr hH).fire
    refine ⟨n₁ + n₂ + (s.heard c e).dueRows port (tickMs e.resumed), ((hn₁.trans hn₂).trans hfire).congr rfl rfl, by omega, ?_⟩
    constructor
    · intro h
      have htwo : n₂ = 2 := by omega
      refine ⟨by omega, htwo, ?_⟩
      rw [← (hframe htwo).1]
      exact hall.1 (by omega)
    · rintro ⟨hone, htwo, hdue⟩
      rw [← (hframe htwo).1] at hdue
      have hfive := hall.2 hdue
      omega

end

/-- Every pass, in every state and with every message and lateness: a port is offered at most seven items,
and none of them is refused to a queue that held two at most, exactly if not everything comes at once. -/
theorem offers_seven_iff {c : Conversion} {s s' : TaskMavlink} {e : Pass} (hstep : step c s e = some s') (port : Fin 2) :
    ((∃ items, s'.offered = s.offered ++ items ∧ items.countP (fun x => x.1 = port) ≤ 7) ∧
      (e.KeepsRoom → (s.outbound port).writeQueue.length ≤ 2 →
        (s'.outbound port).refused .taskMavlink = (s.outbound port).refused .taskMavlink)) ↔ ¬ s.Crowded port c e := by
  obtain ⟨n, hn, hle, hiff⟩ := s.pass_offers port (running_of_step hstep) c e id
  rw [pass_of_step hstep] at hn
  obtain ⟨items, hitems, hcount⟩ := hn.offered
  rw [← hiff]
  constructor
  · rintro ⟨⟨items', hitems', hseven⟩, -⟩ height
    rw [hitems, List.append_cancel_left_eq] at hitems'
    rw [← hitems', hcount] at hseven
    omega
  · intro hnot
    refine ⟨⟨items, hitems, by omega⟩, fun hkeeps hlen => ?_⟩
    exact (hn.room hkeeps 2 (le_refl 2) (by show 2 + n ≤ 9; omega) hlen).2

/-- Six hours after a boot that found an implausible DS1307, with housekeeping on and a pass two seconds late. -/
def sixHours : TaskMavlink :=
  { freshStart.task with
    schedule := fun _ row => { Link.schedule 0 false row with lastMs := 21598500, enabled := true }
    lastReseedMs := 500
    systemTime := {
      rtc := { ticks := 21600 * 128, running := true, readable := true, writable := true }
      ds1307 := 1700000000 * 128
      ds1307Present := true } }

def capabilitiesAsked : Pass := quietPass 21600500 (some (longCommand cmdRequestAutopilotCapabilities .nan .nan))

/-- The same, with the reconciliation done a pass before. -/
def reconciled : TaskMavlink := { sixHours with lastReseedMs := 21600000 }

/-- Two answers and five rows: seven items, and the queue with two in it takes them. -/
theorem offers_seven_late : ∃ items, (reconciled.pass .vcvt capabilitiesAsked).offered = reconciled.offered ++ items ∧
    items.countP (fun x => x.1 = linkChanUsb) ≤ 7 ∧ (reconciled.outbound linkChanUsb).writeQueue.length = 2 ∧
    ((reconciled.pass .vcvt capabilitiesAsked).outbound linkChanUsb).writeQueue.length = 9 ∧
    ((reconciled.pass .vcvt capabilitiesAsked).outbound linkChanUsb).refused .taskMavlink =
      (reconciled.outbound linkChanUsb).refused .taskMavlink := by
  have hearly : ¬ reconciled.Crowded linkChanUsb .vcvt capabilitiesAsked := fun hcrowded => hcrowded.1.1 (by decide)
  have hwaiting : (reconciled.outbound linkChanUsb).writeQueue.length = 2 := by decide +kernel
  have hkeeps : capabilitiesAsked.KeepsRoom :=
    ⟨fun _ _ => le_max_left _ _, fun _ _ => le_max_left _ _, fun _ _ _ => le_max_left _ _⟩
  obtain ⟨⟨items, hitems, hseven⟩, hrefused⟩ := (offers_seven_iff (c := .vcvt) rfl linkChanUsb).2 hearly
  exact ⟨items, hitems, hseven, hwaiting, by decide +kernel, hrefused hkeeps hwaiting.le⟩

/-! ## Everything at once -/

theorem sixHours_crowded : sixHours.Crowded linkChanUsb .vcvt capabilitiesAsked := by
  refine ⟨⟨by decide, Or.inr rfl, rfl, ?_⟩, ⟨_, rfl, rfl, rfl, rfl⟩, by decide⟩
  show Clock.Accepts quiet.meanwhile 2 (quiet.meanwhile.move 1 (quiet.meanwhile.move 0 sixHours.systemTime)).ds1307Now .ds1307
    (quiet.meanwhile.move 1 (quiet.meanwhile.move 0 sixHours.systemTime))
  rw [quiet_move]
  exact ⟨by decide +kernel, by decide, Or.inr rfl⟩

theorem sixHours_eight :
    ¬ ∃ items, (sixHours.pass .vcvt capabilitiesAsked).offered = sixHours.offered ++ items ∧
      items.countP (fun x => x.1 = linkChanUsb) ≤ 7 := by
  rintro ⟨items, hitems, hseven⟩
  obtain ⟨n, hn, -, height⟩ := sixHours.pass_offers (H := False) linkChanUsb rfl .vcvt capabilitiesAsked False.elim
  obtain ⟨items', hitems', hcount⟩ := hn.offered
  rw [hitems', List.append_cancel_left_eq] at hitems
  rw [← hitems, hcount, height.2 sixHours_crowded] at hseven
  omega

end TaskMavlink

end BoredomOS.Link
