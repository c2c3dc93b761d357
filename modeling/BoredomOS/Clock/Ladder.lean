/-
The ladder of sources while anything happens around it. Before each step of a call the internal RTC
ticks on and the DS1307 comes to hold whatever it likes; a call that only reads then leaves no trace
beyond that, and a set does one of three things, each described with the state its read found.
-/
import BoredomOS.Clock.Elapsed

namespace BoredomOS.Clock

open Steps

/-! ## What happens around a call -/

/-- Before the `k`-th step of a call: how far the clocks have gone, and what the DS1307 then counts. -/
structure Meanwhile where
  ticks : Nat → Nat
  ds1307 : Nat → Nat → Nat

def Meanwhile.move (m : Meanwhile) (k : Nat) (s : SystemTime) : SystemTime :=
  { s.wait (m.ticks k) with ds1307 := m.ds1307 k s.ds1307 }

/-- Only time has passed, for all but the DS1307. -/
def Drift (s s' : SystemTime) : Prop := ∃ n d, s' = { s.wait n with ds1307 := d }

theorem Drift.refl (s : SystemTime) : Drift s s := ⟨0, s.ds1307, by rw [s.wait_zero]⟩

theorem Drift.trans {a b c : SystemTime} (h : Drift a b) (h' : Drift b c) : Drift a c := by
  obtain ⟨n, d, rfl⟩ := h
  obtain ⟨n', d', rfl⟩ := h'
  refine ⟨n + n', d', ?_⟩
  unfold SystemTime.wait
  cases hrun : a.rtc.running <;> simp [hrun, Nat.add_assoc]

theorem Drift.move {s s' : SystemTime} (h : Drift s s') (m : Meanwhile) (k : Nat) : Drift s (m.move k s') :=
  h.trans ⟨m.ticks k, m.ds1307 k s'.ds1307, rfl⟩

theorem Drift.adjust {s s' : SystemTime} (h : Drift s s') (unixTime : Int) : Drift s (s'.adjust unixTime) :=
  h.trans ⟨0, (s'.adjust unixTime).ds1307, by rw [s'.wait_zero, SystemTime.adjust]⟩

theorem Drift.promote {s s' : SystemTime} (h : Drift s s') (source : Source) :
    Drift { s with source := source } { s' with source := source } := by
  obtain ⟨n, d, rfl⟩ := h
  exact ⟨n, d, rfl⟩

section

variable {s s' : SystemTime} (h : Drift s s')

include h

theorem Drift.source : s'.source = s.source := by
  obtain ⟨n, d, rfl⟩ := h
  rfl

theorem Drift.bootEpoch : s'.bootEpoch = s.bootEpoch := by
  obtain ⟨n, d, rfl⟩ := h
  rfl

theorem Drift.ds1307Present : s'.ds1307Present = s.ds1307Present := by
  obtain ⟨n, d, rfl⟩ := h
  rfl

theorem Drift.foundRunning : s'.foundRunning = s.foundRunning := by
  obtain ⟨n, d, rfl⟩ := h
  rfl

theorem Drift.readable : s'.rtc.readable = s.rtc.readable := by
  obtain ⟨n, d, rfl⟩ := h
  unfold SystemTime.wait
  split <;> rfl

theorem Drift.writable : s'.rtc.writable = s.rtc.writable := by
  obtain ⟨n, d, rfl⟩ := h
  unfold SystemTime.wait
  split <;> rfl

theorem Drift.second_le : s.rtc.second ≤ s'.rtc.second := by
  obtain ⟨n, d, rfl⟩ := h
  apply Nat.div_le_div_right
  unfold SystemTime.wait
  cases s.rtc.running <;> simp

end

/-- The RTC after `n` ticks. -/
def Rtc.after (r : Rtc) (n : Nat) : Rtc := if r.running then { r with ticks := r.ticks + n } else r

theorem Rtc.after_zero (r : Rtc) : r.after 0 = r := by
  unfold Rtc.after
  split <;> rfl

theorem Rtc.after_after (r : Rtc) (n k : Nat) : (r.after n).after k = r.after (n + k) := by
  unfold Rtc.after
  cases hrun : r.running <;> simp [hrun, Nat.add_assoc]

theorem Drift.rtc {s s' : SystemTime} (h : Drift s s') : ∃ n, s'.rtc = s.rtc.after n := by
  obtain ⟨n, d, rfl⟩ := h
  exact ⟨n, rfl⟩

/-! ## Calls that only read -/

theorem keeps_drift_readSeconds (s : SystemTime) : Prog.Keeps (Drift s) readSeconds := Prog.keeps_get _

theorem keeps_drift_getUnixTime (s : SystemTime) : Prog.Keeps (Drift s) getUnixTime :=
  Prog.keeps_bind (keeps_drift_readSeconds s) fun _ => Prog.keeps_pure _

theorem keeps_drift_getUnixTimeUsecIn (s : SystemTime) : ∀ attempts, Prog.Keeps (Drift s) (getUnixTimeUsecIn attempts)
  | 0 => Prog.keeps_bind (keeps_drift_getUnixTime s) fun _ => Prog.keeps_pure _
  | attempts + 1 => by
    unfold getUnixTimeUsecIn
    refine Prog.keeps_bind (keeps_drift_readSeconds s) fun before => ?_
    cases before with
    | none => exact Prog.keeps_pure _
    | some before =>
      refine Prog.keeps_bind (Prog.keeps_get _) fun fraction => ?_
      refine Prog.keeps_bind (keeps_drift_readSeconds s) fun after => ?_
      cases after with
      | none => exact Prog.keeps_pure _
      | some after =>
        dsimp only
        split
        · exact Prog.keeps_pure _
        · exact keeps_drift_getUnixTimeUsecIn s attempts

theorem keeps_drift_sinceBootUsec (s : SystemTime) : Prog.Keeps (Drift s) sinceBootUsec :=
  Prog.keeps_bind (keeps_drift_getUnixTimeUsecIn s 4) fun _ => Prog.keeps_bind (Prog.keeps_get _) fun _ => Prog.keeps_pure _

theorem keeps_drift_pushToDs1307 (s : SystemTime) : Prog.Keeps (Drift s) pushToDs1307 := by
  refine Prog.keeps_bind (Prog.keeps_get _) fun present => ?_
  split
  · exact Prog.keeps_pure _
  refine Prog.keeps_bind (keeps_drift_getUnixTime s) fun internal => ?_
  split
  · exact Prog.keeps_pure _
  refine Prog.keeps_bind (Prog.keeps_get _) fun now => ?_
  split
  · exact Prog.keeps_pure _
  · exact Prog.keeps_bind (Prog.keeps_modify fun _ h => h.adjust internal) fun _ => Prog.keeps_pure _

/-- A call whose steps keep the drift drifts. -/
theorem drift_runWith {α : Type} {call : Prog SystemTime α} (hcall : ∀ s, Prog.Keeps (Drift s) call) (m : Meanwhile)
    (n : Nat) (s : SystemTime) : Drift s (call.runWith m.move n s).2.2 :=
  Prog.runWith_of_keeps (fun k _ h => h.move m k) call n s (hcall s) (Drift.refl s)

/-! ## What a set does -/

/-- What `getUnixTime` answers now. -/
def SystemTime.held (s : SystemTime) : Nat := if s.rtc.readable then s.rtc.second else 0

theorem getUnixTime_runWith (m : Meanwhile) (n : Nat) (s : SystemTime) :
    getUnixTime.runWith m.move n s = ((m.move n s).held, n + 1, m.move n s) := by
  simp only [getUnixTime, readSeconds, Prog.runWith_bind, Prog.runWith_get, Prog.runWith_pure, SystemTime.held]
  split <;> rfl

/-- A time that is taken from this source, with `n` steps made: plausible, no demotion, and either the
second held when it is read or one the RTC lets itself be set to. -/
def Accepts (m : Meanwhile) (n : Nat) (unixTime : Int) (from_ : Source) (s : SystemTime) : Prop :=
  isPlausible unixTime = true ∧ from_.rank ≤ s.source.rank ∧
    (((m.move (n + 1) (m.move n s)).held : Int) = unixTime ∨ s.rtc.writable = true)

/-- What a set answers and leaves: it is refused, finds its second already held, or writes the clock. -/
inductive SetOutcome (m : Meanwhile) (n : Nat) (unixTime : Int) (from_ : Source) (s : SystemTime) :
    Bool × Bool → SystemTime → Prop
  | refused {s' : SystemTime} (not_accepted : ¬ Accepts m n unixTime from_ s) (drift : Drift s s') :
      SetOutcome m n unixTime from_ s (false, false) s'
  | repeated {s₁ s' : SystemTime} (accepted : Accepts m n unixTime from_ s) (before : Drift s s₁)
      (held : (s₁.held : Int) = unixTime) (drift : Drift { s₁ with source := from_ } s') :
      SetOutcome m n unixTime from_ s (true, false) s'
  | written {s₁ s₂ s' : SystemTime} (accepted : Accepts m n unixTime from_ s) (before : Drift s s₁)
      (held : (s₁.held : Int) ≠ unixTime) (between : Drift s₁ s₂) (writable : s₂.rtc.writable = true)
      (drift : Drift { (setClockAndEpoch unixTime s₁.held s₂).2 with source := from_ } s') :
      SetOutcome m n unixTime from_ s (true, true) s'

/-- The steps of a call meet exactly these moves. -/
def Moves (m : Meanwhile) (k : Nat) (s s' : SystemTime) : Prop := s' = m.move k s

theorem correctDs1307_drift (m : Meanwhile) (n : Nat) (unixTime : Int) (wanted : Bool) (s : SystemTime) :
    Prog.rely (Moves m) (correctDs1307 unixTime wanted) (fun _ _ s' => Drift s s') n s := by
  simp only [correctDs1307, Prog.rely_bind, Prog.rely_get, Prog.rely_when, Moves, forall_eq]
  have h : Drift s (m.move (n + 1) (m.move n s)) := ((Drift.refl s).move m n).move m (n + 1)
  split
  · simp only [Prog.rely_modify, Moves, forall_eq]
    exact (h.move m (n + 2)).adjust unixTime
  · exact h

theorem setUnixTime_rely (m : Meanwhile) (n : Nat) (unixTime : Int) (from_ : Source) (s : SystemTime) :
    Prog.rely (Moves m) (setUnixTime unixTime from_) (fun r _ s' => SetOutcome m n unixTime from_ s r s') n s := by
  have h₁ : Drift s (m.move n s) := (Drift.refl s).move m n
  have h₂ : Drift s (m.move (n + 1) (m.move n s)) := h₁.move m (n + 1)
  unfold setUnixTime
  split
  · rename_i hp
    exact .refused (fun h => by simp [h.1] at hp) (Drift.refl s)
  rename_i hp
  have hp : isPlausible unixTime = true := by simpa using hp
  simp only [Prog.rely_bind, Prog.rely_get, Moves, forall_eq]
  split
  · rename_i hrank
    rw [h₁.source] at hrank
    exact .refused (fun h => absurd h.2.1 (by omega)) h₁
  rename_i hrank
  rw [h₁.source] at hrank
  simp only [getUnixTime, readSeconds, Prog.rely_bind, Prog.rely_get, Prog.rely_pure, Moves, forall_eq]
  have hheld : (if (m.move (n + 1) (m.move n s)).rtc.readable = true then
      some (m.move (n + 1) (m.move n s)).rtc.second else none).getD 0 = (m.move (n + 1) (m.move n s)).held := by
    unfold SystemTime.held
    split <;> rfl
  rw [hheld]
  split
  · rename_i heq
    simp only [Prog.rely_bind, Prog.rely_modify, Prog.rely_pure, Moves, forall_eq]
    refine Prog.rely_mono (fun _ _ s' hs' => ?_) _ _ _ (correctDs1307_drift m _ unixTime _ _)
    refine .repeated ⟨hp, by omega, Or.inl heq⟩ h₂ heq (Drift.trans ?_ hs')
    exact ⟨m.ticks (n + 2), m.ds1307 (n + 2) (m.move (n + 1) (m.move n s)).ds1307, rfl⟩
  · rename_i hne
    simp only [Prog.rely_bind, Prog.rely_act, Moves, forall_eq]
    have h₃ : Drift s (m.move (n + 2) (m.move (n + 1) (m.move n s))) := h₂.move m (n + 2)
    by_cases hw : (m.move (n + 2) (m.move (n + 1) (m.move n s))).rtc.writable = true
    · have hset : setClockAndEpoch unixTime (m.move (n + 1) (m.move n s)).held (m.move (n + 2) (m.move (n + 1) (m.move n s))) =
          (true, (setClockAndEpoch unixTime (m.move (n + 1) (m.move n s)).held
            (m.move (n + 2) (m.move (n + 1) (m.move n s)))).2) := by
        rw [setClockAndEpoch, if_pos hw]
      rw [hset]
      simp only [Bool.not_true, Bool.false_eq_true, if_false, Prog.rely_bind, Prog.rely_modify, Prog.rely_pure, Moves, forall_eq]
      refine Prog.rely_mono (fun _ k s' hs' => ?_) _ _ _ (correctDs1307_drift m _ unixTime _ _)
      refine .written ⟨hp, by omega, Or.inr (h₃.writable ▸ hw)⟩ h₂ hne ((Drift.refl _).move m (n + 2)) hw ?_
      exact (hs'.move m k).promote from_
    · rw [setClockAndEpoch, if_neg hw]
      refine .refused (fun h => ?_) h₃
      rcases h.2.2 with heq | hwritable
      · exact hne heq
      · rw [h₃.writable] at hw
        exact hw hwritable

theorem setUnixTime_cases (m : Meanwhile) (n : Nat) (unixTime : Int) (from_ : Source) (s : SystemTime) :
    SetOutcome m n unixTime from_ s ((setUnixTime unixTime from_).runWith m.move n s).1
      ((setUnixTime unixTime from_).runWith m.move n s).2.2 :=
  Prog.rely_sound m.move (setUnixTime unixTime from_) n s (setUnixTime_rely m n unixTime from_ s)
    (Prog.along_of_forall (R := Moves m) (fun _ _ => rfl) _ _ _)

section

variable {m : Meanwhile} {n : Nat} {unixTime : Int} {from_ : Source} {s s' : SystemTime} {answer : Bool × Bool}
  (h : SetOutcome m n unixTime from_ s answer s')

include h

theorem SetOutcome.accepted_iff : answer.1 = true ↔ Accepts m n unixTime from_ s := by
  cases h with
  | refused not_accepted => simp [not_accepted]
  | repeated accepted => simp [accepted]
  | written accepted => simp [accepted]

/-- A set that is refused does not move the clock. -/
theorem SetOutcome.accepted_of_moved (hmoved : answer.2 = true) : answer.1 = true := by
  cases h with
  | refused => cases hmoved
  | repeated => rfl
  | written => rfl

/-- An accepted set leaves its own source, a refused one the source it found. -/
theorem SetOutcome.source_eq : s'.source = if answer.1 then from_ else s.source := by
  cases h with
  | refused _ drift => exact drift.source
  | repeated _ _ _ drift => exact drift.source
  | written _ _ _ _ _ drift => exact drift.source

theorem SetOutcome.source_ne_iff : s'.source ≠ s.source ↔ Accepts m n unixTime from_ s ∧ from_ ≠ s.source := by
  rw [h.source_eq, ← h.accepted_iff]
  split
  · rename_i haccepted
    simp [haccepted]
  · rename_i hrefused
    simp [hrefused]

end

/-- A re-seed offers what the DS1307 shows at its second step, if one answered at boot. -/
theorem reseedFromDs1307_runWith (m : Meanwhile) (s : SystemTime) :
    reseedFromDs1307.runWith m.move 0 s =
      if s.ds1307Present then
        (setUnixTime (m.move 1 (m.move 0 s)).ds1307Now .ds1307).runWith m.move 2 (m.move 1 (m.move 0 s))
      else ((false, false), 1, m.move 0 s) := by
  have hpresent : (m.move 0 s).ds1307Present = s.ds1307Present := rfl
  simp only [reseedFromDs1307, Prog.runWith_bind, Prog.runWith_get, hpresent]
  cases s.ds1307Present <;> simp

/-! ## A source means a plausible clock -/

/-- An RTC that answers and can be set. -/
structure Usable (s : SystemTime) : Prop where
  readable : s.rtc.readable = true
  writable : s.rtc.writable = true

/-- With a source behind it, the clock is past the oldest acceptable time. -/
def Vouched (s : SystemTime) : Prop := s.source ≠ .none → kOldestAcceptable ≤ s.rtc.second

theorem Usable.held {s : SystemTime} (h : Usable s) : s.held = s.rtc.second := by
  rw [SystemTime.held, if_pos h.readable]

theorem Usable.drift {s s' : SystemTime} (h : Usable s) (hd : Drift s s') : Usable s' :=
  ⟨hd.readable.trans h.readable, hd.writable.trans h.writable⟩

theorem Vouched.drift {s s' : SystemTime} (h : Vouched s) (hd : Drift s s') : Vouched s' := by
  intro hsource
  rw [hd.source] at hsource
  exact (h hsource).trans hd.second_le

theorem Usable.setTime {s : SystemTime} (h : Usable s) (seconds : Nat) :
    Usable { s with rtc := s.rtc.setTime seconds } ∧ (s.rtc.setTime seconds).second = seconds := by
  rw [Rtc.setTime, if_pos h.writable]
  refine ⟨⟨h.readable, h.writable⟩, ?_⟩
  simp only [Rtc.second, Rtc.fraction, kR64TicksPerSec]
  omega

theorem Usable.setClockAndEpoch {s : SystemTime} (h : Usable s) (unixTime : Int) (previous : Nat) :
    Usable (setClockAndEpoch unixTime previous s).2 ∧
      (Clock.setClockAndEpoch unixTime previous s).2.rtc.second = unixTime.toNat := by
  rw [Clock.setClockAndEpoch, if_pos h.writable]
  obtain ⟨hu, hsecond⟩ := h.setTime unixTime.toNat
  exact ⟨⟨hu.readable, hu.writable⟩, hsecond⟩

theorem Usable.promote {s : SystemTime} (h : Usable s) (hsecond : kOldestAcceptable ≤ s.rtc.second) (source : Source) :
    Usable { s with source := source } ∧ Vouched { s with source := source } :=
  ⟨⟨h.readable, h.writable⟩, fun _ => hsecond⟩

/-- Whatever becomes of a set, it does not lose the RTC, and a clock that has a source stays plausible. -/
theorem SetOutcome.vouched {m : Meanwhile} {n : Nat} {unixTime : Int} {from_ : Source} {s s' : SystemTime}
    {answer : Bool × Bool} (h : SetOutcome m n unixTime from_ s answer s') (hu : Usable s) (hv : Vouched s) :
    Usable s' ∧ Vouched s' := by
  cases h with
  | refused _ drift => exact ⟨hu.drift drift, hv.drift drift⟩
  | repeated accepted before held drift =>
    have hu₁ := hu.drift before
    have hp := isPlausible_iff.1 accepted.1
    rw [hu₁.held] at held
    obtain ⟨hu', hv'⟩ := hu₁.promote (by rw [kOldestAcceptable]; omega) from_
    exact ⟨hu'.drift drift, hv'.drift drift⟩
  | @written s₁ s₂ _ accepted before held between writable drift =>
    have hp := isPlausible_iff.1 accepted.1
    obtain ⟨hu₂, hsecond⟩ := ((hu.drift before).drift between).setClockAndEpoch unixTime s₁.held
    obtain ⟨hu', hv'⟩ := hu₂.promote (by rw [kOldestAcceptable, hsecond]; omega) from_
    exact ⟨hu'.drift drift, hv'.drift drift⟩

/-! ## The boot -/

theorem seedFromDs1307_usable {s : SystemTime} (h : Usable s) :
    Usable (seedFromDs1307 s).2 ∧ ((seedFromDs1307 s).1 = true → kOldestAcceptable ≤ (seedFromDs1307 s).2.rtc.second) ∧
      ((seedFromDs1307 s).1 = false → (seedFromDs1307 s).2 = s) ∧
      (seedFromDs1307 s).2.foundRunning = s.foundRunning := by
  unfold seedFromDs1307
  split
  · rename_i hp
    rw [Bool.and_eq_true] at hp
    have hlate := isPlausible_iff.1 hp.2
    obtain ⟨hu, hsecond⟩ := h.setTime s.ds1307Now
    refine ⟨hu, fun _ => ?_, fun hno => ?_, rfl⟩
    · show kOldestAcceptable ≤ (s.rtc.setTime s.ds1307Now).second
      rw [hsecond, kOldestAcceptable]
      omega
    · rw [h.writable] at hno
      cases hno
  · exact ⟨h, fun hyes => absurd hyes (by simp), fun _ => rfl, rfl⟩

theorem selectSource_vouched {s : SystemTime} (h : Usable s) {seeded : Bool}
    (hsecond : seeded = true ∨ s.foundRunning = true → kOldestAcceptable ≤ s.rtc.second) :
    Usable (selectSource seeded s) ∧ Vouched (selectSource seeded s) := by
  unfold selectSource
  split
  · rename_i hseeded
    exact h.promote (hsecond (Or.inl hseeded)) .ds1307
  split
  · rename_i hfound
    exact h.promote (hsecond (Or.inr hfound)) .survived
  · refine ⟨?_, fun hsource => absurd rfl hsource⟩
    have hrtc : (if s.rtc.running then s.rtc else s.rtc.setTime 0).readable = true ∧
        (if s.rtc.running then s.rtc else s.rtc.setTime 0).writable = true := by
      split
      · exact ⟨h.readable, h.writable⟩
      · exact ⟨(h.setTime 0).1.readable, (h.setTime 0).1.writable⟩
    exact ⟨hrtc.1, hrtc.2⟩

/-- `begin()` finds a source only with a plausible clock, whatever ticks or answers around its steps. -/
theorem begin_vouched (m : Meanwhile) {s : SystemTime} (h : Usable s) :
    Usable (begin.runWith m.move 0 s).2.2 ∧ Vouched (begin.runWith m.move 0 s).2.2 := by
  simp only [begin, Prog.runWith_bind, Prog.runWith_get, Prog.runWith_modify, Prog.runWith_act, Prog.runWith_pure,
    getUnixTime_runWith]
  -- what the second step reads is no later than the clock when the source is chosen
  have hu₁ : Usable (m.move 1 (m.move 0 s)) := h.drift (((Drift.refl s).move m 0).move m 1)
  generalize hfound : ((m.move 0 s).rtc.running && isPlausible (m.move 1 (m.move 0 s)).held) = found
  have hdrift := ((Drift.refl (m.move 1 (m.move 0 s))).move m 2)
  have hlate : found = true → kOldestAcceptable ≤ (m.move 2 (m.move 1 (m.move 0 s))).rtc.second := by
    intro hyes
    rw [← hfound, Bool.and_eq_true, hu₁.held] at hyes
    have hp := isPlausible_iff.1 hyes.2
    have hle := hdrift.second_le
    rw [kOldestAcceptable]
    omega
  have hu₂ := hu₁.drift hdrift
  generalize m.move 2 (m.move 1 (m.move 0 s)) = s₂ at hlate hu₂
  have hdrift₃ := (Drift.refl { s₂ with foundRunning := found }).move m 3
  have hu₃ := Usable.drift (s := { s₂ with foundRunning := found }) ⟨hu₂.readable, hu₂.writable⟩ hdrift₃
  have hlate₃ : found = true → kOldestAcceptable ≤ (m.move 3 { s₂ with foundRunning := found }).rtc.second :=
    fun hyes => (hlate hyes).trans hdrift₃.second_le
  have hfound₃ := hdrift₃.foundRunning
  generalize m.move 3 { s₂ with foundRunning := found } = s₃ at hu₃ hlate₃ hfound₃ ⊢
  obtain ⟨hu₄, hseeded, hkept, hfound₄⟩ := seedFromDs1307_usable hu₃
  have hdrift₅ := (Drift.refl (seedFromDs1307 s₃).2).move m 4
  have hsecond : (seedFromDs1307 s₃).1 = true ∨ (m.move 4 (seedFromDs1307 s₃).2).foundRunning = true →
      kOldestAcceptable ≤ (m.move 4 (seedFromDs1307 s₃).2).rtc.second := by
    intro hor
    refine le_trans ?_ hdrift₅.second_le
    cases hseed : (seedFromDs1307 s₃).1 with
    | true => exact hseeded hseed
    | false =>
      rw [hkept hseed]
      rw [hseed, hdrift₅.foundRunning, hfound₄, hfound₃] at hor
      exact hlate₃ (by simpa using hor)
  obtain ⟨hu₆, hv₆⟩ := selectSource_vouched (hu₄.drift hdrift₅) hsecond
  generalize selectSource (seedFromDs1307 s₃).1 (m.move 4 (seedFromDs1307 s₃).2) = s₄ at hu₆ hv₆ ⊢
  have hdrift₇ := (Drift.refl s₄).move m 5
  have hu₇ := hu₆.drift hdrift₇
  have hv₇ : Vouched (m.move 5 s₄) := hv₆.drift hdrift₇
  have hlatch : Usable (latchBootEpoch (m.move 5 s₄)) ∧ Vouched (latchBootEpoch (m.move 5 s₄)) :=
    ⟨⟨hu₇.readable, hu₇.writable⟩, hv₇⟩
  have hdrift₈ := (Drift.refl (latchBootEpoch (m.move 5 s₄))).move m 6
  exact ⟨hlatch.1.drift hdrift₈, hlatch.2.drift hdrift₈⟩

end BoredomOS.Clock
