/-
When a call of `TaskMavlink` makes the wall clock jump: a step of it writes the internal RTC, or the
source behind it is another one. That is one thing, the acceptance of a time is a second and what the
callers are told a third; an offered time that is accepted jumps unless it repeats what the clock holds,
and nothing else does.
-/
import BoredomOS.Clock.Ladder

namespace BoredomOS.Clock

open Steps

/-! ## A write of the RTC -/

/-- A step that can change the internal RTC. -/
def SetsRtc (f : SystemTime → SystemTime) : Prop := ∃ s, (f s).rtc ≠ s.rtc

/-- From `s` and step `n`, the call sets the internal RTC while that lets itself be set. -/
def WritesRtc {α : Type} (call : Prog SystemTime α) (m : Meanwhile) (n : Nat) (s : SystemTime) : Prop :=
  call.occurs SetsRtc (fun s => s.rtc.writable = true) m.move n s

theorem not_setsRtc {f : SystemTime → SystemTime} (h : ∀ s, (f s).rtc = s.rtc) : ¬ SetsRtc f := by
  rintro ⟨s, hs⟩
  exact hs (h s)

/-- A stopped RTC runs behind a set. -/
theorem setsRtc_setClockAndEpoch (unixTime : Int) (previous : Nat) :
    SetsRtc fun s => (setClockAndEpoch unixTime previous s).2 := by
  refine ⟨{ rtc := { ticks := 0, running := false, readable := true, writable := true }, ds1307 := 0
            ds1307Present := false }, fun h => ?_⟩
  have hrunning := congrArg Rtc.running h
  cases hrunning

theorem not_writesRtc_correctDs1307 (unixTime : Int) (wanted : Bool) (m : Meanwhile) (n : Nat) (s : SystemTime) :
    ¬ WritesRtc (correctDs1307 unixTime wanted) m n s := by
  have hget := @not_setsRtc (fun s => s) fun _ => rfl
  have hadjust := @not_setsRtc (SystemTime.adjust unixTime) fun _ => rfl
  simp only [WritesRtc, correctDs1307, Prog.occurs_bind, Prog.occurs_get, Prog.occurs_when, Prog.occurs_modify, hget, hadjust,
    false_and, and_false, or_self, not_false_eq_true]

theorem not_writesRtc_getUnixTime (m : Meanwhile) (n : Nat) (s : SystemTime) : ¬ WritesRtc getUnixTime m n s := by
  have hget := @not_setsRtc (fun s => s) fun _ => rfl
  simp only [WritesRtc, getUnixTime, readSeconds, Prog.occurs_bind, Prog.occurs_get, Prog.occurs_pure, hget, false_and, or_self,
    not_false_eq_true]

/-- A set writes the RTC when it accepts a time other than the second it reads, and then says so. -/
theorem setUnixTime_writes (m : Meanwhile) (n : Nat) (unixTime : Int) (from_ : Source) (s : SystemTime) :
    (WritesRtc (setUnixTime unixTime from_) m n s ↔ Accepts m n unixTime from_ s ∧
        ((m.move (n + 1) (m.move n s)).held : Int) ≠ unixTime) ∧
      (((setUnixTime unixTime from_).runWith m.move n s).1.2 = true ↔ Accepts m n unixTime from_ s ∧
        ((m.move (n + 1) (m.move n s)).held : Int) ≠ unixTime) := by
  have hget := @not_setsRtc (fun s => s) fun _ => rfl
  have hsource := @not_setsRtc (fun s => { s with source := from_ }) fun _ => rfl
  have hread := not_writesRtc_getUnixTime m
  have hcorrect := not_writesRtc_correctDs1307 unixTime
  unfold WritesRtc at hread hcorrect ⊢
  unfold setUnixTime
  by_cases hp : isPlausible unixTime = true
  swap
  · -- implausible: refused before anything is read
    have hrefused : ¬ Accepts m n unixTime from_ s := fun h => hp h.1
    simp [hp, hrefused]
  rw [if_neg (by simp [hp]), Prog.occurs_bind, Prog.runWith_bind, Prog.occurs_get, Prog.runWith_get]
  simp only [hget, false_and, false_or]
  by_cases hdemotion : (m.move n s).source.rank < from_.rank
  · have hrefused : ¬ Accepts m n unixTime from_ s := fun h => absurd h.2.1 (Nat.not_le.2 hdemotion)
    simp [hdemotion, hrefused]
  have hrank : from_.rank ≤ s.source.rank := Nat.not_lt.1 hdemotion
  rw [if_neg hdemotion, Prog.occurs_bind, Prog.runWith_bind, getUnixTime_runWith]
  simp only [hread, false_or]
  by_cases heq : ((m.move (n + 1) (m.move n s)).held : Int) = unixTime
  · -- the same second: the source and the DS1307 may change, the RTC does not
    simp [heq, hsource, hcorrect]
  have hdrift : Drift s (m.move (n + 2) (m.move (n + 1) (m.move n s))) :=
    (((Drift.refl s).move m n).move m (n + 1)).move m (n + 2)
  have haccepts : Accepts m n unixTime from_ s ↔ (m.move (n + 2) (m.move (n + 1) (m.move n s))).rtc.writable = true := by
    rw [hdrift.writable]
    exact ⟨fun h => h.2.2.resolve_left heq, fun h => ⟨hp, hrank, Or.inr h⟩⟩
  rw [haccepts]
  -- another second: the write is the act itself, and it succeeds exactly if the RTC can be set
  rw [if_neg heq, Prog.occurs_bind, Prog.runWith_bind, Prog.occurs_act, Prog.runWith_act]
  simp only [setsRtc_setClockAndEpoch, true_and]
  by_cases hw : (m.move (n + 2) (m.move (n + 1) (m.move n s))).rtc.writable = true
  · simp [setClockAndEpoch, hw, heq]
  · simp [setClockAndEpoch, hw]

theorem writesRtc_reseedFromDs1307 (m : Meanwhile) (s : SystemTime) : WritesRtc reseedFromDs1307 m 0 s ↔
    s.ds1307Present = true ∧
      WritesRtc (setUnixTime (m.move 1 (m.move 0 s)).ds1307Now .ds1307) m 2 (m.move 1 (m.move 0 s)) := by
  have hget := @not_setsRtc (fun s => s) fun _ => rfl
  have hpresent : (m.move 0 s).ds1307Present = s.ds1307Present := rfl
  unfold WritesRtc reseedFromDs1307
  rw [Prog.occurs_bind, Prog.occurs_get, Prog.runWith_get]
  simp only [hget, false_and, false_or, hpresent]
  cases s.ds1307Present with
  | false => simp
  | true => simp [hget]

theorem not_writesRtc_pushToDs1307 (m : Meanwhile) (s : SystemTime) : ¬ WritesRtc pushToDs1307 m 0 s := by
  have hget := @not_setsRtc (fun s => s) fun _ => rfl
  have hadjust := fun unixTime => @not_setsRtc (SystemTime.adjust unixTime) fun _ => rfl
  have hread := not_writesRtc_getUnixTime m
  unfold WritesRtc at hread ⊢
  unfold pushToDs1307
  rw [Prog.occurs_bind, Prog.occurs_get, Prog.runWith_get]
  simp only [hget, false_and, false_or]
  split
  · exact id
  rw [Prog.occurs_bind, getUnixTime_runWith]
  simp only [hread, false_or]
  split
  · exact id
  rw [Prog.occurs_bind, Prog.occurs_get, Prog.runWith_get]
  simp only [hget, false_and, false_or]
  split
  · exact id
  · simp [hadjust]

/-! ## Events -/

/-- Whether the call was taken, and whether the caller is told that the clock moved. -/
def Call.answer : Call → Prog SystemTime (Bool × Bool)
  | .setUnixTime unixTime from_ => Clock.setUnixTime unixTime from_
  | .reseedFromDs1307 => Clock.reseedFromDs1307
  | .pushToDs1307 => do
    let pushed ← Clock.pushToDs1307
    return (pushed, false)

/-- A call, with what happens around its steps and the clock it finds. -/
structure Event where
  call : Call
  meanwhile : Meanwhile
  before : SystemTime

/-- A time put to the ladder, with the steps made until then and the clock they left. -/
structure Offer where
  steps : Nat
  unixTime : Int
  from_ : Source
  found : SystemTime

namespace Event

variable (x : Event)

def answered : Bool × Bool := (x.call.answer.runWith x.meanwhile.move 0 x.before).1

def after : SystemTime := (x.call.answer.runWith x.meanwhile.move 0 x.before).2.2

/-- The internal RTC was written or the source changed. -/
def Jumps : Prop := WritesRtc x.call.answer x.meanwhile 0 x.before ∨ x.after.source ≠ x.before.source

/-- A push offers none, and neither does a re-seed without a DS1307. -/
def offer : Option Offer :=
  match x.call with
  | .setUnixTime unixTime from_ => some { steps := 0, unixTime, from_, found := x.before }
  | .reseedFromDs1307 =>
    let found := x.meanwhile.move 1 (x.meanwhile.move 0 x.before)
    if x.before.ds1307Present then some { steps := 2, unixTime := found.ds1307Now, from_ := .ds1307, found } else none
  | .pushToDs1307 => none

/-- The offered time is the second read from the clock, and its source is the one the clock has. -/
def Repeats (o : Offer) : Prop :=
  ((x.meanwhile.move (o.steps + 1) (x.meanwhile.move o.steps o.found)).held : Int) = o.unixTime ∧ o.from_ = x.before.source

def Takes (o : Offer) : Prop := Accepts x.meanwhile o.steps o.unixTime o.from_ o.found

end Event

namespace Event

/-- An event without an offer leaves the RTC and the source. -/
structure Idle (x : Event) : Prop where
  unwritten : ¬ WritesRtc x.call.answer x.meanwhile 0 x.before
  unmoved : x.answered.2 = false
  source : x.after.source = x.before.source

/-- An event with an offer is the set of it. -/
structure SetsOffer (x : Event) (o : Offer) : Prop where
  writes : WritesRtc x.call.answer x.meanwhile 0 x.before ↔
    WritesRtc (setUnixTime o.unixTime o.from_) x.meanwhile o.steps o.found
  runs : x.call.answer.runWith x.meanwhile.move 0 x.before =
    (setUnixTime o.unixTime o.from_).runWith x.meanwhile.move o.steps o.found
  source : o.found.source = x.before.source

theorem offer_spec (x : Event) : x.offer = none ∧ x.Idle ∨ ∃ o, x.offer = some o ∧ x.SetsOffer o := by
  obtain ⟨call, m, s⟩ := x
  cases call with
  | setUnixTime unixTime from_ => exact Or.inr ⟨_, rfl, Iff.rfl, rfl, rfl⟩
  | pushToDs1307 =>
    have hdrift := drift_runWith keeps_drift_pushToDs1307 m 0 s
    refine Or.inl ⟨rfl, ?_, ?_, ?_⟩
    · intro h
      rcases (Prog.occurs_bind ..).1 h with hpush | hpure
      · exact not_writesRtc_pushToDs1307 m s hpush
      · exact hpure
    · simp [answered, Call.answer]
    · simpa [after, Call.answer] using hdrift.source
  | reseedFromDs1307 =>
    have hdrift : Drift s (m.move 1 (m.move 0 s)) := ((Drift.refl s).move m 0).move m 1
    by_cases hpresent : s.ds1307Present = true
    · refine Or.inr ⟨{ steps := 2, from_ := .ds1307, .. }, if_pos hpresent, ?_, ?_, hdrift.source⟩
      · exact (writesRtc_reseedFromDs1307 m s).trans (and_iff_right hpresent)
      · exact (reseedFromDs1307_runWith m s).trans (if_pos hpresent)
    · have hrun : reseedFromDs1307.runWith m.move 0 s = ((false, false), 1, m.move 0 s) :=
        (reseedFromDs1307_runWith m s).trans (if_neg hpresent)
      refine Or.inl ⟨if_neg hpresent, fun h => hpresent ((writesRtc_reseedFromDs1307 m s).1 h).1, ?_, ?_⟩
      · exact congrArg (fun o => o.1.2) hrun
      · exact congrArg (fun o => o.2.2.source) hrun

theorem jumps_iff (x : Event) : x.Jumps ↔ ∃ o ∈ x.offer, x.Takes o ∧ ¬ x.Repeats o := by
  unfold Jumps
  rcases x.offer_spec with ⟨hoffer, hidle⟩ | ⟨o, hoffer, hset⟩
  · simp [hoffer, hidle.unwritten, hidle.source]
  · have hsource := (setUnixTime_cases x.meanwhile o.steps o.unixTime o.from_ o.found).source_ne_iff
    rw [← hset.runs, hset.source] at hsource
    rw [hset.writes, (setUnixTime_writes x.meanwhile o.steps o.unixTime o.from_ o.found).1, show x.after.source ≠ _ ↔ _ from hsource]
    simp only [hoffer, Option.mem_some_iff, exists_eq_left', Takes, Repeats]
    tauto

/-- What the callers ask before they log. -/
theorem jumps_iff_answered (x : Event) :
    x.Jumps ↔ x.answered.2 = true ∨ x.answered.1 = true ∧ x.after.source ≠ x.before.source := by
  unfold Jumps
  rcases x.offer_spec with ⟨hoffer, hidle⟩ | ⟨o, hoffer, hset⟩
  · simp [hidle.unwritten, hidle.unmoved, hidle.source]
  · have hcases := setUnixTime_cases x.meanwhile o.steps o.unixTime o.from_ o.found
    obtain ⟨hwrites, hmoved⟩ := setUnixTime_writes x.meanwhile o.steps o.unixTime o.from_ o.found
    have haccepted := hcases.accepted_iff
    have hsource := hcases.source_ne_iff
    rw [← hset.runs] at hmoved haccepted hsource
    rw [hset.source] at hsource
    rw [hset.writes, hwrites, ← hmoved, show x.answered.1 = true ↔ _ from haccepted,
      show x.after.source ≠ _ ↔ _ from hsource]
    show x.answered.2 = true ∨ _ ↔ _
    tauto

/-- A call that is not taken does not move the clock. -/
theorem answered_of_moved (x : Event) (h : x.answered.2 = true) : x.answered.1 = true := by
  rcases x.offer_spec with ⟨-, hidle⟩ | ⟨o, -, hset⟩
  · rw [hidle.unmoved] at h
    cases h
  · have hcases := setUnixTime_cases x.meanwhile o.steps o.unixTime o.from_ o.found
    rw [← hset.runs] at hcases
    exact hcases.accepted_of_moved h

theorem answered_of_jumps (x : Event) (h : x.Jumps) : x.answered.1 = true := by
  rcases x.jumps_iff_answered.1 h with hmoved | ⟨haccepted, -⟩
  · exact x.answered_of_moved hmoved
  · exact haccepted

instance (x : Event) : Decidable x.Jumps := decidable_of_iff _ x.jumps_iff_answered.symm

end Event

end BoredomOS.Clock
