/-
`setUnixTime` with nothing around it. It is refused and changes nothing, or the internal clock holds the
time behind it, and so does the DS1307 behind a time from the ground that brought anything new; what is
counted since the boot stays. A restart then seeds from that DS1307, if its own write of the RTC succeeds.
-/
import BoredomOS.Clock.Ladder

namespace BoredomOS.Clock

open Steps

/-- What `correctDs1307` leaves. -/
def SystemTime.corrected (s : SystemTime) (unixTime : Int) (wanted : Bool) : SystemTime :=
  if wanted && s.ds1307Present && (s.ds1307Now : Int) ≠ unixTime then s.adjust unixTime else s

@[simp] theorem correctDs1307_run (unixTime : Int) (wanted : Bool) (s : SystemTime) :
    (correctDs1307 unixTime wanted).run s = ((), s.corrected unixTime wanted) := by
  unfold SystemTime.corrected
  simp only [correctDs1307, Prog.run_bind, Prog.run_get, Prog.run_when, Prog.run_modify]
  exact (apply_ite (Prod.mk ()) _ _ _).symm

section

variable (s : SystemTime) (unixTime : Int) (wanted : Bool)

@[simp] theorem corrected_rtc : (s.corrected unixTime wanted).rtc = s.rtc := by
  unfold SystemTime.corrected
  split <;> rfl

@[simp] theorem corrected_bootEpoch : (s.corrected unixTime wanted).bootEpoch = s.bootEpoch := by
  unfold SystemTime.corrected
  split <;> rfl

@[simp] theorem corrected_source : (s.corrected unixTime wanted).source = s.source := by
  unfold SystemTime.corrected
  split <;> rfl

@[simp] theorem corrected_ds1307Present : (s.corrected unixTime wanted).ds1307Present = s.ds1307Present := by
  unfold SystemTime.corrected
  split <;> rfl

@[simp] theorem getUnixTime_run : getUnixTime.run s = (s.held, s) := by
  simp only [getUnixTime, readSeconds, Prog.run_bind, Prog.run_get, Prog.run_pure, SystemTime.held]
  split <;> rfl

end

/-- A correction that is wanted leaves the DS1307 on the second, by a write or because it was there. -/
theorem corrected_ds1307Now {s : SystemTime} {unixTime : Int} (hp : isPlausible unixTime = true)
    (hpresent : s.ds1307Present = true) : ((s.corrected unixTime true).ds1307Now : Int) = unixTime := by
  have hbounds := isPlausible_iff.1 hp
  unfold SystemTime.corrected
  rw [hpresent, Bool.true_and, Bool.true_and]
  split
  · unfold SystemTime.adjust SystemTime.ds1307Now kR64TicksPerSec
    dsimp only
    omega
  · rename_i hsame
    simpa using hsame

/-- The three ends of an undisturbed set: refused, the second already held, written. -/
theorem setUnixTime_run (s : SystemTime) (unixTime : Int) (from_ : Source) :
    (setUnixTime unixTime from_).run s = ((false, false), s) ∨
    (isPlausible unixTime = true ∧ (s.held : Int) = unixTime ∧ (setUnixTime unixTime from_).run s =
      ((true, false), { s with source := from_ }.corrected unixTime (from_ ≠ s.source && from_ ≠ Source.ds1307))) ∨
    (isPlausible unixTime = true ∧ (s.held : Int) ≠ unixTime ∧ s.rtc.writable = true ∧ (setUnixTime unixTime from_).run s =
      ((true, true), { (setClockAndEpoch unixTime s.held s).2.corrected unixTime (from_ ≠ Source.ds1307) with source := from_ })) := by
  unfold setUnixTime
  split
  · exact Or.inl rfl
  rename_i hp
  have hp : isPlausible unixTime = true := by simpa using hp
  rw [Prog.run_bind, Prog.run_get]
  dsimp only
  split
  · exact Or.inl rfl
  rw [Prog.run_bind, getUnixTime_run]
  dsimp only
  split
  · rename_i hheld
    refine Or.inr (Or.inl ⟨hp, hheld, ?_⟩)
    simp
  · rename_i hheld
    rw [Prog.run_bind, Prog.run_act]
    by_cases hwritable : s.rtc.writable = true
    · refine Or.inr (Or.inr ⟨hp, hheld, hwritable, ?_⟩)
      have hwritten : (setClockAndEpoch unixTime s.held s).1 = true := by rw [setClockAndEpoch, if_pos hwritable]
      rw [hwritten]
      simp
    · left
      rw [setClockAndEpoch, if_neg hwritable]
      rfl

/-- The clock write puts the time into the RTC and what was counted since the boot into the epoch. -/
theorem setClockAndEpoch_eq {s : SystemTime} {unixTime : Int} (hp : isPlausible unixTime = true) (hw : s.rtc.writable = true) :
    ((setClockAndEpoch unixTime s.held s).2.rtc.second : Int) = unixTime ∧
      (setClockAndEpoch unixTime s.held s).2.rtc.readable = s.rtc.readable ∧
      (setClockAndEpoch unixTime s.held s).2.ds1307Present = s.ds1307Present ∧
      ∀ sinceBoot : Nat, s.held = s.bootEpoch + sinceBoot → (sinceBoot : Int) < unixTime →
        unixTime = (setClockAndEpoch unixTime s.held s).2.bootEpoch + sinceBoot := by
  have hbounds := isPlausible_iff.1 hp
  rw [setClockAndEpoch, if_pos hw]
  refine ⟨?_, ?_, rfl, ?_⟩
  · simp only [Rtc.setTime, if_pos hw, Rtc.second, Rtc.fraction, kR64TicksPerSec]
    omega
  · simp only [Rtc.setTime, if_pos hw]
  · intro sinceBoot hheld hlt
    dsimp only
    omega

/-- A set is all or nothing, in every state. -/
structure AllOrNothing (unixTime : Int) (from_ : Source) (s : SystemTime) (accepted clockMoved : Bool) (s' : SystemTime) :
    Prop where
  refused : accepted = false → s' = s ∧ clockMoved = false
  source : accepted = true → s'.source = from_
  second : accepted = true → (s'.rtc.second : Int) = unixTime
  sinceBoot : accepted = true → s.rtc.readable = true → ∀ sinceBoot : Nat, s.held = s.bootEpoch + sinceBoot →
    (sinceBoot : Int) < unixTime → s'.held = s'.bootEpoch + sinceBoot
  moved : accepted = true → (clockMoved = true ↔ (s.held : Int) ≠ unixTime)
  ds1307 : accepted = true → s.ds1307Present = true → from_ = .ground → clockMoved = true ∨ s.source ≠ from_ →
    (s'.ds1307Now : Int) = unixTime

theorem setUnixTime_allOrNothing (s : SystemTime) (unixTime : Int) (from_ : Source) :
    AllOrNothing unixTime from_ s ((setUnixTime unixTime from_).run s).1.1 ((setUnixTime unixTime from_).run s).1.2
      ((setUnixTime unixTime from_).run s).2 := by
  rcases setUnixTime_run s unixTime from_ with hrun | ⟨hp, hheld, hrun⟩ | ⟨hp, hheld, hw, hrun⟩
  · rw [hrun]
    exact ⟨fun _ => ⟨rfl, rfl⟩, by simp, by simp, by simp, by simp, by simp⟩
  · -- the second is already held, so the RTC answered
    have hbounds := isPlausible_iff.1 hp
    have hreadable : s.rtc.readable = true := by
      by_contra hsilent
      rw [SystemTime.held, if_neg hsilent] at hheld
      omega
    have hsecond : s.held = s.rtc.second := by rw [SystemTime.held, if_pos hreadable]
    rw [hrun]
    refine ⟨by simp, fun _ => by simp, fun _ => ?_, fun _ _ sinceBoot hsince _ => ?_, fun _ => by simp [hheld], ?_⟩
    · simpa [hsecond] using hheld
    · simpa [SystemTime.held] using hsince
    · rintro - hpresent rfl (hmoved | hpromoted)
      · cases hmoved
      · have hwanted : (decide (Source.ground ≠ s.source) && decide (Source.ground ≠ Source.ds1307)) = true := by
          simp [Ne.symm hpromoted]
        rw [hwanted]
        exact corrected_ds1307Now hp hpresent
  · obtain ⟨hsecond, hreads, hpresent', hepoch⟩ := setClockAndEpoch_eq hp hw
    rw [hrun]
    generalize (setClockAndEpoch unixTime s.held s).2 = written at hsecond hreads hpresent' hepoch ⊢
    refine ⟨by simp, fun _ => rfl, fun _ => by simpa using hsecond, fun _ hreadable sinceBoot hsince hlt => ?_,
      fun _ => by simp [hheld], ?_⟩
    · have hsum := hepoch sinceBoot hsince hlt
      have hholds : { written.corrected unixTime (from_ ≠ Source.ds1307) with source := from_ }.held = written.rtc.second := by
        simp [SystemTime.held, hreads, hreadable]
      dsimp only at hholds ⊢
      rw [hholds, corrected_bootEpoch]
      omega
    · rintro - hpresent rfl -
      exact corrected_ds1307Now hp (hpresent'.trans hpresent)

/-- Only a plausible time is accepted, and the DS1307 stays where it is. -/
theorem setUnixTime_frame (s : SystemTime) (unixTime : Int) (from_ : Source) :
    (((setUnixTime unixTime from_).run s).1.1 = true → isPlausible unixTime = true) ∧
      ((setUnixTime unixTime from_).run s).2.ds1307Present = s.ds1307Present := by
  rcases setUnixTime_run s unixTime from_ with hrun | ⟨hp, -, hrun⟩ | ⟨hp, -, hw, hrun⟩
  · rw [hrun]
    exact ⟨by simp, rfl⟩
  · rw [hrun]
    exact ⟨fun _ => hp, by simp⟩
  · rw [hrun]
    refine ⟨fun _ => hp, ?_⟩
    rw [← (setClockAndEpoch_eq hp hw).2.2.1]
    exact corrected_ds1307Present _ _ _

/-! ## The restart behind it -/

/-- A boot that can write the RTC takes the time of a DS1307 that answers. -/
theorem begin_seeded {s : SystemTime} (hpresent : s.ds1307Present = true) (hp : isPlausible s.ds1307Now = true)
    (hw : s.rtc.writable = true) : (begin.run s).2.source = .ds1307 ∧ (begin.run s).2.rtc.second = s.ds1307Now := by
  have hseed : ∀ found, seedFromDs1307 { s with foundRunning := found } =
      (true, { s with foundRunning := found, rtc := s.rtc.setTime s.ds1307Now }) := by
    intro found
    unfold seedFromDs1307
    have hpass : ({ s with foundRunning := found }.ds1307Present && isPlausible { s with foundRunning := found }.ds1307Now) =
        true := by
      show (s.ds1307Present && isPlausible s.ds1307Now) = true
      rw [hpresent, hp]
      rfl
    rw [if_pos hpass]
    show (s.rtc.writable, _) = _
    rw [hw]
    rfl
  have hrun : (begin.run s).2 = latchBootEpoch { s with
      foundRunning := s.rtc.running && isPlausible s.held, rtc := s.rtc.setTime s.ds1307Now, source := .ds1307 } := by
    simp only [begin, Prog.run_bind, Prog.run_get, Prog.run_modify, Prog.run_act, Prog.run_pure, getUnixTime_run, hseed]
    rfl
  rw [hrun]
  constructor
  · rfl
  · show (s.rtc.setTime s.ds1307Now).second = s.ds1307Now
    rw [Rtc.setTime, if_pos hw]
    simp only [Rtc.second, Rtc.fraction, kR64TicksPerSec]
    omega

/-- A boot that cannot write it leaves it as it was. -/
theorem begin_rtc {s : SystemTime} (hw : ¬ s.rtc.writable = true) : (begin.run s).2.rtc = s.rtc := by
  have hset : ∀ seconds, s.rtc.setTime seconds = s.rtc := fun seconds => by rw [Rtc.setTime, if_neg hw]
  have hseed : ∀ found, ∃ seeded, seedFromDs1307 { s with foundRunning := found } = (seeded, { s with foundRunning := found }) := by
    intro found
    unfold seedFromDs1307
    split
    · refine ⟨s.rtc.writable, ?_⟩
      show (s.rtc.writable, { s with foundRunning := found, rtc := s.rtc.setTime _ }) = _
      rw [hset]
    · exact ⟨false, rfl⟩
  obtain ⟨seeded, hseeded⟩ := hseed (s.rtc.running && isPlausible s.held)
  simp only [begin, Prog.run_bind, Prog.run_get, Prog.run_modify, Prog.run_act, Prog.run_pure, getUnixTime_run, hseeded]
  show (selectSource seeded { s with foundRunning := s.rtc.running && isPlausible s.held }).rtc = s.rtc
  unfold selectSource
  split
  · rfl
  split
  · rfl
  · show (if s.rtc.running then s.rtc else s.rtc.setTime 0) = s.rtc
    rw [hset, ite_self]

/-- Every undisturbed set, in every state: it is all or nothing; and a restart behind a time from the ground
that moved the clock or the source, with a DS1307 present, begins with that time, and from the DS1307 if
the restart can write the RTC, whatever the RTC kept. -/
theorem setUnixTime_reaches_both (s : SystemTime) (unixTime : Int) (from_ : Source) :
    let o := (setUnixTime unixTime from_).run s
    AllOrNothing unixTime from_ s o.1.1 o.1.2 o.2 ∧
      (o.1.1 = true → s.ds1307Present = true → from_ = .ground → o.1.2 = true ∨ s.source ≠ from_ →
        ((begin.run o.2).2.rtc.second : Int) = unixTime ∧
          ∀ kept : Rtc, kept.writable = true → (begin.run { o.2 with rtc := kept }).2.source = .ds1307 ∧
            ((begin.run { o.2 with rtc := kept }).2.rtc.second : Int) = unixTime) := by
  intro o
  have hall : AllOrNothing unixTime from_ s o.1.1 o.1.2 o.2 := setUnixTime_allOrNothing s unixTime from_
  refine ⟨hall, fun haccepted hpresent hground hnew => ?_⟩
  have hds1307 := hall.ds1307 haccepted hpresent hground hnew
  obtain ⟨hp, hkept⟩ := setUnixTime_frame s unixTime from_
  have hpresent' : o.2.ds1307Present = true := hkept.trans hpresent
  have hseeded : ∀ kept : Rtc, kept.writable = true → (begin.run { o.2 with rtc := kept }).2.source = .ds1307 ∧
      ((begin.run { o.2 with rtc := kept }).2.rtc.second : Int) = unixTime := by
    intro kept hkept
    obtain ⟨hsource, hsecond⟩ := begin_seeded (s := { o.2 with rtc := kept }) hpresent' (by
      show isPlausible (o.2.ds1307Now : Int) = true
      rw [hds1307]
      exact hp haccepted) hkept
    refine ⟨hsource, ?_⟩
    rw [hsecond]
    exact hds1307
  refine ⟨?_, hseeded⟩
  by_cases hw : o.2.rtc.writable = true
  · exact (hseeded o.2.rtc hw).2
  · rw [begin_rtc hw]
    exact hall.second haccepted

/-- A board without a source whose RTC shows the second the ground sends, and cannot be written. -/
def unwritable : SystemTime where
  rtc := { ticks := 1700000000 * 128, running := true, readable := true, writable := false }
  ds1307 := 0
  ds1307Present := true

/-- The time is accepted and reaches the DS1307, and the restart behind it begins from the surviving RTC. -/
theorem unwritable_survives :
    let o := (setUnixTime 1700000000 .ground).run unwritable
    o.1.1 = true ∧ unwritable.source ≠ .ground ∧ o.2.ds1307Now = 1700000000 ∧ (begin.run o.2).2.source = .survived := by
  decide +kernel

end BoredomOS.Clock
