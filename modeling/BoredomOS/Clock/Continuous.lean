/-
The elapsed time across clock sets, as `TaskMavlink` itself reads it: over any sequence of calls,
each with the RTC ticking between its steps, successive readings never go back and never run ahead
of the real time. The one thing a call can do to them is to read the previous second on one side of
a second boundary and update on the other: that loses the second from the epoch's correction.
-/
import BoredomOS.Clock.Reader

namespace BoredomOS.Clock

open Steps

/-- What `TaskMavlink` does with the clock, with `g k` ticks before the `k`-th step of each. -/
inductive Act
  | wait (ticks : Nat)
  | call (c : Call) (g : Nat → Nat)
  | read (g : Nat → Nat)

/-- One `sinceBootUsec()`: the elapsed ticks when it was called and when it returned, and the result. -/
structure Sample where
  called : Nat
  returned : Nat
  usec : Nat
  deriving DecidableEq, Repr

/-- The clock, and for the record the samples so far, newest first. -/
structure Session where
  clock : SystemTime
  samples : List Sample := []

def Session.step (s : Session) : Act → Session
  | .wait ticks => { s with clock := s.clock.wait ticks }
  | .call c g => { s with clock := c.made g s.clock }
  | .read g =>
    let o := sinceBootUsec.runWith (fun k => SystemTime.wait (g k)) 0 s.clock
    { clock := o.2.2, samples := ⟨s.clock.elapsed, o.2.2.elapsed, o.1⟩ :: s.samples }

def Session.run (s : Session) (acts : List Act) : Session := acts.foldl Session.step s

/-- No call of the run moves the clock across a second boundary. -/
def NeverCrosses (s : Session) (acts : List Act) : Prop :=
  ∀ acts₁ c g acts₂, acts = acts₁ ++ .call c g :: acts₂ → ¬ c.Crosses g (s.run acts₁).clock

/-- The later of two samples is not smaller, and exceeds the earlier by no more than the ticks from
the call of the one to the return of the other, in microseconds rounded up. -/
def Continuous (later earlier : Sample) : Prop :=
  earlier.usec ≤ later.usec ∧ later.usec ≤ earlier.usec +
    ((later.returned - earlier.called) * kUsecPerR64TickNum + kUsecPerR64TickDen - 1) / kUsecPerR64TickDen

/-- A sample that shows a tick within its call. -/
def Sample.Shows (x : Sample) : Prop := ∃ t, x.called ≤ t ∧ t ≤ x.returned ∧ x.usec = Clock.usec t

theorem continuous_of_shows {later earlier : Sample} (hl : later.Shows) (he : earlier.Shows)
    (h : earlier.returned ≤ later.called) : Continuous later earlier := by
  obtain ⟨t, hct, htr, ht⟩ := hl
  obtain ⟨t', hct', htr', ht'⟩ := he
  refine ⟨by rw [ht, ht']; exact usec_mono (by omega), ?_⟩
  rw [ht, ht']
  simp only [Clock.usec, kUsecPerR64TickNum, kUsecPerR64TickDen]
  omega

namespace Session

/-- The clock is sound, and every sample so far shows a tick of its call; they are past, in order. -/
structure InOrder (s : Session) : Prop where
  sound : Sound s.clock
  past : ∀ x ∈ s.samples, x.returned ≤ s.clock.elapsed
  shows : s.clock.elapsed ≤ epochBound → ∀ x ∈ s.samples, x.Shows
  ordered : s.samples.Pairwise fun later earlier => earlier.returned ≤ later.called

theorem InOrder.later {s : Session} (h : s.InOrder) {clock : SystemTime} (hs : Sound clock)
    (hle : s.clock.elapsed ≤ clock.elapsed) : InOrder { s with clock } :=
  ⟨hs, fun x hx => le_trans (h.past x hx) hle, fun hb => h.shows (le_trans hle hb), h.ordered⟩

theorem steady_ticking (g : Nat → Nat) : Steady (Ticking g) :=
  ⟨fun _ _ _ h hs => h ▸ ⟨hs.wait _, Nat.le_add_right _ _⟩, fun _ _ _ h => h ▸ rfl⟩

theorem inOrder_step {s : Session} (h : s.InOrder) {a : Act} (hc : ∀ c g, a = .call c g → ¬ c.Crosses g s.clock) :
    (s.step a).InOrder := by
  cases a with
  | wait ticks => exact h.later (h.sound.wait ticks) (Nat.le_add_right _ _)
  | call c g =>
    obtain ⟨hs, hle⟩ := call_sound c g h.sound (hc c g rfl)
    exact h.later hs hle
  | read g =>
    have halong : Prog.Along (Ticking g) (fun k => SystemTime.wait (g k)) sinceBootUsec 0 s.clock :=
      Prog.along_of_forall (fun _ _ => by exact rfl) _ _ _
    obtain ⟨hs, hle, ht⟩ := Prog.rely_sound _ _ 0 s.clock (sinceBootUsec_rely (steady_ticking g) h.sound) halong
    have h' := h.later hs hle
    refine ⟨hs, ?_, ?_, ?_⟩
    · intro x hx
      rcases List.mem_cons.1 hx with rfl | hx
      · exact le_refl _
      · exact h'.past x hx
    · intro hb x hx
      rcases List.mem_cons.1 hx with rfl | hx
      · exact ht hb
      · exact h'.shows hb x hx
    · exact List.pairwise_cons.2 ⟨fun x hx => h.past x hx, h.ordered⟩

theorem inOrder_run {acts : List Act} : ∀ {s : Session}, s.InOrder → NeverCrosses s acts → (s.run acts).InOrder := by
  induction acts with
  | nil => intro s h _; exact h
  | cons a acts ih =>
    intro s h hc
    refine ih (inOrder_step h fun c g ha => hc [] c g acts (by rw [ha]; rfl)) fun acts₁ c g acts₂ he => ?_
    exact hc (a :: acts₁) c g acts₂ (by rw [he]; rfl)

end Session

/-- In every run in which no clock-moving call meets a second boundary between its read of the
previous second and its update, the elapsed time is continuous across all the calls. -/
theorem elapsed_continuous (hw : SystemTime) (acts : List Act) (hrtc : hw.rtc.Answers)
    (hc : NeverCrosses { clock := (begin.run hw).2 } acts)
    (hbound : (Session.run { clock := (begin.run hw).2 } acts).clock.elapsed ≤ epochBound) :
    (Session.run { clock := (begin.run hw).2 } acts).samples.Pairwise Continuous := by
  have h₀ : Session.InOrder { clock := (begin.run hw).2 } :=
    ⟨begin_sound hrtc, by simp, by simp, List.Pairwise.nil⟩
  have h := Session.inOrder_run h₀ hc
  exact h.ordered.imp_of_mem fun hl he hle => continuous_of_shows (h.shows hbound _ hl) (h.shows hbound _ he) hle

/-- A set forward with a tick before each of its steps, between two readings. -/
def setBetween (g : Nat → Nat) : List Act :=
  [.read fun _ => 1, .call (.setUnixTime 1700001000 .ground) g, .read fun _ => 1]

theorem elapsed_continuous_ticking :
    (Session.run { clock := (begin.run seeded).2 } (setBetween fun _ => 1)).samples.Pairwise Continuous := by
  refine elapsed_continuous seeded _ seeded_answers ?_ (by decide)
  intro acts₁ c g acts₂ h
  rcases acts₁ with _ | ⟨a, _ | ⟨a', _ | ⟨a'', acts₁⟩⟩⟩ <;> simp [setBetween] at h
  obtain ⟨rfl, ⟨rfl, rfl⟩, rfl⟩ := h
  simp only [Call.Crosses, SetCrosses]
  decide

/-- The same set with the second boundary between its read and its update: the second reading is a
second behind the ticks, and smaller than the first. -/
theorem elapsed_goes_back :
    let s := Session.run { clock := (begin.run seeded).2 } (setBetween fun k => if k = 2 then 64 else 0)
    seeded.rtc.Answers ∧ s.samples = [⟨132, 136, 46875⟩, ⟨64, 68, 515625⟩] ∧ ¬ s.samples.Pairwise Continuous := by
  intro s
  have hs : s.samples = [⟨132, 136, 46875⟩, ⟨64, 68, 515625⟩] := by decide +kernel
  exact ⟨seeded_answers, hs, by simp [hs, Continuous]⟩

end BoredomOS.Clock
