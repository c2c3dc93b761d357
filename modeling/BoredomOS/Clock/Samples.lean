/-
A sub-second reading is not torn. The second and the fraction are read apart, and any time may pass
between two reads: the two reads of the second that agree enclose the fraction in that second, and four
attempts that failed have seen the second move, so that the whole second behind them is not before the call.
-/
import BoredomOS.Clock.Elapsed

namespace BoredomOS.Clock

open Steps

/-- The clock answers as it did, and did not go back. -/
def Forward (s s' : SystemTime) : Prop := s'.rtc.readable = s.rtc.readable ∧ s.rtc.ticks ≤ s'.rtc.ticks

/-- What time passing leaves of the internal clock. -/
theorem forward_wait (s : SystemTime) (n : Nat) : Forward s (s.wait n) := by
  unfold Forward SystemTime.wait
  cases s.rtc.running with
  | false => exact ⟨rfl, Nat.le_refl _⟩
  | true => exact ⟨rfl, Nat.le_add_right _ _⟩

/-- Successive calls, as the hammering loop of the test makes them. -/
def samples : Nat → Prog SystemTime (List Nat)
  | 0 => return []
  | calls + 1 => do
    let sample ← getUnixTimeUsec
    let rest ← samples calls
    return sample :: rest

theorem Forward.readable {s s' : SystemTime} (h : Forward s s') (hs : s.rtc.readable = true) : s'.rtc.readable = true :=
  h.1.trans hs

theorem Forward.second {s s' : SystemTime} (h : Forward s s') : s.rtc.second ≤ s'.rtc.second := Nat.div_le_div_right h.2

/-- A whole second is no later than any tick of it. -/
theorem second_usec_le (r : Rtc) : r.second * usecPerSec ≤ usec r.ticks := by
  rw [usec_split]
  exact Nat.le_add_right _ _

/-- A second later than that of a tick is later than the tick. -/
theorem usec_le_of_second_lt {e : Nat} {r : Rtc} (h : e / 128 < r.second) : usec e ≤ r.second * usecPerSec := by
  have hfraction : e % 128 * kUsecPerR64TickNum / kUsecPerR64TickDen ≤ usecPerSec := by
    simp only [usecPerSec, kUsecPerR64TickNum, kUsecPerR64TickDen]
    omega
  calc usec e = e / 128 * usecPerSec + e % 128 * kUsecPerR64TickNum / kUsecPerR64TickDen := usec_split e
    _ ≤ (e / 128 + 1) * usecPerSec := by
      rw [Nat.add_mul, Nat.one_mul]
      exact Nat.add_le_add_left hfraction _
    _ ≤ r.second * usecPerSec := Nat.mul_le_mul_right _ h

section

variable {i : Nat → SystemTime → SystemTime}

/-- What `i` does before the `n`-th read. -/
def Moved (i : Nat → SystemTime → SystemTime) (n : Nat) (s s' : SystemTime) : Prop := s' = i n s

theorem readSeconds_moved (hi : ∀ n s, Forward s (i n s)) {Q : Option Nat → Nat → SystemTime → Prop} {n : Nat} {s : SystemTime}
    (hreadable : s.rtc.readable = true) (hQ : Q (some (i n s).rtc.second) (n + 1) (i n s)) :
    Prog.rely (Moved i) readSeconds Q n s := by
  simp only [readSeconds, Prog.rely_get, Moved, forall_eq]
  rw [if_pos ((hi n s).readable hreadable)]
  exact hQ

/-- The attempts left, when the next read comes no earlier than `e` and, after an attempt that failed, in a
later second. -/
theorem getUnixTimeUsecIn_between (hi : ∀ n s, Forward s (i n s)) (e : Nat) : ∀ (attempts n : Nat) (s : SystemTime),
    s.rtc.readable = true → e ≤ (i n s).rtc.ticks → (attempts < 4 → e / 128 < (i n s).rtc.second) →
      Prog.rely (Moved i) (getUnixTimeUsecIn attempts) (fun r _ s' => s'.rtc.readable = true ∧
        (i n s).rtc.ticks ≤ s'.rtc.ticks ∧ usec e ≤ r ∧ r ≤ usec s'.rtc.ticks) n s
  | 0, n, s, hreadable, he, hfailed => by
    simp only [getUnixTimeUsecIn, getUnixTime, Prog.rely_bind, Prog.rely_pure]
    apply readSeconds_moved hi hreadable
    exact ⟨(hi n s).readable hreadable, Nat.le_refl _, usec_le_of_second_lt (hfailed (by omega)), second_usec_le _⟩
  | attempts + 1, n, s, hreadable, he, hfailed => by
    simp only [getUnixTimeUsecIn, Prog.rely_bind]
    apply readSeconds_moved hi hreadable
    have h₁ := (hi n s).readable hreadable
    generalize i n s = s₁ at h₁ he hfailed ⊢
    simp only [Prog.rely_bind, Prog.rely_get, Moved, forall_eq]
    have h₂ := hi (n + 1) s₁
    generalize i (n + 1) s₁ = s₂ at h₂ ⊢
    apply readSeconds_moved hi (h₂.readable h₁)
    have h₃ := hi (n + 1 + 1) s₂
    generalize i (n + 1 + 1) s₂ = s₃ at h₃ ⊢
    have hreadable₃ := h₃.readable (h₂.readable h₁)
    dsimp only
    split
    · -- the fraction was read between two reads of one second, so it belongs to that second
      rename_i hagree
      have hsecond : s₁.rtc.second = s₂.rtc.second := Nat.le_antisymm h₂.second (h₃.second.trans hagree.ge)
      have hr : s₁.rtc.second * usecPerSec + s₂.rtc.fraction * kUsecPerR64TickNum / kUsecPerR64TickDen = usec s₂.rtc.ticks := by
        rw [hsecond, usec_split]
        rfl
      rw [hr]
      exact ⟨hreadable₃, h₂.2.trans h₃.2, usec_mono (he.trans h₂.2), usec_mono h₃.2⟩
    · rename_i hmoved
      have hlater : s₁.rtc.second < s₃.rtc.second := lt_of_le_of_ne (h₂.second.trans h₃.second) hmoved
      have hfirst : e / 128 ≤ s₁.rtc.second := Nat.div_le_div_right he
      have h₄ := hi (n + 1 + 1 + 1) s₃
      refine Prog.rely_mono ?_ _ _ _ (getUnixTimeUsecIn_between hi e attempts _ s₃ hreadable₃ ?_ fun _ => ?_)
      · rintro r _ s' ⟨hread, hle, hbetween⟩
        exact ⟨hread, (h₂.2.trans h₃.2).trans (h₄.2.trans hle), hbetween⟩
      · exact (he.trans h₂.2).trans (h₃.2.trans h₄.2)
      · exact (hfirst.trans_lt hlater).trans_le h₄.second

/-- Each of the calls begins no earlier than the one before it ended. -/
theorem samples_between (hi : ∀ n s, Forward s (i n s)) : ∀ (calls n : Nat) (s : SystemTime), s.rtc.readable = true →
    Prog.rely (Moved i) (samples calls) (fun rs _ _ => rs.Pairwise (· ≤ ·) ∧ ∀ r ∈ rs, usec s.rtc.ticks ≤ r) n s
  | 0, _, _, _ => ⟨List.Pairwise.nil, by simp⟩
  | calls + 1, n, s, hreadable => by
    simp only [samples, Prog.rely_bind]
    refine Prog.rely_mono ?_ _ _ _ (getUnixTimeUsecIn_between hi s.rtc.ticks 4 n s hreadable (hi n s).2 fun h => absurd h (by omega))
    rintro r n' s' ⟨hreadable', hle, hr, hr'⟩
    simp only [Prog.rely_pure]
    refine Prog.rely_mono ?_ _ _ _ (samples_between hi calls n' s' hreadable')
    rintro rs _ _ ⟨hsorted, hrs⟩
    refine ⟨List.pairwise_cons.2 ⟨fun x hx => hr'.trans (hrs x hx), hsorted⟩, ?_⟩
    rintro x (_ | ⟨_, hx⟩)
    · exact hr
    · exact (usec_mono ((hi n s).2.trans hle)).trans (hrs x hx)

end

/-- Whatever time passes before each read, and whichever attempt succeeds: a reading lies between the clock
at the call's first read and at its last, and successive readings do not decrease. -/
theorem reading_never_torn (i : Nat → SystemTime → SystemTime) (hi : ∀ n s, Forward s (i n s)) (s : SystemTime)
    (hreadable : s.rtc.readable = true) (n calls : Nat) :
    let r := getUnixTimeUsec.runWith i n s
    (usec (i n s).rtc.ticks ≤ r.1 ∧ r.1 ≤ usec r.2.2.rtc.ticks) ∧ ((samples calls).runWith i n s).1.Pairwise (· ≤ ·) := by
  have halong : ∀ {α : Type} (m : Prog SystemTime α), Prog.Along (Moved i) i m n s :=
    fun m => Prog.along_of_forall (R := Moved i) (fun _ _ => rfl) m n s
  obtain ⟨-, -, hbetween⟩ := Prog.rely_sound i _ n s
    (getUnixTimeUsecIn_between hi (i n s).rtc.ticks 4 n s hreadable (Nat.le_refl _) fun h => absurd h (by omega)) (halong _)
  exact ⟨hbetween, (Prog.rely_sound i _ n s (samples_between hi calls n s hreadable) (halong _)).1⟩

/-- A second passes inside each of the four attempts, three ticks before the first: thirteen reads, and the whole second. -/
theorem reading_never_torn_fallback :
    let i : Nat → SystemTime → SystemTime := fun n => SystemTime.wait (if n % 3 = 1 then 128 else 3)
    let s := (begin.run seeded).2
    let r := getUnixTimeUsec.runWith i 0 s
    r.2.1 = 13 ∧ r.1 % usecPerSec = 0 ∧ usec (i 0 s).rtc.ticks ≤ r.1 ∧ r.1 ≤ usec r.2.2.rtc.ticks ∧
      ((samples 2).runWith i 0 s).1.Pairwise (· ≤ ·) := by
  intro i s r
  have h := reading_never_torn i (fun n s => forward_wait s _) s (by decide) 0 2
  exact ⟨by decide, by decide, h.1.1, h.1.2, h.2⟩

end BoredomOS.Clock
