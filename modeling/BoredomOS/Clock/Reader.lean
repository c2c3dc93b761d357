/-
`sinceBootUsec` with other code between its reads. Whatever keeps the clock sound there and leaves the
epoch alone, an attempt whose two seconds agree returns the elapsed time at its fraction; four failed
attempts have seen the second move, so the whole second they fall back to is not before the call either.
-/
import BoredomOS.Clock.Elapsed

namespace BoredomOS.Clock

open Steps

section Reader

variable {R : Nat → SystemTime → SystemTime → Prop}

/-- What a reader needs of the code between its reads: a sound clock that does not turn back, and the boot
epoch as it was. -/
structure Steady (R : Nat → SystemTime → SystemTime → Prop) : Prop where
  sound : ∀ n s s', R n s s' → Sound s → Sound s' ∧ s.elapsed ≤ s'.elapsed
  epoch : ∀ n s s', R n s s' → s'.bootEpoch = s.bootEpoch

/-- What `getUnixTimeUsec` returned stands for a tick `t`, no earlier than `e`, on the clock it
leaves behind. -/
def StandsFor (e : Nat) (now _ : Nat) (s : SystemTime) : Prop :=
  Sound s ∧ e ≤ s.elapsed ∧ (s.elapsed ≤ epochBound →
    ∃ t, e ≤ t ∧ t ≤ s.elapsed ∧ now = s.bootEpoch * usecPerSec + usec t)

theorem readSeconds_rely {Q : Option Nat → Nat → SystemTime → Prop} (hR : Steady R) {n : Nat} {s : SystemTime}
    (h : Sound s) (hQ : ∀ s', R n s s' → Sound s' → s.elapsed ≤ s'.elapsed → Q (some s'.rtc.second) (n + 1) s') :
    Prog.rely R readSeconds Q n s := by
  simp only [readSeconds, Prog.rely_get]
  intro s' hs'
  obtain ⟨h', hle⟩ := hR.sound n s s' hs' h
  rw [if_pos h'.readable]
  exact hQ s' hs' h' hle

/-- The attempts left, after others that failed over one epoch only by a second passing. -/
theorem getUnixTimeUsecIn_rely (hR : Steady R) (e : Nat) : ∀ (attempts n : Nat) (s : SystemTime),
    Sound s → e ≤ s.elapsed → (attempts < 4 → s.elapsed ≤ epochBound → e / 128 < s.elapsed / 128) →
      Prog.rely R (getUnixTimeUsecIn attempts) (StandsFor e) n s
  | 0, n, s, h, he, hfailed => by
    simp only [getUnixTimeUsecIn, getUnixTime, Prog.rely_bind, Prog.rely_pure]
    refine readSeconds_rely hR h fun s' hs' h' hle => ⟨h', le_trans he hle, fun hbound => ?_⟩
    have hlt := hfailed (by omega) (le_trans hle hbound)
    have hq : s.elapsed / 128 ≤ s'.elapsed / 128 := Nat.div_le_div_right hle
    refine ⟨s'.elapsed / 128 * 128, by omega, Nat.div_mul_le_self _ _, ?_⟩
    rw [Option.getD_some, h'.second hbound, usec_split]
    simp [Nat.add_mul]
  | attempts + 1, n, s, h, he, hfailed => by
    simp only [getUnixTimeUsecIn, Prog.rely_bind]
    refine readSeconds_rely hR h fun s₁ hs₁ h₁ hle₁ => ?_
    simp only [Prog.rely_bind, Prog.rely_get]
    intro s₂ hs₂
    obtain ⟨h₂, hle₂⟩ := hR.sound _ _ _ hs₂ h₁
    refine readSeconds_rely hR h₂ fun s₃ hs₃ h₃ hle₃ => ?_
    dsimp only
    split
    · -- the seconds agree, and so do the epochs
      rename_i hagree
      refine ⟨h₃, by omega, fun hbound => ⟨s₂.elapsed, by omega, hle₃, ?_⟩⟩
      have he₂ := hR.epoch _ _ _ hs₂
      have he₃ := hR.epoch _ _ _ hs₃
      rw [h₁.second (by omega), h₃.second hbound, he₃, he₂] at hagree
      have hq₁ : s₁.elapsed / 128 ≤ s₂.elapsed / 128 := Nat.div_le_div_right hle₂
      have hq₃ : s₂.elapsed / 128 ≤ s₃.elapsed / 128 := Nat.div_le_div_right hle₃
      rw [h₁.second (by omega), h₂.fraction (by omega), usec_split, he₃, he₂,
        show s₁.elapsed / 128 = s₂.elapsed / 128 by omega, Nat.add_mul, Nat.add_assoc]
    · rename_i hmoved
      refine getUnixTimeUsecIn_rely hR e attempts _ s₃ h₃ (by omega) fun _ hbound => ?_
      have he₂ := hR.epoch _ _ _ hs₂
      have he₃ := hR.epoch _ _ _ hs₃
      rw [h₁.second (by omega), h₃.second hbound, he₃, he₂] at hmoved
      have hq : e / 128 ≤ s₁.elapsed / 128 := Nat.div_le_div_right (by omega)
      have hq₃ : s₁.elapsed / 128 ≤ s₃.elapsed / 128 := Nat.div_le_div_right (by omega)
      omega

/-- Over steady gaps, `sinceBootUsec` returns the elapsed time of a tick within the call. -/
theorem sinceBootUsec_rely (hR : Steady R) {s₀ : SystemTime} (h₀ : Sound s₀) :
    Prog.rely R sinceBootUsec (fun r _ s => Sound s ∧ s₀.elapsed ≤ s.elapsed ∧ (s.elapsed ≤ epochBound →
      ∃ t, s₀.elapsed ≤ t ∧ t ≤ s.elapsed ∧ r = usec t)) 0 s₀ := by
  simp only [sinceBootUsec, Prog.rely_bind, Prog.rely_get, Prog.rely_pure]
  refine Prog.rely_mono ?_ _ _ _
    (getUnixTimeUsecIn_rely hR s₀.elapsed 4 0 s₀ h₀ (le_refl _) fun hlt => absurd hlt (by omega))
  rintro now n s ⟨h, he, hstands⟩ s' hs'
  obtain ⟨h', hle⟩ := hR.sound _ _ _ hs' h
  refine ⟨h', le_trans he hle, fun hbound => ?_⟩
  obtain ⟨t, het, hts, rfl⟩ := hstands (le_trans hle hbound)
  rw [hR.epoch _ _ _ hs']
  refine ⟨t, het, le_trans hts hle, ?_⟩
  split <;> omega

end Reader

end BoredomOS.Clock
