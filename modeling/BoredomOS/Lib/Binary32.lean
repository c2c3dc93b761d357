/-
Order and truncation of binary32 numbers. Dropping the fraction of a number that is not negative rounds its
value down, so it keeps an upper bound.
-/
import Mathlib

namespace Binary32

open Float.Model Float.Model.UnpackedFloat

/-- What the number is, without its fraction: zero for NaN, and these for the infinities. -/
def truncate (low high : Int) (v : Float32) : Int := v.toModel.unpack.toInt low high

theorem lt_iff (v w : Float32) : v < w ↔ v.toModel.unpack.compare w.toModel.unpack = some .lt := by
  change decide (v.toModel < w.toModel) = true ↔ _
  rw [decide_eq_true_iff]
  change (v.toModel.unpack.compare w.toModel.unpack == some .lt) = true ↔ _
  exact beq_iff_eq

@[simp] theorem unpack_zero : (0.0 : Float32).toModel.unpack = .zero .positive := rfl

/-! ## Mantissas and exponents -/

theorem toNat_one_append {w : Nat} (v : BitVec w) : (1#1 ++ v).toNat = 2 ^ w + v.toNat := by
  rw [BitVec.toNat_append, ← Nat.shiftLeft_add_eq_or_of_lt v.isLt]
  exact congrArg (· + v.toNat) (Nat.one_shiftLeft w)

/-- A finite number is in canonical form: its mantissa fills the 24 bits, unless its exponent is the least. -/
theorem unpack_finite {v : Float32} {s : Sign} {m : Nat} {e : Int} {h : 0 < m}
    (hv : v.toModel.unpack = .finite s m e h) : m < 2 ^ 24 ∧ -149 ≤ e ∧ (2 ^ 23 ≤ m ∨ e = -149) := by
  unfold Float32.Model.unpack UnpackedFloat.unpack at hv
  dsimp only at hv
  split at hv
  · split at hv <;> cases hv
  split at hv
  · split at hv
    · cases hv
    · rename_i hexponent _
      obtain ⟨-, rfl, rfl⟩ := UnpackedFloat.finite.inj hv
      rw [hexponent]
      exact ⟨(BitVec.isLt _).trans (by decide), by decide, .inr (by decide)⟩
  · rename_i hexponent
    obtain ⟨-, rfl, rfl⟩ := UnpackedFloat.finite.inj hv
    rw [toNat_one_append]
    have hmantissa := (@unpackMantissa Format.binary32 v.toModel.toBits.toBitVec).isLt
    have hpos : (@unpackExponent Format.binary32 v.toModel.toBits.toBitVec).toNat ≠ 0 := fun h =>
      hexponent (BitVec.eq_of_toNat_eq h)
    change _ < 2 ^ 23 at hmantissa
    change 2 ^ 23 + _ < 2 ^ 24 ∧ -149 ≤ (_ : Int) - 150 ∧ (2 ^ 23 ≤ 2 ^ 23 + _ ∨ _)
    omega

theorem mantissa_shiftRight (em : ExtendedMantissa) (n : Nat) : (em >>> n).mantissa = em.mantissa / 2 ^ n := by
  induction n with
  | zero => exact (Nat.div_one _).symm
  | succ n ih =>
    change (em >>> n).mantissa / 2 = _
    rw [ih, Nat.div_div_eq_div_mul, Nat.pow_succ]

/-- A positive number loses its fraction. -/
theorem roundToInt_positive (m : Nat) (e : Int) : roundToInt .positive m e = ⌊(m : ℚ) * 2 ^ e⌋ := by
  unfold roundToInt decreaseExponent shiftToExponent
  simp only [mantissa_shiftRight]
  rcases le_total e 0 with he | he
  · obtain ⟨n, rfl⟩ := Int.exists_eq_neg_ofNat he
    have hshift : (-(n : Int) - 0).toNat = 0 := by omega
    have hback : (0 - (-(n : Int) - ↑(0 : Nat))).toNat = n := by omega
    rw [hshift, hback, zpow_neg, zpow_natCast, ← div_eq_mul_inv]
    change ((m / 2 ^ n : Nat) : Int) = _
    exact_mod_cast (Rat.floor_natCast_div_natCast m (2 ^ n)).symm
  · obtain ⟨n, rfl⟩ := Int.eq_ofNat_of_zero_le he
    have hshift : ((n : Int) - 0).toNat = n := by omega
    have hback : (0 - ((n : Int) - n)).toNat = 0 := by omega
    rw [hshift, hback, zpow_natCast, pow_zero, Nat.div_one, Nat.shiftLeft_eq]
    exact_mod_cast (Int.floor_natCast (R := ℚ) (m * 2 ^ n)).symm

/-- In canonical form the exponents decide, and then the mantissas. -/
theorem magnitude_le {v w : Float32} {m M : Nat} {e E : Int} {hm : 0 < m} {hM : 0 < M}
    (hv : v.toModel.unpack = .finite .positive m e hm) (hw : w.toModel.unpack = .finite .positive M E hM)
    (hle : ¬w < v) : (m : ℚ) * 2 ^ e ≤ M * 2 ^ E := by
  obtain ⟨hmlt, he, -⟩ := unpack_finite hv
  obtain ⟨-, -, hMge⟩ := unpack_finite hw
  rw [lt_iff, hw, hv] at hle
  change ¬some ((compare E e).then (compare M m)) = some .lt at hle
  rcases lt_trichotomy E e with hE | rfl | hE
  · rw [Int.compare_eq_lt.2 hE] at hle
    exact absurd rfl hle
  · rw [Int.compare_eq_eq.2 rfl] at hle
    have hmM : m ≤ M := Nat.le_of_not_lt fun hlt => hle (congrArg some (Nat.compare_eq_lt.2 hlt))
    gcongr
  · -- a smaller exponent is less, as the larger one has all of its 24 bits
    have hfull : 2 ^ 23 ≤ M := hMge.resolve_right (he.trans_lt hE).ne'
    calc (m : ℚ) * 2 ^ e ≤ (2 ^ 24 : Nat) * 2 ^ e := by gcongr
      _ = (2 ^ 23 : Nat) * 2 ^ (e + 1) := by
        rw [zpow_add_one₀ (by norm_num)]
        push_cast
        ring
      _ ≤ M * 2 ^ E := by
        gcongr
        · norm_num
        · omega

/-! ## Truncation -/

theorem truncate_nonneg {v : Float32} (hlow : ¬v < 0.0) (low : Int) {high : Int} (hhigh : 0 ≤ high) :
    0 ≤ truncate low high v := by
  unfold truncate
  rw [lt_iff, unpack_zero] at hlow
  cases hv : v.toModel.unpack with
  | notANumber | zero => exact Int.le_refl _
  | infinity s =>
    rw [hv] at hlow
    cases s with
    | negative => exact absurd rfl hlow
    | positive => exact hhigh
  | finite s m e hm =>
    rw [hv] at hlow
    cases s with
    | negative => exact absurd rfl hlow
    | positive =>
      change 0 ≤ roundToInt .positive m e
      rw [roundToInt_positive]
      positivity

theorem truncate_le {v w : Float32} {M : Nat} {E : Int} {hM : 0 < M} (hw : w.toModel.unpack = .finite .positive M E hM)
    (hlow : ¬v < 0.0) (hle : ¬w < v) (low high : Int) : truncate low high v ≤ truncate low high w := by
  have hnonneg : 0 ≤ truncate low high w := by
    unfold truncate
    rw [hw]
    change 0 ≤ roundToInt .positive M E
    rw [roundToInt_positive]
    positivity
  cases hv : v.toModel.unpack with
  | notANumber | zero => exact (congrArg (toInt low high) hv).trans_le hnonneg
  | infinity s =>
    cases s with
    | negative => exact absurd ((lt_iff _ _).2 (hv ▸ rfl)) hlow
    | positive => exact absurd ((lt_iff _ _).2 (hv ▸ hw ▸ rfl)) hle
  | finite s m e hm =>
    cases s with
    | negative => exact absurd ((lt_iff _ _).2 (hv ▸ rfl)) hlow
    | positive =>
      unfold truncate
      rw [hv, hw]
      change roundToInt .positive m e ≤ roundToInt .positive M E
      rw [roundToInt_positive, roundToInt_positive]
      exact Int.floor_le_floor (magnitude_le hv hw hle)

end Binary32
