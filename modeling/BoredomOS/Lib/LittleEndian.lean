/-
Numbers as little-endian bytes: `ofNat w n` is the `w` bytes of `n`, `toNat` reads any bytes back.
-/
import Mathlib.Tactic.Ring
import Mathlib.Data.List.Basic

namespace LittleEndian

def toNat : List UInt8 → Nat
  | [] => 0
  | b :: bs => b.toNat + 256 * toNat bs

def ofNat : Nat → Nat → List UInt8
  | 0, _ => []
  | w + 1, n => UInt8.ofNat n :: ofNat w (n / 256)

@[simp] theorem length_ofNat : ∀ (w n : Nat), (ofNat w n).length = w
  | 0, _ => rfl
  | w + 1, n => by rw [ofNat, List.length_cons, length_ofNat]

theorem toNat_ofNat : ∀ {w n : Nat}, n < 256 ^ w → toNat (ofNat w n) = n
  | 0, n, h => by
    have : n = 0 := by simpa using h
    rw [this]; rfl
  | w + 1, n, h => by
    have hdiv : n / 256 < 256 ^ w := Nat.div_lt_of_lt_mul (by rwa [pow_succ, mul_comm] at h)
    rw [ofNat, toNat, toNat_ofNat hdiv, UInt8.toNat_ofNat']
    omega

theorem toNat_lt : ∀ bs : List UInt8, toNat bs < 256 ^ bs.length
  | [] => by simp [toNat]
  | b :: bs => by
    have hb := b.toNat_lt
    have hbs := toNat_lt bs
    rw [toNat, List.length_cons, pow_succ]
    omega

/-- The bytes of a number are determined by it. -/
theorem ofNat_toNat : ∀ bs : List UInt8, ofNat bs.length (toNat bs) = bs
  | [] => rfl
  | b :: bs => by
    have hb := b.toNat_lt
    rw [List.length_cons, toNat, ofNat]
    have hlow : UInt8.ofNat (b.toNat + 256 * toNat bs) = b := by
      apply UInt8.toNat_inj.1
      rw [UInt8.toNat_ofNat']
      omega
    have hhigh : (b.toNat + 256 * toNat bs) / 256 = toNat bs := by omega
    rw [hlow, hhigh, ofNat_toNat bs]

end LittleEndian
