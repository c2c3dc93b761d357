/-
Numbers given out one after another, of which only some are kept: two successive kept numbers are as
far apart as there were numbers lost between them.
-/
import Mathlib.Data.List.Chain

namespace Numbering

/-- The numbers from `n` on whose flag says they were kept. -/
def kept : Nat → List Bool → List Nat
  | _, [] => []
  | n, true :: flags => n :: kept (n + 1) flags
  | n, false :: flags => kept (n + 1) flags

/-- How many numbers were lost ahead of each kept one, `lost` of them already. -/
def losses : Nat → List Bool → List Nat
  | _, [] => []
  | lost, true :: flags => lost :: losses 0 flags
  | lost, false :: flags => losses (lost + 1) flags

section Chain

variable {R : Nat → Nat → Prop} {P : Nat → Prop} (hR : ∀ n lost, R n (n + 1 + lost) ↔ P lost)

include hR

theorem chain_kept_cons : ∀ (flags : List Bool) (n lost : Nat),
    List.IsChain R (n :: kept (n + 1 + lost) flags) ↔ ∀ g ∈ losses lost flags, P g
  | [], n, lost => by simp [kept, losses]
  | true :: flags, n, lost => by
    have htail := chain_kept_cons flags (n + 1 + lost) 0
    simp only [kept, losses, List.isChain_cons_cons, List.forall_mem_cons, hR]
    exact and_congr Iff.rfl htail
  | false :: flags, n, lost => chain_kept_cons flags n (lost + 1)

/-- Successive kept numbers stand in a relation of their distance exactly if the losses between them
allow it; what is lost ahead of the first one is no distance. -/
theorem chain_kept_iff : ∀ (flags : List Bool) (n lost : Nat),
    List.IsChain R (kept n flags) ↔ ∀ g ∈ (losses lost flags).tail, P g
  | [], n, lost => by simp [kept, losses]
  | true :: flags, n, lost => chain_kept_cons hR flags n 0
  | false :: flags, n, lost => chain_kept_iff flags (n + 1) (lost + 1)

end Chain

/-- With all of them kept, nothing is lost after the first. -/
theorem losses_of_all : ∀ {flags : List Bool} (lost : Nat), (∀ f ∈ flags, f = true) →
    ∀ g ∈ (losses lost flags).tail, g = 0
  | [], _, _ => by simp [losses]
  | [f], lost, h => by
    obtain rfl := h f (List.mem_singleton_self f)
    simp [losses]
  | f :: f' :: flags, lost, h => by
    obtain ⟨hf, hrest⟩ := List.forall_mem_cons.1 h
    have hf' := hrest f' List.mem_cons_self
    subst hf hf'
    intro g hg
    rcases List.mem_cons.1 hg with rfl | hg
    · rfl
    · exact losses_of_all 0 hrest g hg

/-- Where things were numbered one after another, the kept ones carry the kept numbers. -/
theorem map_filter_eq_kept {α β : Type*} {number : α → β} {h : Nat → β} {keep : α → Bool} : ∀ {xs : List α} {n : Nat},
    xs.map number = (List.range' n xs.length).map h → (xs.filter keep).map number = (kept n (xs.map keep)).map h
  | [], _, _ => rfl
  | x :: xs, n, hx => by
    simp only [List.length_cons, List.range'_succ, List.map_cons, List.cons.injEq] at hx
    have hrest : (xs.filter keep).map number = _ := map_filter_eq_kept hx.2
    cases hk : keep x with
    | true =>
      rw [List.filter_cons_of_pos hk, List.map_cons, List.map_cons, hk, kept, List.map_cons, hx.1, hrest]
    | false =>
      rw [List.filter_cons_of_neg (by simp [hk]), List.map_cons, hk, kept, hrest]

end Numbering
