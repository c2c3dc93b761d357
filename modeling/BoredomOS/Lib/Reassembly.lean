/-
A list put together from slices of it that arrive in any order, more than once or not at all. Each
slice is written at its offset, over what is there. As all are slices of one list, neither the order
nor a repetition leaves a trace, and what can be read from the front is the front of that list, as
far as every position is covered and no further.
-/
import Mathlib.Data.List.Infix

namespace Reassembly

variable {α : Type*}

/-- What one message says: these are the items from `ofs` on. -/
structure Slice (α : Type*) where
  ofs : Nat
  items : List α

namespace Slice

/-- It says so of `xs`. -/
def Of (s : Slice α) (xs : List α) : Prop := s.items <+: xs.drop s.ofs

def Covers (s : Slice α) (i : Nat) : Prop := s.ofs ≤ i ∧ i < s.ofs + s.items.length

instance (s : Slice α) (i : Nat) : Decidable (s.Covers i) := inferInstanceAs (Decidable (_ ∧ _))

/-- A slice of a list is one of every list that goes on from it. -/
theorem Of.mono {s : Slice α} {xs ys : List α} (h : s.Of xs) (hpre : xs <+: ys) : s.Of ys :=
  h.trans (hpre.drop s.ofs)

theorem Of.getElem? {s : Slice α} {xs : List α} (h : s.Of xs) {i : Nat} (hi : s.Covers i) :
    s.items[i - s.ofs]? = xs[i]? := by
  obtain ⟨hle, hlt⟩ := hi
  obtain ⟨rest, hrest⟩ := h
  have hat : xs[i]? = (xs.drop s.ofs)[i - s.ofs]? := by rw [List.getElem?_drop, Nat.add_sub_cancel' hle]
  rw [hat, ← hrest, List.getElem?_append_left (by omega)]

theorem Of.lt_length {s : Slice α} {xs : List α} (h : s.Of xs) {i : Nat} (hi : s.Covers i) : i < xs.length := by
  obtain ⟨hle, hlt⟩ := hi
  have hlen := h.length_le
  rw [List.length_drop] at hlen
  omega

end Slice

/-! ## Writing the slices down -/

/-- The slice over what is there. -/
def place (page : Nat → Option α) (s : Slice α) : Nat → Option α := fun i =>
  if s.Covers i then s.items[i - s.ofs]? else page i

/-- All of them, in the order they came, on an empty page. -/
def gather (ss : List (Slice α)) : Nat → Option α := ss.foldl place fun _ => none

/-- The first `n` items, if each is there. -/
def front (page : Nat → Option α) : Nat → Option (List α)
  | 0 => some []
  | n + 1 => (front page n).bind fun xs => (page n).map fun x => xs ++ [x]

theorem gather_concat (ss : List (Slice α)) (s : Slice α) : gather (ss ++ [s]) = place (gather ss) s :=
  List.foldl_concat ..

/-- A position has the item of the list once a slice has covered it. -/
theorem gather_eq {ss : List (Slice α)} {xs : List α} (h : ∀ s ∈ ss, s.Of xs) (i : Nat) :
    gather ss i = if ∃ s ∈ ss, s.Covers i then xs[i]? else none := by
  induction ss using List.reverseRecOn with
  | nil => simp [gather]
  | append_singleton ss s ih =>
    have hss : ∀ s' ∈ ss, s'.Of xs := fun s' hs' => h s' (List.mem_append_left _ hs')
    have hs : s.Of xs := h s (List.mem_append_right _ (List.mem_singleton_self s))
    rw [gather_concat, place]
    by_cases hi : s.Covers i
    · rw [if_pos hi, if_pos ⟨s, List.mem_append_right _ (List.mem_singleton_self s), hi⟩]
      exact hs.getElem? hi
    · rw [if_neg hi, ih hss]
      congr 1
      rw [eq_iff_iff]
      constructor
      · rintro ⟨s', hs', hi'⟩
        exact ⟨s', List.mem_append_left _ hs', hi'⟩
      · rintro ⟨s', hs', hi'⟩
        rcases List.mem_append.1 hs' with hs' | hs'
        · exact ⟨s', hs', hi'⟩
        · rw [List.mem_singleton.1 hs'] at hi'
          exact absurd hi' hi

/-- What is read from the front is the front of the list, and it can be read once it is covered. -/
theorem front_gather {ss : List (Slice α)} {xs : List α} (h : ∀ s ∈ ss, s.Of xs) {ys : List α} : ∀ {n : Nat},
    front (gather ss) n = some ys ↔ (∀ i < n, ∃ s ∈ ss, s.Covers i) ∧ ys = xs.take n
  | 0 => by simp [front, eq_comm]
  | n + 1 => by
    rw [front, Option.bind_eq_some_iff]
    constructor
    · rintro ⟨zs, hzs, hys⟩
      obtain ⟨hcover, rfl⟩ := (front_gather h).1 hzs
      obtain ⟨x, hx, rfl⟩ := Option.map_eq_some_iff.1 hys
      rw [gather_eq h] at hx
      split at hx
      · rename_i hn
        refine ⟨fun i hi => ?_, ?_⟩
        · rcases Nat.lt_succ_iff_lt_or_eq.1 hi with hi | rfl
          · exact hcover i hi
          · exact hn
        · rw [List.take_add_one, hx]
          rfl
      · cases hx
    · rintro ⟨hcover, rfl⟩
      refine ⟨xs.take n, (front_gather h).2 ⟨fun i hi => hcover i (Nat.lt_succ_of_lt hi), rfl⟩, ?_⟩
      obtain ⟨s, hs, hn⟩ := hcover n (Nat.lt_succ_self n)
      have hlt := (h s hs).lt_length hn
      rw [gather_eq h, if_pos ⟨s, hs, hn⟩, List.take_add_one, List.getElem?_eq_getElem hlt]
      rfl

end Reassembly
