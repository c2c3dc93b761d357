/-
A cursor that goes once over the places below a bound while what is wanted of them changes. Each call goes to
the first place it wants at or behind the cursor, and the calls end when one finds none: no place is visited
twice, and one that every call wants is not missed.
-/
import Mathlib.Data.List.Basic

namespace Cursor

variable {σ : Type*} (wanted : σ → ℕ → Bool) (bound : ℕ)

/-- Where a call goes from the cursor. -/
def next (s : σ) (cursor : ℕ) : Option ℕ := (List.range' cursor (bound - cursor)).find? (wanted s)

/-- The calls that find a place, each with that place. -/
def visits : List σ → ℕ → List (σ × ℕ)
  | [], _ => []
  | s :: calls, cursor =>
    match next wanted bound s cursor with
    | some place => (s, place) :: visits calls (place + 1)
    | none => []

variable {wanted bound} {s : σ} {calls : List σ} {cursor place : ℕ}

theorem next_eq_some : next wanted bound s cursor = some place ↔
    cursor ≤ place ∧ place < bound ∧ wanted s place = true ∧ ∀ k, cursor ≤ k → k < place → wanted s k = false := by
  unfold next
  rw [List.find?_range'_eq_some, List.mem_range'_1]
  constructor
  · rintro ⟨hwanted, ⟨hfrom, hbelow⟩, hfirst⟩
    exact ⟨hfrom, by omega, hwanted, fun k hk hlt => by simpa using hfirst k hk hlt⟩
  · rintro ⟨hfrom, hbelow, hwanted, hfirst⟩
    exact ⟨hwanted, ⟨hfrom, by omega⟩, fun k hk hlt => by simp [hfirst k hk hlt]⟩

theorem next_eq_none : next wanted bound s cursor = none ↔ ∀ k, cursor ≤ k → k < bound → wanted s k = false := by
  unfold next
  rw [List.find?_range'_eq_none]
  constructor
  · intro hnone k hk hlt
    simpa using hnone k hk (by omega)
  · intro hnone k hk hlt
    simpa using hnone k hk (by omega)

theorem next_here (hbelow : cursor < bound) (hwanted : wanted s cursor = true) : next wanted bound s cursor = some cursor :=
  next_eq_some.2 ⟨Nat.le_refl _, hbelow, hwanted, fun _ hk hlt => absurd hlt (Nat.not_lt.2 hk)⟩

/-- A place that is not wanted is passed over. -/
theorem next_skip (hbelow : cursor < bound) (hnot : wanted s cursor = false) :
    next wanted bound s cursor = next wanted bound s (cursor + 1) := by
  unfold next
  rw [show bound - cursor = bound - (cursor + 1) + 1 by omega, List.range'_succ, List.find?_cons_of_neg (by simp [hnot])]

theorem visits_of_some (h : next wanted bound s cursor = some place) :
    visits wanted bound (s :: calls) cursor = (s, place) :: visits wanted bound calls (place + 1) := by
  rw [visits, h]

theorem visits_of_none (h : next wanted bound s cursor = none) : visits wanted bound (s :: calls) cursor = [] := by
  rw [visits, h]

/-- A call that is visited wants its place, which is in bounds and not behind the cursor. -/
theorem visits_spec {x : σ × ℕ} (hx : x ∈ visits wanted bound calls cursor) :
    cursor ≤ x.2 ∧ x.2 < bound ∧ wanted x.1 x.2 = true := by
  induction calls generalizing cursor with
  | nil => cases hx
  | cons s calls ih =>
    rcases hnext : next wanted bound s cursor with _ | place
    · rw [visits_of_none hnext] at hx
      cases hx
    · rw [visits_of_some hnext] at hx
      obtain ⟨hfrom, hbelow, hwanted, -⟩ := next_eq_some.1 hnext
      rcases List.mem_cons.1 hx with rfl | hx
      · exact ⟨hfrom, hbelow, hwanted⟩
      · obtain ⟨hle, hrest⟩ := ih hx
        exact ⟨by omega, hrest⟩

/-- Places are visited in order, each once. -/
theorem visits_pairwise (calls : List σ) (cursor : ℕ) :
    ((visits wanted bound calls cursor).map Prod.snd).Pairwise (· < ·) := by
  induction calls generalizing cursor with
  | nil => exact List.Pairwise.nil
  | cons s calls ih =>
    rcases hnext : next wanted bound s cursor with _ | place
    · rw [visits_of_none hnext]
      exact List.Pairwise.nil
    · rw [visits_of_some hnext, List.map_cons, List.pairwise_cons]
      refine ⟨fun k hk => ?_, ih _⟩
      obtain ⟨x, hx, rfl⟩ := List.mem_map.1 hk
      exact (visits_spec hx).1

/-- The first calls are the ones that visit. -/
theorem visits_front (calls : List σ) (cursor : ℕ) : (visits wanted bound calls cursor).map Prod.fst <+: calls := by
  induction calls generalizing cursor with
  | nil => exact List.prefix_refl _
  | cons s calls ih =>
    rcases hnext : next wanted bound s cursor with _ | place
    · rw [visits_of_none hnext]
      exact List.nil_prefix
    · rw [visits_of_some hnext, List.map_cons, List.cons_prefix_cons]
      exact ⟨rfl, ih _⟩

/-- All calls but the last visit, if one call more has been made than visits. -/
theorem visits_dropLast (hended : calls.length = (visits wanted bound calls cursor).length + 1) :
    (visits wanted bound calls cursor).map Prod.fst = calls.dropLast := by
  rw [List.prefix_iff_eq_take.1 (visits_front calls cursor), List.length_map, List.dropLast_eq_take, hended]
  rfl

theorem length_visits_le (calls : List σ) (cursor : ℕ) : (visits wanted bound calls cursor).length ≤ bound - cursor := by
  induction calls generalizing cursor with
  | nil => exact Nat.zero_le _
  | cons s calls ih =>
    rcases hnext : next wanted bound s cursor with _ | place
    · rw [visits_of_none hnext]
      exact Nat.zero_le _
    · obtain ⟨hfrom, hbelow, -⟩ := next_eq_some.1 hnext
      have hrest := ih (place + 1)
      rw [visits_of_some hnext, List.length_cons]
      omega

/-- Once a call has found nothing, a place that every call wanted has been visited. -/
theorem mem_visits (hended : (visits wanted bound calls cursor).length < calls.length) (hfrom : cursor ≤ place)
    (hbelow : place < bound) (hwanted : ∀ s ∈ calls, wanted s place = true) :
    place ∈ (visits wanted bound calls cursor).map Prod.snd := by
  induction calls generalizing cursor with
  | nil => cases hended
  | cons s calls ih =>
    have hs := hwanted s List.mem_cons_self
    rcases hnext : next wanted bound s cursor with _ | found
    · rw [next_eq_none.1 hnext place hfrom hbelow] at hs
      cases hs
    · rw [visits_of_some hnext] at hended ⊢
      obtain ⟨-, -, -, hfirst⟩ := next_eq_some.1 hnext
      rcases Nat.lt_trichotomy place found with hlt | rfl | hlt
      · rw [hfirst place hfrom hlt] at hs
        cases hs
      · exact List.mem_cons_self
      · exact List.mem_cons_of_mem _ (ih (Nat.lt_of_succ_lt_succ hended) hlt fun s' hs' =>
          hwanted s' (List.mem_cons_of_mem s hs'))

/-- Call by call, the place is one that the call wants. -/
theorem wanted_of_getElem {i : ℕ} (hplace : ((visits wanted bound calls cursor).map Prod.snd)[i]? = some place)
    (hcall : calls[i]? = some s) : wanted s place = true := by
  rw [List.getElem?_map, Option.map_eq_some_iff] at hplace
  obtain ⟨x, hx, rfl⟩ := hplace
  have hfront : (visits wanted bound calls cursor).map Prod.fst <+: calls := visits_front calls cursor
  obtain ⟨rest, hrest⟩ := hfront
  have hfirst : ((visits wanted bound calls cursor).map Prod.fst)[i]? = some x.1 := by
    rw [List.getElem?_map, hx]
    rfl
  rw [← hrest, List.getElem?_append_left (by simpa using (List.getElem?_eq_some_iff.1 hx).1), hfirst, Option.some.injEq] at hcall
  rw [← hcall]
  exact (visits_spec (List.mem_of_getElem? hx)).2.2

/-- Calls that only find places of a list, and each the next of it, go through the list. -/
theorem visits_through {places : List ℕ} (hsorted : places.Pairwise (· < ·))
    (hplaces : ∀ k ∈ places, cursor ≤ k ∧ k < bound) (honly : ∀ x ∈ visits wanted bound calls cursor, x.2 ∈ places)
    (hwanted : ∀ (i k : ℕ) (s : σ), places[i]? = some k → calls[i]? = some s → wanted s k = true)
    (hended : (visits wanted bound calls cursor).length < calls.length) :
    (visits wanted bound calls cursor).map Prod.snd = places := by
  induction calls generalizing cursor places with
  | nil => cases hended
  | cons s calls ih =>
    rcases hnext : next wanted bound s cursor with _ | found
    · rw [visits_of_none hnext]
      cases places with
      | nil => rfl
      | cons place places =>
        obtain ⟨hfrom, hbelow⟩ := hplaces place List.mem_cons_self
        have hs := hwanted 0 place s rfl rfl
        rw [next_eq_none.1 hnext place hfrom hbelow] at hs
        cases hs
    · rw [visits_of_some hnext] at honly hended ⊢
      have hmem := honly _ List.mem_cons_self
      cases places with
      | nil => cases hmem
      | cons place places =>
        obtain ⟨hlater, hbehind⟩ := List.pairwise_cons.1 hsorted
        obtain ⟨hfrom, hbelow⟩ := hplaces place List.mem_cons_self
        obtain ⟨-, -, -, hfirst⟩ := next_eq_some.1 hnext
        have hfound : found = place := by
          rcases List.mem_cons.1 hmem with heq | hlatter
          · exact heq
          · -- then this call would have found the earlier place
            have hs := hwanted 0 place s rfl rfl
            rw [hfirst place hfrom (hlater _ hlatter)] at hs
            cases hs
        subst hfound
        rw [List.map_cons]
        congr 1
        apply ih hbehind
        · exact fun k hk => ⟨hlater k hk, (hplaces k (List.mem_cons_of_mem _ hk)).2⟩
        · intro x hx
          rcases List.mem_cons.1 (honly x (List.mem_cons_of_mem _ hx)) with heq | hrest
          · have hfrom := (visits_spec hx).1
            omega
          · exact hrest
        · exact fun i k s' hk hs' => hwanted (i + 1) k s' hk hs'
        · exact Nat.lt_of_succ_lt_succ hended

end Cursor
