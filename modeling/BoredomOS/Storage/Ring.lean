/-
The ring on the card. `At n size c h` says that the slot `h` is where the log is: the slots before
it are full, those after it all full or, on the first lap, all absent, and every file holds the
pieces of one pass. `Ordered` adds that the index names `h`, or the slot before it while `h` is
absent, and that what was deleted, the other slots in ring order and `h` hold the pieces in the
order they were appended. Both survive a power cut, and every operation of the card that
`begin()`, `write()`, `openNextSlot()` and `writeLogIndex()` make in their order.
-/
import Mathlib.Data.List.Range
import BoredomOS.Storage.SdData

namespace BoredomOS.Storage

variable {κ : Type} {n size h : Nat} {c : Card κ}

/-! ## Ring order -/

/-- The other slots in ring order, from the one after `h` round to the one before it. -/
def others (n h : Nat) : List Nat := List.range' (h + 1) (n - (h + 1)) ++ List.range h

theorem mem_others (hh : h < n) {i : Nat} : i ∈ others n h ↔ i < n ∧ i ≠ h := by
  simp only [others, List.mem_append, List.mem_range, List.mem_range'_1]
  omega

/-- Moving on by one slot turns the ring order by one place. -/
theorem others_next (hh : h < n) : others n h ++ [h] = (h + 1) % n :: others n ((h + 1) % n) := by
  simp only [others, List.append_assoc, ← List.range_succ]
  rcases Nat.lt_or_ge (h + 1) n with hlt | hge
  · obtain ⟨m, hm⟩ : ∃ m, n - (h + 1) = m + 1 := ⟨n - (h + 1) - 1, by omega⟩
    rw [Nat.mod_eq_of_lt hlt, hm, List.range'_succ, show n - (h + 1 + 1) = m by omega]
    rfl
  · obtain rfl : n = h + 1 := by omega
    rw [Nat.mod_self, Nat.sub_self, List.range_zero, List.append_nil, List.range_eq_range', List.range'_succ]
    rfl

def Card.piecesAt (c : Card κ) (i : Nat) : List (Piece κ) :=
  match c.slots i with
  | some f => f.pieces
  | none => []

/-- What a reader of the existing slots finds, from the slot after `h` round to `h`. -/
def Card.readRing (c : Card κ) (n h : Nat) : List (Piece κ) := (others n h ++ [h]).flatMap c.piecesAt

theorem readRing_split (c : Card κ) (n h : Nat) : c.readRing n h = (others n h).flatMap c.piecesAt ++ c.piecesAt h := by
  simp [Card.readRing]

/-- The ring reads on from the slot after the current one. -/
theorem readRing_next (hh : h < n) (c : Card κ) :
    c.readRing n h = c.piecesAt ((h + 1) % n) ++ (others n ((h + 1) % n)).flatMap c.piecesAt := by
  rw [Card.readRing, others_next hh, List.flatMap_cons]

theorem others_congr (hh : h < n) {c c' : Card κ} (heq : ∀ i ≠ h, c'.slots i = c.slots i) :
    (others n h).flatMap c'.piecesAt = (others n h).flatMap c.piecesAt := by
  refine List.flatMap_congr fun i hi => ?_
  simp only [Card.piecesAt, heq i ((mem_others hh).1 hi).2]

/-! ## Power cuts -/

/-- Every file is synced to its end. -/
def Closed (c : Card κ) : Prop := ∀ i f, c.slots i = some f → f.synced = f.pieces.length

theorem File.cut_of_synced {f : File κ} (h : f.synced = f.pieces.length) : f.cut = f := by
  cases f
  simp only at h
  simp [File.cut, h]

theorem closed_cut (c : Card κ) : Closed c.cut := by
  intro i f hf
  obtain ⟨g, -, rfl⟩ := Option.map_eq_some_iff.1 hf
  simp [File.cut]

theorem cut_slots (c : Card κ) (i : Nat) : c.cut.slots i = (c.slots i).map File.cut := rfl

/-! ## The invariant -/

variable [Payload κ]

/-- A finished file: synced to its end, and at least the size limit long. -/
def Full (size : Nat) (c : Card κ) (i : Nat) : Prop :=
  ∃ f, c.slots i = some f ∧ f.synced = f.pieces.length ∧ size ≤ f.size

structure At (n size : Nat) (c : Card κ) (h : Nat) : Prop where
  lt : h < n
  writable : c.writable = true
  beyond : ∀ i, n ≤ i → c.slots i = none
  below : ∀ i < h, Full size c i
  above : (∀ i, h < i → i < n → Full size c i) ∨
    (∀ i, h < i → c.slots i = none) ∧ readLogIndex n c.index ≤ h
  head : ∀ f, c.slots h = some f → c.lastSlot = some h ∧ f.born = c.pass
  onePass : ∀ i f, c.slots i = some f → ∀ p ∈ f.pieces, p.pass = f.born

structure Ordered (n : Nat) (c : Card κ) (h : Nat) : Prop where
  index : readLogIndex n c.index = h ∨ c.slots h = none ∧ (readLogIndex n c.index + 1) % n = h
  sorted : (c.deleted ++ c.readRing n h).Pairwise fun a b => a.seq < b.seq
  past : ∀ p ∈ c.deleted ++ c.readRing n h, p.seq < c.appended

/-- The ring at `h`, in order if `o`: a damaged index costs the order and nothing else. -/
structure Inv (o : Prop) (n size : Nat) (c : Card κ) (h : Nat) : Prop where
  at_ : At n size c h
  ordered : o → Ordered n c h

theorem At.other (hat : At n size c h) {i : Nat} (hne : i ≠ h) : Full size c i ∨ c.slots i = none := by
  rcases Nat.lt_or_gt_of_ne hne with hlt | hgt
  · exact Or.inl (hat.below i hlt)
  · rcases hat.above with hfull | ⟨hnone, -⟩
    · rcases Nat.lt_or_ge i n with hi | hi
      · exact Or.inl (hfull i hgt hi)
      · exact Or.inr (hat.beyond i hi)
    · exact Or.inr (hnone i hgt)

theorem Full.congr {c' : Card κ} {i : Nat} (hf : Full size c i) (heq : c'.slots i = c.slots i) : Full size c' i := by
  obtain ⟨f, hs, hrest⟩ := hf
  exact ⟨f, heq.trans hs, hrest⟩

theorem Full.cut {i : Nat} (hf : Full size c i) : c.cut.slots i = c.slots i := by
  obtain ⟨f, hs, hsync, -⟩ := hf
  rw [cut_slots, hs, Option.map_some, File.cut_of_synced hsync]

theorem At.cut_other (hat : At n size c h) {i : Nat} (hne : i ≠ h) : c.cut.slots i = c.slots i := by
  rcases hat.other hne with hfull | hnone
  · exact hfull.cut
  · rw [cut_slots, hnone]; rfl

theorem At.cut (hat : At n size c h) : At n size c.cut h := by
  refine ⟨hat.lt, hat.writable, fun i hi => by rw [cut_slots, hat.beyond i hi]; rfl,
    fun i hi => (hat.below i hi).congr (hat.below i hi).cut, ?_, ?_, ?_⟩
  · rcases hat.above with hfull | ⟨hnone, hindex⟩
    · exact Or.inl fun i hi hn => (hfull i hi hn).congr (hfull i hi hn).cut
    · exact Or.inr ⟨fun i hi => by rw [cut_slots, hnone i hi]; rfl, hindex⟩
  · intro f hf
    obtain ⟨g, hg, rfl⟩ := Option.map_eq_some_iff.1 hf
    exact hat.head g hg
  · intro i f hf p hp
    obtain ⟨g, hg, rfl⟩ := Option.map_eq_some_iff.1 hf
    exact hat.onePass i g hg p (List.mem_of_mem_take hp)

theorem Inv.cut {o : Prop} (hinv : Inv o n size c h) : Inv o n size c.cut h := by
  refine ⟨hinv.at_.cut, fun ho => ?_⟩
  have hord := hinv.ordered ho
  -- only the file at `h` can be shorter than it was
  have hsub : (c.cut.deleted ++ c.cut.readRing n h).Sublist (c.deleted ++ c.readRing n h) := by
    rw [readRing_split, readRing_split, others_congr hinv.at_.lt fun i hi => hinv.at_.cut_other hi]
    refine List.Sublist.append_left (List.Sublist.append_left ?_ _) _
    simp only [Card.piecesAt, cut_slots]
    cases c.slots h with
    | none => exact List.Sublist.refl _
    | some f => exact List.take_sublist _ _
  refine ⟨?_, hord.sorted.sublist hsub, fun p hp => hord.past p (hsub.subset hp)⟩
  rcases hord.index with hidx | ⟨hnone, hidx⟩
  · exact Or.inl hidx
  · exact Or.inr ⟨by rw [cut_slots, hnone]; rfl, hidx⟩

/-! ## Operations on the file at `h` -/

omit [Payload κ] in
theorem alter_slots (c : Card κ) (h i : Nat) (f : File κ → File κ) :
    (c.alter h f).slots i = if i = h then (c.slots h).map f else c.slots i := by
  simp only [Card.alter, Function.update_apply]

/-- What only touches the file at `h` keeps the ring there, if the file stays one of its pass. -/
theorem At.alter (hat : At n size c h) {f : File κ → File κ} (hborn : ∀ g, (f g).born = g.born)
    (hpass : ∀ g, c.slots h = some g → (∀ p ∈ g.pieces, p.pass = g.born) → ∀ p ∈ (f g).pieces, p.pass = g.born) :
    At n size (c.alter h f) h := by
  have hother : ∀ i ≠ h, (c.alter h f).slots i = c.slots i := fun i hi => by rw [alter_slots, if_neg hi]
  have hhead : (c.alter h f).slots h = (c.slots h).map f := by rw [alter_slots, if_pos rfl]
  refine ⟨hat.lt, hat.writable, fun i hi => ?_, fun i hi => ?_, ?_, ?_, ?_⟩
  · rw [hother i (by have := hat.lt; omega), hat.beyond i hi]
  · exact (hat.below i hi).congr (hother i (by omega))
  · rcases hat.above with hfull | ⟨hnone, hindex⟩
    · exact Or.inl fun i hi hn => (hfull i hi hn).congr (hother i (by omega))
    · exact Or.inr ⟨fun i hi => by rw [hother i (by omega), hnone i hi], hindex⟩
  · intro g' hg'
    rw [hhead] at hg'
    obtain ⟨g, hg, rfl⟩ := Option.map_eq_some_iff.1 hg'
    rw [hborn]
    exact hat.head g hg
  · intro i g' hg' p hp
    by_cases hi : i = h
    · subst hi
      rw [hhead] at hg'
      obtain ⟨g, hg, rfl⟩ := Option.map_eq_some_iff.1 hg'
      rw [hborn]
      exact hpass g hg (hat.onePass i g hg) p hp
    · rw [hother i hi] at hg'
      exact hat.onePass i g' hg' p hp

omit [Payload κ] in
/-- Pieces gained at the end of the file at `h`, each later than all before, keep the order. -/
theorem Ordered.gain (hh : h < n) (hord : Ordered n c h) {c' : Card κ} {new : List (Piece κ)}
    (hother : ∀ i ≠ h, c'.slots i = c.slots i) (hhead : c'.piecesAt h = c.piecesAt h ++ new)
    (hnone : c.slots h = none → c'.slots h = none) (hdel : c'.deleted = c.deleted) (hidx : c'.index = c.index)
    (hle : c.appended ≤ c'.appended) (hsorted : new.Pairwise fun a b => a.seq < b.seq)
    (hnew : ∀ p ∈ new, c.appended ≤ p.seq ∧ p.seq < c'.appended) : Ordered n c' h := by
  have hread : c'.deleted ++ c'.readRing n h = (c.deleted ++ c.readRing n h) ++ new := by
    rw [readRing_split, readRing_split, others_congr hh hother, hhead, hdel]
    simp only [List.append_assoc]
  refine ⟨?_, ?_, ?_⟩
  · rw [hidx]
    exact hord.index.imp_right fun h' => ⟨hnone h'.1, h'.2⟩
  · rw [hread, List.pairwise_append]
    exact ⟨hord.sorted, hsorted, fun a ha b hb => lt_of_lt_of_le (hord.past a ha) (hnew b hb).1⟩
  · rw [hread]
    intro p hp
    rcases List.mem_append.1 hp with hp | hp
    · exact lt_of_lt_of_le (hord.past p hp) hle
    · exact (hnew p hp).2

omit [Payload κ] in
theorem piecesAt_alter (c : Card κ) (h : Nat) (f : File κ → File κ) (new : List (Piece κ))
    (hf : ∀ g, c.slots h = some g → (f g).pieces = g.pieces ++ new) (hnew : c.slots h = none → new = []) :
    (c.alter h f).piecesAt h = c.piecesAt h ++ new := by
  simp only [Card.piecesAt, alter_slots, if_true]
  cases hg : c.slots h with
  | none => simp [hnew hg]
  | some g => exact hf g hg

theorem Inv.sync {o : Prop} (hinv : Inv o n size c h) : Inv o n size (c.sync h) h := by
  refine ⟨hinv.at_.alter (fun _ => rfl) fun g _ hp => hp, fun ho => ?_⟩
  have hpieces := piecesAt_alter c h File.sync [] (fun g _ => (List.append_nil _).symm) fun _ => rfl
  refine (hinv.ordered ho).gain hinv.at_.lt (fun i hi => ?_) hpieces (fun hnone => ?_) rfl rfl (le_refl _)
    List.Pairwise.nil (by simp)
  · rw [Card.sync, alter_slots, if_neg hi]
  · rw [Card.sync, alter_slots, if_pos rfl, hnone]; rfl

theorem Inv.append {o : Prop} (hinv : Inv o n size c h) (hsome : (c.slots h).isSome) (data : κ) :
    Inv o n size (c.append h data) h := by
  obtain ⟨g, hg⟩ := Option.isSome_iff_exists.1 hsome
  have hborn := (hinv.at_.head g hg).2
  constructor
  · have hat : At n size (c.alter h fun f => f.append ⟨data, c.pass, c.appended⟩) h := by
      refine hinv.at_.alter (fun _ => rfl) fun g' hg' hp p hmem => ?_
      obtain rfl : g = g' := by rw [hg] at hg'; cases hg'; rfl
      rcases List.mem_append.1 hmem with hmem | hmem
      · exact hp p hmem
      · rw [List.mem_singleton.1 hmem, hborn]
    exact ⟨hat.lt, hat.writable, hat.beyond, hat.below, hat.above, hat.head, hat.onePass⟩
  · intro ho
    have hpieces := piecesAt_alter c h (fun f => f.append ⟨data, c.pass, c.appended⟩) [⟨data, c.pass, c.appended⟩]
      (fun _ _ => rfl) (fun hnone => by rw [hg] at hnone; cases hnone)
    refine (hinv.ordered ho).gain hinv.at_.lt (fun i hi => ?_) hpieces (fun hnone => ?_) rfl rfl (Nat.le_succ _)
      (List.pairwise_singleton _ _) ?_
    · simp only [Card.append, alter_slots, if_neg hi]
    · rw [hg] at hnone; cases hnone
    · intro p hp
      rw [List.mem_singleton.1 hp]
      exact ⟨le_refl _, Nat.lt_succ_self _⟩

/-! ## The index -/

theorem readLogIndex_lt (hn : 0 < n) (index : Option (List UInt8)) : readLogIndex n index < n := by
  unfold readLogIndex
  split
  · exact hn
  · dsimp only
    split <;> omega

omit [Payload κ] in
theorem readLogIndex_create (c : Card κ) :
    readLogIndex n c.createIndex.index = readLogIndex n c.index := by
  cases hc : c.index with
  | none => simp [Card.createIndex, hc, readLogIndex, indexValue, LittleEndian.toNat]
  | some bytes => simp [Card.createIndex, hc]

omit [Payload κ] in
theorem readLogIndex_overwrite (hh : h < n) (hn : n < 2 ^ 31) (hsome : c.index.isSome) :
    readLogIndex n (c.overwriteIndex h).index = h := by
  obtain ⟨bytes, hc⟩ := Option.isSome_iff_exists.1 hsome
  simp only [Card.overwriteIndex, hc, Option.map_some, readLogIndex, indexValue_indexBytes (show h < 2 ^ 31 by omega)]
  rw [if_neg (by omega), Int.toNat_natCast]

theorem Inv.index {o : Prop} (hinv : Inv o n size c h) {index : Option (List UInt8)}
    (hidx : readLogIndex n index = readLogIndex n c.index ∨ readLogIndex n index = h) :
    Inv o n size { c with index } h := by
  have hat := hinv.at_
  refine ⟨⟨hat.lt, hat.writable, hat.beyond, hat.below, ?_, hat.head, hat.onePass⟩, fun ho => ?_⟩
  · refine hat.above.imp_right fun hlap => ⟨hlap.1, ?_⟩
    change readLogIndex n index ≤ h
    rcases hidx with hsame | hnew
    · rw [hsame]; exact hlap.2
    · omega
  · have hord := hinv.ordered ho
    refine ⟨?_, hord.sorted, hord.past⟩
    change readLogIndex n index = h ∨ _ ∧ (readLogIndex n index + 1) % n = h
    rcases hidx with hsame | hnew
    · rw [hsame]; exact hord.index
    · exact Or.inl hnew

/-! ## Opening and moving on -/

omit [Payload κ] in
theorem remove_slots (c : Card κ) (d i : Nat) : (c.remove d).slots i = if i = d then none else c.slots i := by
  simp only [Card.remove, Function.update_apply]

omit [Payload κ] in
theorem remove_absent {d : Nat} (hnone : c.slots d = none) : c.remove d = c := by
  have hslots : Function.update c.slots d none = c.slots := by rw [← hnone, Function.update_eq_self]
  simp [Card.remove, hnone, hslots]

/-- Opening the slot the ring is at: the file it holds goes on in its pass, and a new one begins one. -/
theorem Inv.openSlot {o : Prop} (hinv : Inv o n size c h) (hidx : readLogIndex n c.index = h) :
    Inv o n size (c.openSlot h) h ∧ ((c.openSlot h).slots h).isSome := by
  have hat := hinv.at_
  cases hs : c.slots h with
  | some f =>
    obtain ⟨hlast, hborn⟩ := hat.head f hs
    have hsame : c.openSlot h = c := by
      rw [Card.openSlot, hs, hlast]
      cases c
      simp only at hlast
      simp [hlast]
    rw [hsame, hs]
    exact ⟨hinv, rfl⟩
  | none =>
    have hopen : c.openSlot h = { c with
        slots := Function.update c.slots h (some { born := c.pass + 1 }), pass := c.pass + 1, lastSlot := some h } := by
      rw [Card.openSlot, hs]
    have hslot : ∀ i, (c.openSlot h).slots i = if i = h then some { born := c.pass + 1 } else c.slots i := fun i => by
      rw [hopen]; exact Function.update_apply ..
    refine ⟨⟨?_, fun ho => ?_⟩, by rw [hslot, if_pos rfl]; rfl⟩
    · rw [hopen] at hslot ⊢
      refine ⟨hat.lt, hat.writable, fun i hi => ?_, fun i hi => ?_, ?_, fun f hf => ?_, fun i f hf p hp => ?_⟩
      · rw [hslot, if_neg (by have := hat.lt; omega), hat.beyond i hi]
      · exact (hat.below i hi).congr (by rw [hslot, if_neg (by omega)])
      · refine hat.above.imp (fun hfull i hi hn => (hfull i hi hn).congr (by rw [hslot, if_neg (by omega)])) ?_
        exact fun hlap => ⟨fun i hi => by rw [hslot, if_neg (by omega), hlap.1 i hi], hlap.2⟩
      · rw [hslot, if_pos rfl] at hf
        cases hf; exact ⟨rfl, rfl⟩
      · rw [hslot] at hf
        split at hf
        · cases hf; simp at hp
        · exact hat.onePass i f hf p hp
    · have hord := hinv.ordered ho
      have hoth : (others n h).flatMap (c.openSlot h).piecesAt = (others n h).flatMap c.piecesAt :=
        others_congr hat.lt fun i hi => by rw [hslot, if_neg hi]
      have hread : (c.openSlot h).readRing n h = c.readRing n h := by
        rw [readRing_split, readRing_split, hoth]
        simp only [Card.piecesAt, hslot, if_true, hs]
      rw [hopen] at hread ⊢
      exact ⟨Or.inl hidx, by rw [hread]; exact hord.sorted, by rw [hread]; exact hord.past⟩

/-- The ring moves on from a full file: the one after it goes, and is where the log is now. With
every slot full it may move on from any of them. -/
theorem At.remove (hat : At n size c h) {r : Nat} (hr : r < n)
    (hcase : r = h ∧ Full size c h ∨ ∀ i < n, Full size c i) : At n size (c.remove ((r + 1) % n)) ((r + 1) % n) := by
  have hd : (r + 1) % n < n := Nat.mod_lt _ (by omega)
  have hother : ∀ i ≠ (r + 1) % n, (c.remove ((r + 1) % n)).slots i = c.slots i := fun i hi => by
    rw [remove_slots, if_neg hi]
  have hgone : (c.remove ((r + 1) % n)).slots ((r + 1) % n) = none := by rw [remove_slots, if_pos rfl]
  -- what does not depend on where the ring is
  have hbeyond : ∀ i, n ≤ i → (c.remove ((r + 1) % n)).slots i = none := fun i hi => by
    rw [hother i (by omega), hat.beyond i hi]
  have honePass : ∀ i f, (c.remove ((r + 1) % n)).slots i = some f → ∀ p ∈ f.pieces, p.pass = f.born := by
    intro i f hf
    rw [remove_slots] at hf
    split at hf
    · cases hf
    · exact hat.onePass i f hf
  by_cases hall : ∀ i < n, Full size c i
  · refine ⟨hd, hat.writable, hbeyond, fun i hi => ?_, Or.inl fun i hi hn => ?_, fun f hf => ?_, honePass⟩
    · exact (hall i (by omega)).congr (hother i (by omega))
    · exact (hall i hn).congr (hother i (by omega))
    · rw [hgone] at hf; cases hf
  · obtain ⟨rfl, hfull⟩ := hcase.resolve_right hall
    -- not every slot is full, so this is the first lap and the next slot is absent
    have hnext : r + 1 < n ∧ (∀ i, r < i → c.slots i = none) ∧ readLogIndex n c.index ≤ r := by
      have hlt : r + 1 < n := by
        by_contra hge
        exact hall fun i hi => (Nat.lt_or_ge i r).elim (hat.below i) fun hir => (show r = i by omega) ▸ hfull
      refine ⟨hlt, hat.above.resolve_left fun habove => hall fun i hi => ?_⟩
      rcases Nat.lt_trichotomy i r with hir | rfl | hir
      · exact hat.below i hir
      · exact hfull
      · exact habove i hir hi
    rw [Nat.mod_eq_of_lt hnext.1] at hother hgone hbeyond honePass ⊢
    refine ⟨hnext.1, hat.writable, hbeyond, fun i hi => ?_, Or.inr ⟨fun i hi => ?_, ?_⟩, fun f hf => ?_, honePass⟩
    · refine Full.congr ?_ (hother i (by omega))
      exact (Nat.lt_or_ge i r).elim (hat.below i) fun hir => (show r = i by omega) ▸ hfull
    · rw [hother i (by omega), hnext.2.1 i (by omega)]
    · exact le_trans hnext.2.2 (Nat.le_succ r)
    · rw [hgone] at hf; cases hf

theorem Inv.remove {o : Prop} (hinv : Inv o n size c h) {r : Nat} (hr : r < n) (hord : o → r = h)
    (hcase : r = h ∧ Full size c h ∨ ∀ i < n, Full size c i) :
    Inv o n size (c.remove ((r + 1) % n)) ((r + 1) % n) := by
  refine ⟨hinv.at_.remove hr hcase, fun ho => ?_⟩
  obtain rfl := hord ho
  have hold := hinv.ordered ho
  have hd : (r + 1) % n < n := Nat.mod_lt _ (by omega)
  obtain ⟨f, hf, -⟩ : Full size c r := hcase.elim And.right fun hall => hall r hr
  have hidx : readLogIndex n c.index = r := hold.index.resolve_right fun hnone => by rw [hf] at hnone; cases hnone.1
  -- the file that goes is the first in ring order, right behind what went before
  have hread : (c.remove ((r + 1) % n)).deleted ++ (c.remove ((r + 1) % n)).readRing n ((r + 1) % n) =
      c.deleted ++ c.readRing n r := by
    have hoth : (others n ((r + 1) % n)).flatMap (c.remove ((r + 1) % n)).piecesAt =
        (others n ((r + 1) % n)).flatMap c.piecesAt := others_congr hd fun i hi => by rw [remove_slots, if_neg hi]
    have hgone : (c.remove ((r + 1) % n)).piecesAt ((r + 1) % n) = [] := by
      simp only [Card.piecesAt, remove_slots, if_true]
    rw [readRing_next hr, readRing_split, hoth, hgone, List.append_nil, ← List.append_assoc]
    rfl
  refine ⟨Or.inr ⟨by rw [remove_slots, if_pos rfl], congrArg (fun i => (i + 1) % n) hidx⟩, ?_, ?_⟩
  · rw [hread]; exact hold.sorted
  · rw [hread]; exact hold.past

end BoredomOS.Storage
