/-
A restart on a lost or stale index, any number of times over. The sizes alone tell `begin()` where
the log is: it resumes the one file that is not full, or opens the first absent slot behind the
full ones it passed, and leaves every other file as it was; only with every slot full does a file
go, the one after the index it read.
-/
import BoredomOS.Storage.Crash

namespace BoredomOS.Storage

open Steps

variable {κ : Type} [Payload κ] {n size : Nat}

/-- The payloads of the file in a slot. -/
def Card.payloadsAt (c : Card κ) (i : Nat) : List κ := (c.piecesAt i).map Piece.payload

/-- What `begin()` made of the closed card `c`: it uses the slot `d` of the card `c'`, and `extra` is
what the callback wrote there. -/
structure Resumed (n size : Nat) (c c' : Card κ) (d : Nat) (extra : List κ) : Prop where
  named : readLogIndex n c'.index = d
  others : ∀ i, i ≠ d → c'.slots i = c.slots i
  /-- nothing is appended to a full file -/
  full_kept : ∀ i f, c.slots i = some f → size ≤ f.size →
    c'.slots i = some f ∨ i = d ∧ ∀ j < n, ∃ g, c.slots j = some g ∧ size ≤ g.size
  /-- a file that is not full is the one to go on in -/
  partly_full : ∀ i f, c.slots i = some f → f.size < size →
    d = i ∧ c'.payloadsAt d = c.payloadsAt i ++ extra ∧ c'.deleted = c.deleted
  /-- with none, an absent slot is opened: the first one behind the full slots from the index on -/
  absent : (∀ i f, c.slots i = some f → size ≤ f.size) → (∃ i < n, c.slots i = none) →
    (∃ k < n, d = (readLogIndex n c.index + k) % n ∧
      ∀ j < k, ∃ f, c.slots ((readLogIndex n c.index + j) % n) = some f ∧ size ≤ f.size) ∧
    c.slots d = none ∧ c'.payloadsAt d = extra ∧ c'.deleted = c.deleted
  /-- with every slot full, the file after the indexed one is deleted and started again -/
  all_full : (∀ i < n, ∃ f, c.slots i = some f ∧ size ≤ f.size) →
    d = (readLogIndex n c.index + 1) % n ∧ c'.payloadsAt d = extra ∧ c'.deleted = c.deleted ++ c.piecesAt d

theorem full_size {c : Card κ} (hclosed : Closed c) {i : Nat} :
    Full size c i ↔ ∃ f, c.slots i = some f ∧ size ≤ f.size := by
  constructor
  · rintro ⟨f, hf, -, hsize⟩; exact ⟨f, hf, hsize⟩
  · rintro ⟨f, hf, hsize⟩; exact ⟨f, hf, hclosed i f hf, hsize⟩

omit [Payload κ] in
theorem payloadsAt_absent {c : Card κ} {i : Nat} (hnone : c.slots i = none) : c.payloadsAt i = [] := by
  simp [Card.payloadsAt, Card.piecesAt, hnone]

/-- The slot that is not full is the ring's head: the others are full or absent. -/
theorem resumed_of_outcome {c c' : Card κ} {h d : Nat} {extra : List κ} (hat : At n size c h)
    (hclosed : Closed c) (hnamed : readLogIndex n c'.index = d) (hout : Outcome n size c c' d extra) :
    Resumed n size c c' d extra := by
  have hr : readLogIndex n c.index < n := readLogIndex_lt (by have := hat.lt; omega) _
  rcases hout with ⟨k, hk, hd, hnot, hbefore, hg⟩ | ⟨hall, hd, hg⟩
  · refine ⟨hnamed, hg.others, fun i f hf hlarge => ?_, fun i f hf hsmall => ?_, fun hlarge _ => ?_, fun hall => ?_⟩
    · by_cases hi : i = d
      · exact absurd ((full_size hclosed).2 ⟨f, hi ▸ hf, hlarge⟩) hnot
      · exact Or.inl ((hg.others i hi).trans hf)
    · have hpart : ¬ Full size c i := fun hfull => by
        obtain ⟨g, hg', hsize⟩ := (full_size hclosed).1 hfull
        rw [hf] at hg'; cases hg'; omega
      have hih : i = h := by
        by_contra hne
        exact (hat.other hne).elim hpart fun hnone => by rw [hf] at hnone; cases hnone
      have hdi : d = i := by
        rw [hd, hih]
        exact (resume_at hat hk (hd ▸ hnot) hbefore).resolve_right fun hnext => hpart (hih ▸ hnext.1)
      subst hdi
      exact ⟨rfl, hg.file, hg.deleted⟩
    · have hnone : c.slots d = none := by
        cases hs : c.slots d with
        | none => rfl
        | some f => exact absurd ((full_size hclosed).2 ⟨f, hs, hlarge d f hs⟩) hnot
      refine ⟨⟨k, hk, hd, fun j hj => (full_size hclosed).1 (hbefore j hj)⟩, hnone, ?_, hg.deleted⟩
      have := hg.file
      rwa [← Card.payloadsAt, ← Card.payloadsAt, payloadsAt_absent hnone] at this
    · exact absurd ((full_size hclosed).2 (hall d (hd ▸ Nat.mod_lt _ (by omega)))) hnot
  · have hfile : ∀ i f, c.slots i = some f → size ≤ f.size := fun i f hf => by
      have hi : i < n := by
        by_contra hge
        rw [hat.beyond i (by omega)] at hf; cases hf
      obtain ⟨g, hg', hsize⟩ := (full_size hclosed).1 (hall i hi)
      rw [hf] at hg'; cases hg'; exact hsize
    have hgone : (c.remove d).slots d = none := by rw [remove_slots, if_pos rfl]
    refine ⟨hnamed, fun i hi => ?_, fun i f hf _ => ?_, fun i f hf hsmall => ?_, fun _ habs => ?_,
      fun _ => ⟨hd, ?_, hg.deleted⟩⟩
    · rw [hg.others i hi, remove_slots, if_neg hi]
    · by_cases hi : i = d
      · exact Or.inr ⟨hi, fun j hj => (full_size hclosed).1 (hall j hj)⟩
      · exact Or.inl (by rw [hg.others i hi, remove_slots, if_neg hi, hf])
    · exact absurd (hfile i f hf) (by omega)
    · obtain ⟨i, hi, hnone⟩ := habs
      obtain ⟨g, hg', -⟩ := hall i hi
      rw [hnone] at hg'; cases hg'
    · have := hg.file
      rwa [← Card.payloadsAt, ← Card.payloadsAt, payloadsAt_absent hgone] at this

/-! ## Any number of damaged restarts -/

/-- What holds of a board at some point of its life, damaged indexes included: no file holds two
passes, at no point of the next operation either, and a restart now goes on where the files say. -/
structure SelfRepairing (n size : Nat) (r : Rig κ) : Prop where
  onePass : OnePass r.card
  onePass_within : ∀ op, ∀ p ∈ r.within n size op, OnePass p.card
  restart : r.data = none → ∀ onOpen r', r.step n size (.op (.begin onOpen)) = some r' → ∃ d,
    r'.data.map SdData.fileIdx = some d ∧ Resumed n size r.card r'.card d (onOpen.flatMap appended)

theorem restart_resumes {o : Prop} (hmax : n < 2 ^ 31) {r r' : Rig κ} (hok : RigOk o n size r) (hoff : r.data = none)
    {onOpen : List (Option κ)} (hstep : r.step n size (.op (.begin onOpen)) = some r') : ∃ d,
      r'.data.map SdData.fileIdx = some d ∧ Resumed n size r.card r'.card d (onOpen.flatMap appended) := by
  unfold RigOk at hok
  rw [hoff] at hok
  obtain ⟨h, hinv, hclosed⟩ := hok
  simp only [Rig.step, Rig.start, hoff, Option.getD_none, Option.map_some, Option.some.injEq] at hstep
  subst hstep
  obtain ⟨d, hl, hout⟩ := ((Prog.wp_iff _ _).1
    (wp_begin (s := ⟨r.card, { files := n, size := size }⟩) hmax onOpen hinv (Or.inl ⟨rfl, hclosed⟩) rfl rfl)).2
  rw [close_of_none rfl] at hout
  refine ⟨d, ?_, resumed_of_outcome hinv.at_ hclosed hl.named hout⟩
  exact congrArg some hl.fileIdx

/-- Whatever the restarts, writes and power cuts from an empty card, and however often the index is
lost or goes stale in between. -/
theorem ring_self_repairing (hn : 0 < n) (hmax : n < 2 ^ 31) (es : List (Ev κ)) (r : Rig κ)
    (hrun : Runs.run (Rig.step n size) { card := {} } es = some r) : SelfRepairing n size r := by
  have hok : RigOk False n size r := rigOk_run hmax (rigOk_empty hn) False.elim hrun
  exact ⟨hok.onePass, hok.onePass_within hmax, fun hoff onOpen r' hstep => restart_resumes hmax hok hoff hstep⟩

/-- The index lost with the ring at its second file. -/
def loseIndex : List (Ev (List UInt8)) :=
  [.op (.begin []), .op (.write (some [1, 2]) []), .op (.write (some [3]) []), .cut, .damage none]

theorem ring_self_repairing_loseIndex :
    ∃ r, Runs.run (Rig.step 2 2) { card := {} } loseIndex = some r ∧ SelfRepairing 2 2 r :=
  ⟨_, rfl, ring_self_repairing (by decide) (by decide) loseIndex _ rfl⟩

end BoredomOS.Storage
