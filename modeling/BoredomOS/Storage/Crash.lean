/-
Crash safety of the ring: over any run of restarts, writes and power cuts, the cuts placed between
any two operations of the card, no file holds two passes, every file but the current one is full,
and the files read in ring order continue what was deleted, in the order of the appends.
-/
import BoredomOS.Lib.Runs
import BoredomOS.Storage.Programs

namespace BoredomOS.Storage

open Steps

variable {κ : Type} [Payload κ] {o : Prop} {n size : Nat}

/-! ## The invariant of a run -/

/-- Off, the card holds a ring with every file synced; running, the object writes its head. -/
def RigOk (o : Prop) (n size : Nat) (r : Rig κ) : Prop :=
  match r.data with
  | none => ∃ h, Inv o n size r.card h ∧ Closed r.card
  | some d => ∃ h, Live o n size ⟨r.card, d⟩ h

theorem rigOk_empty (hn : 0 < n) : RigOk o n size ({ card := {} } : Rig κ) := by
  have hring : ({} : Card κ).readRing n 0 = [] := by
    rw [readRing_split]
    simp [Card.piecesAt]
  refine ⟨0, ⟨⟨hn, rfl, fun _ _ => rfl, fun i hi => absurd hi (by omega), Or.inr ⟨fun _ _ => rfl, Nat.le_refl _⟩,
    fun f hf => (by cases hf), fun i f hf => (by cases hf)⟩, fun _ => ⟨Or.inl rfl, ?_, ?_⟩⟩, fun i f hf => by cases hf⟩
  · rw [hring]; exact List.Pairwise.nil
  · rw [hring]; simp

/-- An operation, from where it starts: every point of it is a ring, and its end is a running one. -/
theorem wp_op (hn : n < 2 ^ 31) {r : Rig κ} (hok : RigOk o n size r) (op : Op κ) {s : Sys κ}
    (hs : r.start n size op = some s) :
    Prog.wp (Crash o n size) op.prog (fun _ s' => ∃ h, Live o n size s' h) s := by
  cases op with
  | begin onOpen =>
    simp only [Rig.start, Option.some.injEq] at hs
    subst hs
    unfold RigOk at hok
    split at hok
    · rename_i hd
      obtain ⟨h, hinv, hclosed⟩ := hok
      rw [hd, Option.getD_none]
      exact Prog.wp_mono (fun _ hc => hc) (fun _ _ hs' => hs'.imp fun _ h' => h'.1) _ _
        (wp_begin hn onOpen hinv (Or.inl ⟨rfl, hclosed⟩) rfl rfl)
    · rename_i d hd
      obtain ⟨h, hl⟩ := hok
      rw [hd, Option.getD_some]
      exact Prog.wp_mono (fun _ hc => hc) (fun _ _ hs' => hs'.imp fun _ h' => h'.1) _ _
        (wp_begin hn onOpen hl.inv hl.held hl.files hl.limit)
  | write data onOpen =>
    obtain ⟨d, hd, rfl⟩ := Option.map_eq_some_iff.1 hs
    unfold RigOk at hok
    rw [hd] at hok
    obtain ⟨h, hl⟩ := hok
    exact wp_write hn data onOpen hl

theorem rigOk_cut {r : Rig κ} (hok : RigOk o n size r) : RigOk o n size { card := r.card.cut } := by
  unfold RigOk at hok
  split at hok
  · obtain ⟨h, hinv, -⟩ := hok
    exact ⟨h, hinv.cut, closed_cut _⟩
  · obtain ⟨h, hl⟩ := hok
    exact ⟨h, hl.inv.cut, closed_cut _⟩

/-- A lost or stale index leaves the files where they were, and points past the first lap nowhere. -/
theorem rigOk_damage (ho : ¬ o) {r : Rig κ} (hok : RigOk o n size r) (hoff : r.data = none)
    {index : Option (List UInt8)} (hdam : lostOrStale n size r.card index = true) :
    RigOk o n size { r with card := { r.card with index } } := by
  unfold RigOk at hok ⊢
  rw [hoff] at hok
  simp only [hoff]
  obtain ⟨h, hinv, hclosed⟩ := hok
  have hat := hinv.at_
  refine ⟨h, ⟨⟨hat.lt, hat.writable, hat.beyond, hat.below, ?_, hat.head, hat.onePass⟩, fun h' => absurd h' ho⟩, hclosed⟩
  refine hat.above.imp_right fun hlap => ⟨hlap.1, ?_⟩
  -- the index reads as 0 or as a full slot, and on the first lap these are not past `h`
  change readLogIndex n index ≤ h
  cases index with
  | none => exact Nat.zero_le _
  | some bytes =>
    simp only [lostOrStale, Bool.or_eq_true, decide_eq_true_eq, List.isEmpty_iff] at hdam
    simp only [readLogIndex]
    split
    · exact Nat.zero_le _
    rename_i hrange
    rcases hdam with ((hnil | hneg) | hbig) | hfull
    · rw [hnil] at hrange ⊢
      exact Nat.zero_le _
    · exact absurd (Or.inl hneg) hrange
    · exact absurd (Or.inr hbig) hrange
    · by_contra hgt
      obtain ⟨f, hf, -⟩ := (slotIsFull_iff hclosed _).1 hfull
      rw [hlap.1 _ (by omega)] at hf
      cases hf

def Ev.isDamage : Ev κ → Bool
  | .damage _ => true
  | _ => false

theorem rigOk_step (hmax : n < 2 ^ 31) {r r' : Rig κ} {e : Ev κ} (hok : RigOk o n size r)
    (hdam : o → e.isDamage = false) (hstep : r.step n size e = some r') : RigOk o n size r' := by
  cases e with
  | op op =>
    obtain ⟨s, hs, rfl⟩ := Option.map_eq_some_iff.1 hstep
    exact ((Prog.wp_iff _ _).1 (wp_op hmax hok op hs)).2
  | cutIn op point =>
    obtain ⟨s, hs, hstep⟩ := Option.bind_eq_some_iff.1 hstep
    obtain ⟨p, hp, rfl⟩ := Option.map_eq_some_iff.1 hstep
    obtain ⟨h, hinv⟩ := ((Prog.wp_iff _ _).1 (wp_op hmax hok op hs)).1 p (List.mem_of_getElem? hp)
    exact ⟨h, hinv.cut, closed_cut _⟩
  | cut => cases hstep; exact rigOk_cut hok
  | damage index =>
    simp only [Rig.step] at hstep
    split at hstep
    · rename_i hcond
      cases hstep
      simp only [Bool.and_eq_true, Option.isNone_iff_eq_none] at hcond
      refine rigOk_damage (fun ho => ?_) hok hcond.1 hcond.2
      cases hdam ho
    · cases hstep

theorem rigOk_run (hmax : n < 2 ^ 31) : ∀ {es : List (Ev κ)} {r r' : Rig κ}, RigOk o n size r →
    (o → ∀ e ∈ es, e.isDamage = false) → Runs.run (Rig.step n size) r es = some r' → RigOk o n size r'
  | [], _, _, hok, _, hrun => by cases hrun; exact hok
  | e :: es, r, _, hok, hdam, hrun => by
    obtain ⟨m, hm, hrun⟩ := Option.bind_eq_some_iff.1 hrun
    refine rigOk_run hmax ?_ (fun ho e' he' => hdam ho e' (List.mem_cons_of_mem _ he')) hrun
    exact rigOk_step hmax hok (fun ho => hdam ho e (List.mem_cons_self ..)) hm

/-! ## What a run keeps -/

/-- No file holds pieces of two passes. -/
def OnePass (c : Card κ) : Prop := ∀ i f, c.slots i = some f → ∀ p ∈ f.pieces, ∀ q ∈ f.pieces, p.pass = q.pass

theorem Inv.onePass {c : Card κ} {h : Nat} (hinv : Inv o n size c h) : OnePass c := fun i f hf p hp q hq =>
  (hinv.at_.onePass i f hf p hp).trans (hinv.at_.onePass i f hf q hq).symm

/-- The ring of a board at some point of its life, and the points of the operation it does next. -/
structure CrashSafe (n size : Nat) (r : Rig κ) : Prop where
  onePass : OnePass r.card
  onePass_within : ∀ op, ∀ p ∈ r.within n size op, OnePass p.card
  others_full : ∀ d, r.data = some d → ∀ i f, r.card.slots i = some f → i ≠ d.fileIdx → size ≤ f.size
  all_read : ∀ i f, r.card.slots i = some f → i < n
  in_order : ∀ d, r.data = some d →
    (r.card.deleted ++ r.card.readRing n d.fileIdx).Pairwise fun a b => a.seq < b.seq

theorem RigOk.onePass {r : Rig κ} (hok : RigOk o n size r) : OnePass r.card := by
  unfold RigOk at hok
  split at hok
  · obtain ⟨h, hinv, -⟩ := hok; exact hinv.onePass
  · obtain ⟨h, hl⟩ := hok; exact hl.inv.onePass

theorem RigOk.onePass_within (hmax : n < 2 ^ 31) {r : Rig κ} (hok : RigOk o n size r) (op : Op κ) :
    ∀ p ∈ r.within n size op, OnePass p.card := by
  intro p hp
  unfold Rig.within at hp
  split at hp
  · rename_i s hs
    obtain ⟨h, hinv⟩ := ((Prog.wp_iff _ _).1 (wp_op hmax hok op hs)).1 p hp
    exact hinv.onePass
  · cases hp

/-- Whatever the restarts, writes and power cuts, from an empty card. -/
theorem ring_crash_safe (hn : 0 < n) (hmax : n < 2 ^ 31) (es : List (Ev κ)) (r : Rig κ)
    (hes : ∀ e ∈ es, e.isDamage = false) (hrun : Runs.run (Rig.step n size) { card := {} } es = some r) :
    CrashSafe n size r := by
  have hok : RigOk True n size r := rigOk_run hmax (rigOk_empty hn) (fun _ => hes) hrun
  refine ⟨hok.onePass, hok.onePass_within hmax, fun d hd i f hf hne => ?_, fun i f hf => ?_, fun d hd => ?_⟩
  · unfold RigOk at hok
    rw [hd] at hok
    obtain ⟨h, hl⟩ := hok
    rw [hl.fileIdx] at hne
    rcases hl.inv.at_.other hne with ⟨g, hg, -, hsize⟩ | hnone
    · rw [hf] at hg; cases hg; exact hsize
    · rw [hf] at hnone; cases hnone
  · have hbeyond : ∀ h, At n size r.card h → i < n := fun h hat => by
      by_contra hge
      rw [hat.beyond i (by omega)] at hf
      cases hf
    unfold RigOk at hok
    split at hok
    · obtain ⟨h, hinv, -⟩ := hok; exact hbeyond h hinv.at_
    · obtain ⟨h, hl⟩ := hok; exact hbeyond h hl.inv.at_
  · unfold RigOk at hok
    rw [hd] at hok
    obtain ⟨h, hl⟩ := hok
    have := (hl.inv.ordered trivial).sorted
    rwa [← hl.fileIdx] at this

/-- Two files of one byte: a write that rotates, a cut in the next rotation once the older file is
gone, and the restart behind it. -/
def rotateAndCut : List (Ev (List UInt8)) :=
  [.op (.begin []), .op (.write (some [1]) []), .cutIn (.write (some [2]) []) 12, .op (.begin [])]

theorem ring_crash_safe_rotateAndCut :
    ∃ r, Runs.run (Rig.step 2 1) { card := {} } rotateAndCut = some r ∧ CrashSafe 2 1 r :=
  ⟨_, rfl, ring_crash_safe (by decide) (by decide) rotateAndCut _ (by decide) rfl⟩

end BoredomOS.Storage
