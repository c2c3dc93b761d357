/-
The ring as a log. Read in ring order behind what was deleted, the files are a journal: each operation
appends what it hands on, a power cut takes no more than what was not yet synced, and what goes is the oldest.
Once anything has gone, every file but one is full.
-/
import Mathlib.Algebra.Order.BigOperators.Group.Finset
import BoredomOS.Lib.Journal
import BoredomOS.Storage.Head
import BoredomOS.Storage.Tail

namespace BoredomOS.Storage

open Steps

variable {κ : Type} [Payload κ] {n size : Nat}

/-! ## The log on the card -/

/-- All that was logged and not lost in a cut, from the oldest on, deleted or not. -/
def Card.logged (c : Card κ) (n h : Nat) : List κ := (c.deleted ++ c.readRing n h).map Piece.payload

/-- Once anything has gone, every file but the one at the head is full. -/
def Lapped (n size : Nat) (c : Card κ) (h : Nat) : Prop := c.deleted = [] ∨ ∀ i < n, i ≠ h → Full size c i

omit [Payload κ] in
theorem logged_split (c : Card κ) (n h : Nat) :
    c.logged n h = (c.deleted ++ (others n h).flatMap c.piecesAt).map Piece.payload ++ (c.piecesAt h).map Piece.payload := by
  rw [Card.logged, readRing_split, ← List.append_assoc, List.map_append]

omit [Payload κ] in
/-- What is appended to the file at the head is appended to the log. -/
theorem logged_head (c c' : Card κ) {h : Nat} (hh : h < n) (hother : ∀ i ≠ h, c'.slots i = c.slots i)
    (hdeleted : c'.deleted = c.deleted) {new : List (Piece κ)} (hhead : c'.piecesAt h = c.piecesAt h ++ new) {ys : List κ}
    (hnew : new.map Piece.payload = ys) : c'.logged n h = c.logged n h ++ ys := by
  rw [logged_split, logged_split, others_congr hh hother, hdeleted, hhead, @List.map_append _ _ _ (c.piecesAt h), hnew,
    List.append_assoc]

omit [Payload κ] in
/-- Emptying the slot after the head takes the oldest away and leaves the log. -/
theorem logged_advance {c : Card κ} {h : Nat} (hh : h < n) :
    (c.remove ((h + 1) % n)).logged n ((h + 1) % n) = c.logged n h := by
  have hd : (h + 1) % n < n := Nat.mod_lt _ (by omega)
  have hoth : (others n ((h + 1) % n)).flatMap (c.remove ((h + 1) % n)).piecesAt =
      (others n ((h + 1) % n)).flatMap c.piecesAt := others_congr hd fun i hi => by rw [remove_slots, if_neg hi]
  have hgone : (c.remove ((h + 1) % n)).piecesAt ((h + 1) % n) = [] := by
    simp only [Card.piecesAt, remove_slots, if_true]
  rw [Card.logged, Card.logged, readRing_next hh, readRing_split, hoth, hgone, List.append_nil, ← List.append_assoc]
  rfl

omit [Payload κ] in
/-- Opening a slot may create an empty file there. -/
theorem openSlot_kept (c : Card κ) (h : Nat) : (∀ i ≠ h, (c.openSlot h).slots i = c.slots i) ∧
    (c.openSlot h).deleted = c.deleted ∧ (c.openSlot h).piecesAt h = c.piecesAt h ∧
      (c.openSlot h).cut.piecesAt h = c.cut.piecesAt h := by
  unfold Card.openSlot
  cases hs : c.slots h with
  | some f => exact ⟨fun _ _ => rfl, rfl, rfl, rfl⟩
  | none => simp +contextual [Card.piecesAt, cut_slots, hs, File.cut]

theorem headStep_logged {c c' : Card κ} {h h' : Nat} {ys : List κ} (hinv : Inv True n size c h)
    (hs : HeadStep n size c h ys c' h') : c'.logged n h' = c.logged n h ++ ys := by
  have hh := hinv.at_.lt
  cases hs with
  | sync =>
    have hpieces := piecesAt_alter c h File.sync [] (fun _ _ => (List.append_nil _).symm) fun _ => rfl
    refine logged_head c (c.sync h) hh (fun i hi => ?_) rfl hpieces rfl
    rw [Card.sync, alter_slots, if_neg hi]
  | append d slot =>
    have hpieces := piecesAt_alter c h (fun f => f.append ⟨d, c.pass, c.appended⟩) [⟨d, c.pass, c.appended⟩]
      (fun _ _ => rfl) fun hnone => by rw [hnone] at slot; cases slot
    refine logged_head c (c.append h d) hh (fun i hi => ?_) rfl hpieces rfl
    simp only [Card.append, alter_slots, if_neg hi]
  | index index read => rw [List.append_nil]; rfl
  | openSlot read =>
    obtain ⟨hother, hdeleted, hhead, -⟩ := openSlot_kept c h
    exact logged_head c _ hh hother hdeleted (hhead.trans (List.append_nil _).symm) rfl
  | advance full => rw [List.append_nil]; exact logged_advance hh

/-! ## What a cut leaves of it -/

/-- Only the file at the head loses anything in a cut. -/
theorem logged_cut {c : Card κ} {h : Nat} (hat : At n size c h) :
    c.cut.logged n h = (c.deleted ++ (others n h).flatMap c.piecesAt).map Piece.payload ++
      (c.cut.piecesAt h).map Piece.payload := by
  rw [logged_split, others_congr hat.lt fun i hi => hat.cut_other hi]
  rfl

theorem logged_cut_le {c : Card κ} {h : Nat} (hat : At n size c h) : c.cut.logged n h <+: c.logged n h := by
  rw [logged_cut hat, logged_split]
  refine (List.prefix_append_right_inj _).2 (List.IsPrefix.map _ ?_)
  simp only [Card.piecesAt, cut_slots]
  cases c.slots h with
  | none => exact List.prefix_refl _
  | some f => exact List.take_prefix _ _

/-- With the head synced to its end a cut takes nothing. -/
theorem logged_cut_of_synced {c : Card κ} {h : Nat} (hat : At n size c h)
    (hsynced : ∀ f, c.slots h = some f → f.synced = f.pieces.length) : c.cut.logged n h = c.logged n h := by
  rw [logged_cut hat, logged_split]
  have hhead : c.cut.piecesAt h = c.piecesAt h := by
    simp only [Card.piecesAt, cut_slots]
    cases hs : c.slots h with
    | none => rfl
    | some f => rw [Option.map_some, File.cut_of_synced (hsynced f hs)]
  rw [hhead]

/-- More of the head synced is more of the log. -/
theorem logged_cut_head {c c' : Card κ} {h : Nat} (hat : At n size c h) (hat' : At n size c' h)
    (hother : ∀ i ≠ h, c'.slots i = c.slots i) (hdeleted : c'.deleted = c.deleted)
    (hhead : c.cut.piecesAt h <+: c'.cut.piecesAt h) : c.cut.logged n h <+: c'.cut.logged n h := by
  rw [logged_cut hat, logged_cut hat', others_congr hat.lt hother, hdeleted]
  exact (List.prefix_append_right_inj _).2 (hhead.map _)

/-- What a cut would leave, a cut after one more operation leaves as well. -/
theorem headStep_cut {c c' : Card κ} {h h' : Nat} {ys : List κ} (hinv : Inv True n size c h)
    (hs : HeadStep n size c h ys c' h') : c.cut.logged n h <+: c'.cut.logged n h' := by
  have hat := hinv.at_
  have hlogged := headStep_logged hinv hs
  have hinv' := hs.inv hinv
  cases hs with
  | sync =>
    have hsynced : ∀ f, (c.sync h).slots h = some f → f.synced = f.pieces.length := by
      intro f hf
      rw [Card.sync, alter_slots, if_pos rfl] at hf
      obtain ⟨g, -, rfl⟩ := Option.map_eq_some_iff.1 hf
      rfl
    rw [logged_cut_of_synced hinv'.at_ hsynced, hlogged, List.append_nil]
    exact logged_cut_le hat
  | append d slot =>
    refine logged_cut_head hat hinv'.at_ (fun i hi => ?_) rfl ?_
    · simp only [Card.append, alter_slots, if_neg hi]
    · simp only [Card.piecesAt, cut_slots, Card.append, alter_slots, if_true]
      cases c.slots h with
      | none => exact List.prefix_refl _
      | some f => exact (List.prefix_append f.pieces _).take f.synced
  | index index read => exact List.prefix_refl _
  | openSlot read =>
    obtain ⟨hother, hdeleted, -, hhead⟩ := openSlot_kept c h
    exact logged_cut_head hat hinv'.at_ hother hdeleted (hhead ▸ List.prefix_refl _)
  | advance full =>
    have hgone : ∀ f, (c.remove ((h + 1) % n)).slots ((h + 1) % n) = some f → f.synced = f.pieces.length := by
      intro f hf
      rw [remove_slots, if_pos rfl] at hf
      cases hf
    rw [logged_cut_of_synced hinv'.at_ hgone, hlogged, List.append_nil]
    exact logged_cut_le hat

/-! ## What is deleted -/

theorem headStep_lapped {c c' : Card κ} {h h' : Nat} {ys : List κ} (hinv : Inv True n size c h)
    (hs : HeadStep n size c h ys c' h') (hl : Lapped n size c h) : Lapped n size c' h' := by
  have hat := hinv.at_
  -- only the slot after a full head is ever emptied
  have hkept : ∀ c' : Card κ, c'.deleted = c.deleted → (∀ i ≠ h, c'.slots i = c.slots i) → Lapped n size c' h :=
    fun c' hdeleted hother => hl.imp (fun hnone => hdeleted.trans hnone) fun hfull i hi hne =>
      (hfull i hi hne).congr (hother i hne)
  cases hs with
  | sync => exact hkept _ rfl fun i hi => by rw [Card.sync, alter_slots, if_neg hi]
  | append d slot => exact hkept _ rfl fun i hi => by simp only [Card.append, alter_slots, if_neg hi]
  | index index read => exact hkept _ rfl fun _ _ => rfl
  | openSlot read => exact hkept _ (openSlot_kept c h).2.1 (openSlot_kept c h).1
  | advance full =>
    have hlt := hat.lt
    have hnext : ∀ i, Full size c i → i ≠ (h + 1) % n → Full size (c.remove ((h + 1) % n)) i := fun i hi hne =>
      hi.congr (by rw [remove_slots, if_neg hne])
    by_cases hnone : c.slots ((h + 1) % n) = none
    · rw [remove_absent hnone]
      refine hl.imp id fun hfull i hi hne => ?_
      by_cases hih : i = h
      · exact hih ▸ full
      · exact hfull i hi hih
    · -- there is a file to delete, so the log has been round and every slot is full
      refine Or.inr fun i hi hne => hnext i ?_ hne
      rcases Nat.lt_trichotomy i h with hib | rfl | hia
      · exact hat.below i hib
      · exact full
      · rcases hat.above with hfull | ⟨habsent, -⟩
        · exact hfull i hia hi
        · refine absurd (habsent _ ?_) hnone
          rw [Nat.mod_eq_of_lt (by omega)]
          exact Nat.lt_succ_self h

/-- The bytes in the slots of the ring. -/
def Card.totalSize (n : Nat) (c : Card κ) : Nat := ∑ i ∈ Finset.range n, sizeOfPieces (c.piecesAt i)

theorem Lapped.totalSize {c : Card κ} {h : Nat} (hl : Lapped n size c h) (hh : h < n) :
    c.deleted = [] ∨ (n - 1) * size ≤ c.totalSize n := by
  refine hl.imp id fun hfull => ?_
  have hlong : ∀ i ∈ (Finset.range n).erase h, size ≤ sizeOfPieces (c.piecesAt i) := by
    intro i hi
    obtain ⟨hne, hi⟩ := Finset.mem_erase.1 hi
    obtain ⟨f, hf, -, hsize⟩ := hfull i (Finset.mem_range.1 hi) hne
    rw [Card.piecesAt, hf]
    exact hsize
  have hcard : ((Finset.range n).erase h).card = n - 1 := by
    rw [Finset.card_erase_of_mem (Finset.mem_range.2 hh), Finset.card_range]
  calc (n - 1) * size = ((Finset.range n).erase h).card • size := by rw [hcard]; rfl
    _ ≤ ∑ i ∈ (Finset.range n).erase h, sizeOfPieces (c.piecesAt i) := Finset.card_nsmul_le_sum _ _ _ hlong
    _ ≤ c.totalSize n := Finset.sum_le_sum_of_subset (Finset.erase_subset _ _)

/-! ## On the way -/

section

variable {c c' : Card κ} {h h' : Nat} {xs : List κ}

theorem Traced.logged (hinv : Inv True n size c h) (ht : Traced n size c h xs c' h') : c'.logged n h' = c.logged n h ++ xs := by
  refine ht.keeps (K := fun c' h' xs => c'.logged n h' = c.logged n h ++ xs) hinv (List.append_nil _).symm ?_
  intro c₁ h₁ zs c₂ h₂ ys hinv₁ hs hbefore
  rw [headStep_logged hinv₁ hs, hbefore, List.append_assoc]

theorem Traced.cut (hinv : Inv True n size c h) (ht : Traced n size c h xs c' h') :
    c.cut.logged n h <+: c'.cut.logged n h' := by
  refine ht.keeps (K := fun c' h' _ => c.cut.logged n h <+: c'.cut.logged n h') hinv (List.prefix_refl _) ?_
  intro c₁ h₁ zs c₂ h₂ ys hinv₁ hs hbefore
  exact hbefore.trans (headStep_cut hinv₁ hs)

theorem Traced.lapped (hinv : Inv True n size c h) (ht : Traced n size c h xs c' h') (hl : Lapped n size c h) :
    Lapped n size c' h' :=
  ht.keeps (K := fun c' h' _ => Lapped n size c' h') hinv hl fun _ _ _ _ _ _ hinv₁ hs => headStep_lapped hinv₁ hs

end

/-! ## Runs -/

/-- The object writes the head, or is off and every file is synced. -/
def Rig.At (n size : Nat) (r : Rig κ) (h : Nat) : Prop :=
  match r.data with
  | none => Inv True n size r.card h ∧ Closed r.card
  | some d => Live True n size ⟨r.card, d⟩ h

theorem Rig.At.inv {r : Rig κ} {h : Nat} (hat : r.At n size h) : Inv True n size r.card h := by
  unfold Rig.At at hat
  split at hat
  · exact hat.1
  · exact hat.inv

/-- An operation appends what it hands on, point by point, and ends writing the head. -/
theorem way_op (hn : n < 2 ^ 31) {r : Rig κ} {h : Nat} (hat : r.At n size h) {op : Op κ} {s : Sys κ}
    (hs : r.start n size op = some s) :
    Prog.wp (OnTheWay n size r.card h (s.hands op)) op.prog (fun _ s' => ∃ d, Writing n size r.card h (s.hands op) s' d) s := by
  unfold Rig.At at hat
  cases op with
  | begin onOpen =>
    simp only [Rig.start, Option.some.injEq] at hs
    subst hs
    split at hat
    · rename_i hd
      obtain ⟨hinv, hclosed⟩ := hat
      rw [hd, Option.getD_none]
      exact way_begin (s := ⟨r.card, { files := n, size }⟩) hn onOpen hinv (Or.inl ⟨rfl, hclosed⟩) .refl rfl rfl
    · rename_i d hd
      rw [hd, Option.getD_some]
      exact way_begin (s := ⟨r.card, d⟩) hn onOpen hat.inv hat.held .refl hat.files hat.limit
  | write data onOpen =>
    obtain ⟨d, hd, rfl⟩ := Option.map_eq_some_iff.1 hs
    rw [hd] at hat
    have hw : Writing n size r.card h [] ⟨r.card, d⟩ h := ⟨hat, .refl⟩
    exact Prog.wp_mono (fun _ hc => hc) (fun _ s' hs' => ⟨_, hs'⟩) _ _ (way_write hn data onOpen hw)

/-- What an event hands to the log. -/
def Rig.handed (files size : Nat) (r : Rig κ) : Ev κ → List (Journal.Ev κ)
  | .op o => ((r.start files size o).map fun s => .add (s.hands o)).toList
  | .cutIn o _ => ((r.start files size o).map fun s => .crash (s.hands o)).toList
  | .cut => [.crash []]
  | .damage _ => []

theorem handed_op {r : Rig κ} {o : Op κ} {e : Journal.Ev κ} (h : e ∈ r.handed n size (.op o)) : ∃ xs, e = .add xs := by
  obtain ⟨s, -, rfl⟩ := Option.map_eq_some_iff.1 (Option.mem_toList.1 h)
  exact ⟨_, rfl⟩

/-- The card, with the head at `h`, is the journal. -/
structure Journaled (n size : Nat) (r : Rig κ) (h : Nat) (j : Journal κ) : Prop where
  at_ : r.At n size h
  all : r.card.logged n h = j.all
  durable : r.card.cut.logged n h = j.durable
  lapped : Lapped n size r.card h

/-- Power is lost on the way: what is left is durable, and part of what was to be. -/
theorem journaled_cut {r : Rig κ} {h : Nat} {j : Journal κ} (hj : Journaled n size r h j) {p : Sys κ} {xs : List κ}
    (hp : OnTheWay n size r.card h xs p) :
    ∃ h' j', Journal.Step j (.crash xs) j' ∧ Journaled n size { card := p.card.cut } h' j' := by
  obtain ⟨h', zs, ht, hzs⟩ := hp
  have hinv := hj.at_.inv
  have hinv' := ht.inv hinv
  have hclosed := closed_cut p.card
  refine ⟨h', ⟨p.card.cut.logged n h', []⟩, .crash ?_ ?_ rfl, ⟨hinv'.cut, hclosed⟩, ?_, ?_, ?_⟩
  · rw [← hj.durable]
    exact ht.cut hinv
  · refine (logged_cut_le hinv'.at_).trans ?_
    rw [ht.logged hinv, ← hj.all]
    exact (List.prefix_append_right_inj _).2 hzs
  · exact (List.append_nil _).symm
  · exact logged_cut_of_synced hinv'.cut.at_ (hclosed h')
  · exact (ht.lapped hinv hj.lapped).imp id fun hfull i hi hne => (hfull i hi hne).congr (hfull i hi hne).cut

theorem journaled_step (hn : n < 2 ^ 31) {r r' : Rig κ} {e : Ev κ} {h : Nat} {j : Journal κ} (hj : Journaled n size r h j)
    (hdam : e.isDamage = false) (hstep : r.step n size e = some r') :
    ∃ h' j' e', r.handed n size e = [e'] ∧ Journal.Step j e' j' ∧ Journaled n size r' h' j' := by
  have hinv := hj.at_.inv
  cases e with
  | op o =>
    obtain ⟨s, hs, rfl⟩ := Option.map_eq_some_iff.1 hstep
    obtain ⟨h', hw⟩ := ((Prog.wp_iff _ _).1 (way_op hn hj.at_ hs)).2
    have ht := hw.traced
    obtain ⟨pending, hpending⟩ := logged_cut_le (ht.inv hinv).at_
    refine ⟨h', ⟨_, pending⟩, .add (s.hands o), by simp [Rig.handed, hs], .add ?_ ?_, hw.live, hpending.symm, rfl,
      ht.lapped hinv hj.lapped⟩
    · rw [← hj.all, ← ht.logged hinv]
      exact hpending
    · rw [← hj.durable]
      exact ht.cut hinv
  | cutIn o point =>
    obtain ⟨s, hs, hstep⟩ := Option.bind_eq_some_iff.1 hstep
    obtain ⟨p, hp, rfl⟩ := Option.map_eq_some_iff.1 hstep
    have hway := ((Prog.wp_iff _ _).1 (way_op hn hj.at_ hs)).1 p (List.mem_of_getElem? hp)
    obtain ⟨h', j', hstep', hj'⟩ := journaled_cut hj hway
    exact ⟨h', j', _, by simp [Rig.handed, hs], hstep', hj'⟩
  | cut =>
    cases hstep
    have hhere : OnTheWay n size r.card h [] (⟨r.card, { files := n, size }⟩ : Sys κ) := ⟨h, [], .refl, List.prefix_refl _⟩
    obtain ⟨h', j', hstep', hj'⟩ := journaled_cut hj hhere
    exact ⟨h', j', _, rfl, hstep', hj'⟩
  | damage index => cases hdam

theorem journaled_empty (hn : 0 < n) : ∃ h, Journaled n size ({ card := {} } : Rig κ) h {} := by
  obtain ⟨h, hinv, hclosed⟩ : RigOk True n size ({ card := {} } : Rig κ) := rigOk_empty hn
  refine ⟨h, ⟨hinv, hclosed⟩, ?_, ?_, Or.inl rfl⟩
  · simp [logged_split, Card.piecesAt, Journal.all]
  · simp [logged_split, Card.piecesAt, Card.cut]

theorem journaled_run (hmax : n < 2 ^ 31) {r : Rig κ} {h : Nat} {j : Journal κ} (hj : Journaled n size r h j) {es : List (Ev κ)}
    {r' : Rig κ} (hes : ∀ e ∈ es, e.isDamage = false) (hrun : Runs.run (Rig.step n size) r es = some r') :
    ∃ h' j', Journal.Run j (Runs.collect (Rig.step n size) (Rig.handed n size) r es) j' ∧ Journaled n size r' h' j' := by
  induction es using List.reverseRecOn generalizing r' with
  | nil =>
    cases hrun
    exact ⟨h, j, .nil, hj⟩
  | append_singleton es e ih =>
    obtain ⟨m, hm, hs⟩ := Runs.run_concat.1 hrun
    obtain ⟨h₁, j₁, hrun₁, hm'⟩ := ih (fun e' he' => hes e' (List.mem_append_left _ he')) hm
    obtain ⟨h₂, j₂, e', hhanded, hstep, hr⟩ :=
      journaled_step hmax hm' (hes e (List.mem_append_right _ (List.mem_singleton_self e))) hs
    refine ⟨h₂, j₂, ?_, hr⟩
    rw [Runs.collect_concat hm hs, hhanded]
    exact hrun₁.step hstep

theorem Journaled.head {r : Rig κ} {h : Nat} {j : Journal κ} (hj : Journaled n size r h j) {d : SdData}
    (hd : r.data = some d) : h = d.fileIdx := by
  have hat := hj.at_
  unfold Rig.At at hat
  rw [hd] at hat
  exact hat.fileIdx.symm

/-- From an empty card, whatever the restarts, writes and power cuts: what was deleted and what the slots hold
in ring order, up to the one in use, is a journal of all that was handed over, and what a cut would leave of
it is what that journal has durable. -/
theorem ring_refines_journal (hn : 0 < n) (hmax : n < 2 ^ 31) (es : List (Ev κ)) (r : Rig κ)
    (hes : ∀ e ∈ es, e.isDamage = false) (hrun : Runs.run (Rig.step n size) { card := {} } es = some r) :
    ∃ h j, Journal.Run {} (Runs.collect (Rig.step n size) (Rig.handed n size) { card := {} } es) j ∧
      (∀ d, r.data = some d → h = d.fileIdx) ∧ r.card.logged n h = j.all ∧ r.card.cut.logged n h = j.durable := by
  obtain ⟨h₀, hempty⟩ : ∃ h₀, Journaled n size ({ card := {} } : Rig κ) h₀ {} := journaled_empty hn
  obtain ⟨h, j, hj, hr⟩ := journaled_run hmax hempty hes hrun
  exact ⟨h, j, hj, fun d hd => hr.head hd, hr.all, hr.durable⟩

/-- What a cut would leave at one time is at the front of the log at every later one, and behind it comes
nothing but what was there or was handed over in between, in this order. Without a cut it is all of it. -/
theorem synced_stays (hn : 0 < n) (hmax : n < 2 ^ 31) (es fs : List (Ev κ)) (r r' : Rig κ)
    (hes : ∀ e ∈ es ++ fs, e.isDamage = false) (hrun : Runs.run (Rig.step n size) { card := {} } es = some r)
    (hrun' : Runs.run (Rig.step n size) r fs = some r') :
    ∃ h h', (∀ d, r.data = some d → h = d.fileIdx) ∧ (∀ d, r'.data = some d → h' = d.fileIdx) ∧
      r.card.cut.logged n h <+: r'.card.logged n h' ∧
      (r'.card.logged n h').Sublist (r.card.logged n h ++
        (Runs.collect (Rig.step n size) (Rig.handed n size) r fs).flatMap Journal.Ev.entries) ∧
      ((∀ e ∈ fs, ∃ o, e = .op o) → r'.card.logged n h' = r.card.logged n h ++
        (Runs.collect (Rig.step n size) (Rig.handed n size) r fs).flatMap Journal.Ev.entries) := by
  obtain ⟨h₀, hempty⟩ : ∃ h₀, Journaled n size ({ card := {} } : Rig κ) h₀ {} := journaled_empty hn
  obtain ⟨h, j, -, hr⟩ := journaled_run hmax hempty (fun e he => hes e (List.mem_append_left _ he)) hrun
  obtain ⟨h', j', hj', hr'⟩ := journaled_run hmax hr (fun e he => hes e (List.mem_append_right _ he)) hrun'
  refine ⟨h, h', fun d hd => hr.head hd, fun d hd => hr'.head hd, ?_, ?_, fun hops => ?_⟩
  · rw [hr.durable, hr'.all]
    exact hj'.durable
  · rw [hr.all, hr'.all]
    exact hj'.sublist
  · rw [hr.all, hr'.all]
    refine hj'.all_of_adds fun e' he' => ?_
    obtain ⟨e, he, m, hhanded⟩ := Runs.mem_collect he'
    obtain ⟨o, rfl⟩ := hops e he
    exact handed_op hhanded

/-- And at every point of that, inside an operation or behind a cut, the newest of it are there: nothing has
been deleted yet, or every slot but one is full. -/
theorem ring_retains (hn : 0 < n) (hmax : n < 2 ^ 31) (es : List (Ev κ)) (r : Rig κ) (hes : ∀ e ∈ es, e.isDamage = false)
    (hrun : Runs.run (Rig.step n size) { card := {} } es = some r) :
    (r.card.deleted = [] ∨ (n - 1) * size ≤ r.card.totalSize n) ∧
      ∀ op, ∀ p ∈ r.within n size op, p.card.deleted = [] ∨ (n - 1) * size ≤ p.card.totalSize n := by
  obtain ⟨h₀, hempty⟩ : ∃ h₀, Journaled n size ({ card := {} } : Rig κ) h₀ {} := journaled_empty hn
  obtain ⟨h, j, -, hr⟩ := journaled_run hmax hempty hes hrun
  have hinv := hr.at_.inv
  refine ⟨hr.lapped.totalSize hinv.at_.lt, fun op p hp => ?_⟩
  unfold Rig.within at hp
  split at hp
  · rename_i s hs
    obtain ⟨h', zs, ht, -⟩ := ((Prog.wp_iff _ _).1 (way_op hmax hr.at_ hs)).1 p hp
    exact (ht.lapped hinv hr.lapped).totalSize (ht.inv hinv).at_.lt
  · cases hp

/-! ## A cut while the oldest goes -/

theorem ring_refines_journal_rotateAndCut : ∃ r, Runs.run (Rig.step 2 1) { card := {} } rotateAndCut = some r ∧
    ∃ h j, Journal.Run {} (Runs.collect (Rig.step 2 1) (Rig.handed 2 1) { card := {} } rotateAndCut) j ∧
      (∀ d, r.data = some d → h = d.fileIdx) ∧ r.card.logged 2 h = j.all ∧ r.card.cut.logged 2 h = j.durable :=
  ⟨_, rfl, ring_refines_journal (by decide) (by decide) rotateAndCut _ (by decide) rfl⟩

/-- Up to the cut, and the restart behind it. -/
theorem synced_stays_rotateAndCut : ∃ r r', Runs.run (Rig.step 2 1) { card := {} } (rotateAndCut.take 2) = some r ∧
    Runs.run (Rig.step 2 1) r (rotateAndCut.drop 2) = some r' ∧
    ∃ h h', (∀ d, r.data = some d → h = d.fileIdx) ∧ (∀ d, r'.data = some d → h' = d.fileIdx) ∧
      r.card.cut.logged 2 h <+: r'.card.logged 2 h' ∧
      (r'.card.logged 2 h').Sublist (r.card.logged 2 h ++
        (Runs.collect (Rig.step 2 1) (Rig.handed 2 1) r (rotateAndCut.drop 2)).flatMap Journal.Ev.entries) ∧
      ((∀ e ∈ rotateAndCut.drop 2, ∃ o, e = .op o) → r'.card.logged 2 h' = r.card.logged 2 h ++
        (Runs.collect (Rig.step 2 1) (Rig.handed 2 1) r (rotateAndCut.drop 2)).flatMap Journal.Ev.entries) :=
  ⟨_, _, rfl, rfl, synced_stays (by decide) (by decide) (rotateAndCut.take 2) (rotateAndCut.drop 2) _ _ (by decide) rfl rfl⟩

/-- The older file has gone and the newer one is full. -/
theorem ring_retains_rotateAndCut : ∃ r, Runs.run (Rig.step 2 1) { card := {} } rotateAndCut = some r ∧
    r.card.deleted.map Piece.payload = [[1]] ∧ r.card.logged 2 0 = [[1], [2]] ∧
      (r.card.deleted = [] ∨ (2 - 1) * 1 ≤ r.card.totalSize 2) :=
  ⟨_, rfl, by decide, by decide, (ring_retains (by decide) (by decide) rotateAndCut _ (by decide) rfl).1⟩

end BoredomOS.Storage
