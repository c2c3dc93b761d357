/-
What `begin()` and `write()` do to the ring: every point at which power can be lost leaves it at
some slot, and the end of the operation leaves the object writing the file there, with the index
naming it. `begin()` also says which slot that is and that no other file was touched.
-/
import BoredomOS.Storage.Ring

namespace BoredomOS.Storage

open Steps

variable {κ : Type} [Payload κ] {o : Prop} {n size h : Nat}

/-- What a cut at this point leaves behind is a ring. -/
def Crash (o : Prop) (n size : Nat) (s : Sys κ) : Prop := ∃ h, Inv o n size s.card h

/-- The object writes the file at `h`, and the index names it. -/
structure Live (o : Prop) (n size : Nat) (s : Sys κ) (h : Nat) : Prop where
  inv : Inv o n size s.card h
  files : s.data.files = n
  limit : s.data.size = size
  fileIdx : s.data.fileIdx = h
  dataFile : s.data.dataFile = some h
  slot : (s.card.slots h).isSome
  named : readLogIndex n s.card.index = h

theorem Live.crash {s : Sys κ} (hl : Live o n size s h) : Crash o n size s := ⟨h, hl.inv⟩

/-- The pieces a call hands to the file: none for a null buffer or no bytes. -/
def appended (data : Option κ) : List κ :=
  match data with
  | some d => if (Payload.bytes d).isEmpty then [] else [d]
  | none => []

/-- The card after `extra` was appended to the file at `h`, and nothing else. -/
structure Grown (c c' : Card κ) (h : Nat) (extra : List κ) : Prop where
  others : ∀ i, i ≠ h → c'.slots i = c.slots i
  file : (c'.piecesAt h).map Piece.payload = (c.piecesAt h).map Piece.payload ++ extra
  deleted : c'.deleted = c.deleted

omit [Payload κ] in
theorem Grown.refl (c : Card κ) (h : Nat) : Grown c c h [] := ⟨fun _ _ => rfl, by simp, rfl⟩

omit [Payload κ] in
theorem Grown.trans {c c' c'' : Card κ} {xs ys : List κ} (h₁ : Grown c c' h xs) (h₂ : Grown c' c'' h ys) :
    Grown c c'' h (xs ++ ys) :=
  ⟨fun i hi => (h₂.others i hi).trans (h₁.others i hi), by rw [h₂.file, h₁.file, List.append_assoc],
    h₂.deleted.trans h₁.deleted⟩

omit [Payload κ] in
theorem grown_sync (c : Card κ) (h : Nat) : Grown c (c.sync h) h [] := by
  refine ⟨fun i hi => by rw [Card.sync, alter_slots, if_neg hi], ?_, rfl⟩
  rw [Card.sync, piecesAt_alter c h File.sync [] (fun _ _ => (List.append_nil _).symm) fun _ => rfl]
  simp

omit [Payload κ] in
theorem grown_append (c : Card κ) {h : Nat} (hsome : (c.slots h).isSome) (d : κ) : Grown c (c.append h d) h [d] := by
  refine ⟨fun i hi => by simp only [Card.append, alter_slots, if_neg hi], ?_, rfl⟩
  have := piecesAt_alter c h (fun f => f.append ⟨d, c.pass, c.appended⟩) [⟨d, c.pass, c.appended⟩]
    (fun _ _ => rfl) (fun hnone => by rw [hnone] at hsome; cases hsome)
  change ((c.alter h _).piecesAt h).map _ = _
  rw [this]
  simp

/-! ## The open file -/

theorem Live.close {s : Sys κ} (hl : Live o n size s h) : s.close.card = s.card.sync h := by
  rw [Sys.close, hl.dataFile]

theorem Live.flush {s : Sys κ} (hl : Live o n size s h) : Live o n size s.flush h ∧ Grown s.card s.flush.card h [] := by
  have hf : s.flush = { card := s.card.sync h, data := { s.data with sinceFlush := 0 } } := by
    rw [Sys.flush, hl.dataFile]
  rw [hf]
  refine ⟨⟨hl.inv.sync, hl.files, hl.limit, hl.fileIdx, hl.dataFile, ?_, hl.named⟩, grown_sync _ _⟩
  rw [Card.sync, alter_slots, if_pos rfl, Option.isSome_map]
  exact hl.slot

theorem Live.appendBytes {s : Sys κ} (hl : Live o n size s h) (data : Option κ) :
    Live o n size (s.appendBytes data) h ∧ Grown s.card (s.appendBytes data).card h (appended data) := by
  cases data with
  | none =>
    have hsame : s.appendBytes none = s := by unfold Sys.appendBytes; split <;> first | rfl | contradiction
    rw [hsame]
    exact ⟨hl, Grown.refl _ _⟩
  | some d =>
    simp only [Sys.appendBytes, hl.dataFile, appended]
    split
    · exact ⟨hl, Grown.refl _ _⟩
    · refine ⟨⟨hl.inv.append hl.slot d, hl.files, hl.limit, hl.fileIdx, hl.dataFile, ?_, hl.named⟩,
        grown_append _ hl.slot d⟩
      simp only [Card.append, alter_slots, if_true, Option.isSome_map]
      exact hl.slot

theorem wp_writeRaw {s : Sys κ} (hl : Live o n size s h) (data : Option κ) :
    Prog.wp (Crash o n size) (writeRaw data)
      (fun _ s' => Live o n size s' h ∧ Grown s.card s'.card h (appended data)) s := by
  simp only [writeRaw, Prog.wp_bind, Prog.wp_modify]
  obtain ⟨hl₁, hg₁⟩ := hl.appendBytes data
  obtain ⟨hl₂, hg₂⟩ := hl₁.flush
  exact ⟨hl.crash, hl₁.crash, hl₂, by simpa using hg₁.trans hg₂⟩

theorem wp_notifyOpened : ∀ (onOpen : List (Option κ)) {s : Sys κ}, Live o n size s h →
    Prog.wp (Crash o n size) (notifyOpened onOpen)
      (fun _ s' => Live o n size s' h ∧ Grown s.card s'.card h (onOpen.flatMap appended)) s
  | [], _, hl => ⟨hl, Grown.refl _ _⟩
  | data :: rest, s, hl => by
    simp only [notifyOpened, Prog.wp_bind]
    refine Prog.wp_mono (fun _ hc => hc) (fun _ s₁ h₁ => ?_) _ _ (wp_writeRaw hl data)
    refine Prog.wp_mono (fun _ hc => hc) (fun _ s₂ h₂ => ?_) _ _ (wp_notifyOpened rest h₁.1)
    exact ⟨h₂.1, h₁.2.trans h₂.2⟩

theorem wp_writeLogIndex {s : Sys κ} (hn : n < 2 ^ 31) (hinv : Inv o n size s.card h) (hidx : s.data.fileIdx = h) :
    Prog.wp (Crash o n size) writeLogIndex
      (fun _ s' => ∃ index, s' = { s with card := { s.card with index } } ∧ readLogIndex n index = h) s := by
  have hcreate : Inv o n size s.card.createIndex h := hinv.index (Or.inl (readLogIndex_create s.card))
  have hread : readLogIndex n (s.card.createIndex.overwriteIndex h).index = h :=
    readLogIndex_overwrite hinv.at_.lt hn rfl
  simp only [writeLogIndex, Prog.wp_bind, Prog.wp_get, Prog.wp_when, Prog.wp_modify]
  rw [if_pos hinv.at_.writable]
  refine ⟨⟨h, hinv⟩, ⟨h, hinv⟩, ⟨h, hcreate⟩, (s.card.createIndex.overwriteIndex h).index, ?_, hread⟩
  rw [hidx]
  rfl

theorem wp_openAndNotify {s : Sys κ} (onOpen : List (Option κ)) (hinv : Inv o n size s.card h)
    (hfiles : s.data.files = n) (hlimit : s.data.size = size) (hidx : s.data.fileIdx = h)
    (hnamed : readLogIndex n s.card.index = h) :
    Prog.wp (Crash o n size) (openAndNotify onOpen)
      (fun _ s' => Live o n size s' h ∧ Grown s.card s'.card h (onOpen.flatMap appended)) s := by
  obtain ⟨hopened, hslot⟩ := hinv.openSlot hnamed
  have hopen : s.openDataFile =
      { card := s.card.openSlot h, data := { s.data with dataFile := some h } } := by
    rw [Sys.openDataFile, if_pos hinv.at_.writable, hidx]
  have hsame : (s.card.openSlot h).index = s.card.index ∧ Grown s.card (s.card.openSlot h) h [] := by
    unfold Card.openSlot
    cases hs : s.card.slots h with
    | some f => exact ⟨rfl, fun _ _ => rfl, by simp [Card.piecesAt], rfl⟩
    | none =>
      refine ⟨rfl, fun i hi => by simp [hi], ?_, rfl⟩
      simp [Card.piecesAt, hs]
  simp only [openAndNotify, Prog.wp_bind, Prog.wp_modify, Prog.wp_get, Prog.wp_when, hopen, Option.isSome_some, if_true]
  have hl : Live o n size
      { card := s.card.openSlot h, data := { s.data with dataFile := some h, sinceFlush := 0 } } h :=
    ⟨hopened, hfiles, hlimit, hidx, rfl, hslot, by rw [hsame.1]; exact hnamed⟩
  refine ⟨⟨h, hinv⟩, ⟨h, hopened⟩, ?_⟩
  refine Prog.wp_mono (fun _ hc => hc) (fun _ s' hs' => ?_) _ _ (wp_notifyOpened onOpen hl)
  exact ⟨hs'.1, by simpa using hsame.2.trans hs'.2⟩

/-! ## Moving on -/

/-- The file at `h` is closed, or open for the object. -/
def Held (s : Sys κ) (h : Nat) : Prop :=
  s.data.dataFile = none ∧ Closed s.card ∨ s.data.dataFile = some h

theorem Live.held {s : Sys κ} (hl : Live o n size s h) : Held s h := Or.inr hl.dataFile

omit [Payload κ] in
theorem close_of_none {s : Sys κ} (hnone : s.data.dataFile = none) : s.close = s := by rw [Sys.close, hnone]

/-- Closing leaves every file synced, and changes what a file holds nowhere. -/
theorem Held.close {s : Sys κ} (hheld : Held s h) (hinv : Inv o n size s.card h) :
    Inv o n size s.close.card h ∧ Closed s.close.card ∧ Grown s.card s.close.card h [] ∧
      s.close.data = { s.data with dataFile := none } ∧ s.close.card.index = s.card.index := by
  rcases hheld with ⟨hnone, hclosed⟩ | hsome
  · rw [close_of_none hnone]
    refine ⟨hinv, hclosed, Grown.refl _ _, ?_, rfl⟩
    cases s with
    | mk card data => cases data; simp_all
  · have hc : s.close = { card := s.card.sync h, data := { s.data with dataFile := none } } := by
      rw [Sys.close, hsome]
    rw [hc]
    refine ⟨hinv.sync, fun i f hf => ?_, grown_sync _ _, rfl, rfl⟩
    simp only [Card.sync, alter_slots] at hf
    split at hf
    · obtain ⟨g, -, rfl⟩ := Option.map_eq_some_iff.1 hf; rfl
    · rename_i hne
      rcases hinv.at_.other hne with ⟨g, hg, hsync, -⟩ | hnone
      · rw [hg] at hf; cases hf; exact hsync
      · rw [hnone] at hf; cases hf

/-- `openNextSlot()` from the slot `r`: the file after it goes, whatever it was, and is started
again. -/
theorem wp_openNextSlot {s : Sys κ} (hn : n < 2 ^ 31) (onOpen : List (Option κ)) {r : Nat}
    (hinv : Inv o n size s.card h) (hheld : Held s h) (hfiles : s.data.files = n) (hlimit : s.data.size = size)
    (hidx : s.data.fileIdx = r) (hr : r < n) (hord : o → r = h)
    (hcase : r = h ∧ Full size s.close.card h ∨ ∀ i < n, Full size s.close.card i) :
    Prog.wp (Crash o n size) (openNextSlot onOpen)
      (fun _ s' => Live o n size s' ((r + 1) % n) ∧
        Grown (s.close.card.remove ((r + 1) % n)) s'.card ((r + 1) % n) (onOpen.flatMap appended)) s := by
  obtain ⟨hinv₁, -, -, hdata₁, -⟩ := hheld.close hinv
  have hinv₂ := hinv₁.remove hr hord hcase
  -- the state in which the next slot is gone, reached with or without a removal
  set s₂ : Sys κ := { card := s.close.card.remove ((r + 1) % n), data := { s.close.data with sinceFlush := 0, fileIdx := (r + 1) % n } } with hs₂
  have hrest : Prog.wp (Crash o n size) (writeLogIndex >>= fun _ => openAndNotify onOpen)
      (fun _ s' => Live o n size s' ((r + 1) % n) ∧
        Grown (s.close.card.remove ((r + 1) % n)) s'.card ((r + 1) % n) (onOpen.flatMap appended)) s₂ := by
    rw [Prog.wp_bind]
    refine Prog.wp_mono (fun _ hc => hc) ?_ _ _ (wp_writeLogIndex hn hinv₂ rfl)
    rintro - - ⟨index, rfl, hread⟩
    refine Prog.wp_mono (fun _ hc => hc) (fun _ s' hs' => ?_) _ _
      (wp_openAndNotify onOpen (hinv₂.index (Or.inr hread)) ?_ ?_ rfl hread)
    · exact ⟨hs'.1, ⟨hs'.2.others, hs'.2.file, hs'.2.deleted⟩⟩
    · simp [hs₂, hdata₁, hfiles]
    · simp [hs₂, hdata₁, hlimit]
  have hnext : (s.close.data.fileIdx + 1) % s.close.data.files = (r + 1) % n := by simp [hdata₁, hidx, hfiles]
  simp only [openNextSlot, closeDataFile, Prog.wp_bind, Prog.wp_modify, Prog.wp_get, Prog.wp_when, hnext]
  refine ⟨⟨h, hinv⟩, ⟨h, hinv₁⟩, ⟨h, hinv₁⟩, ?_⟩
  rw [Prog.wp_bind] at hrest
  split
  · exact ⟨⟨h, hinv₁⟩, hrest⟩
  · rename_i hnone
    have hsame := remove_absent (c := s.close.card) (d := (r + 1) % n) (by simpa using hnone)
    rw [hs₂, hsame] at hrest
    rw [hsame]
    exact hrest

/-! ## Finding the slot -/

theorem slotIsFull_iff {c : Card κ} (hclosed : Closed c) (i : Nat) : slotIsFull size c i = true ↔ Full size c i := by
  unfold slotIsFull Full
  cases hs : c.slots i with
  | none => simp
  | some f =>
    have hsync := hclosed i f hs
    simp [File.syncedSize, File.size, hsync]

/-- The walk passes the full slots and stops at the first that is not, if there is one. -/
theorem wp_findResume {s : Sys κ} (r : Nat) (hc : Crash o n size s) : ∀ left step,
    Prog.wp (Crash o n size) (findResume n size r left step)
      (fun found s' => s' = s ∧
        (found = none ∧ (∀ j, step ≤ j → j < step + left → slotIsFull size s.card ((r + j) % n) = true) ∨
        ∃ k, found = some ((r + k) % n) ∧ k < step + left ∧ slotIsFull size s.card ((r + k) % n) = false ∧
          ∀ j, step ≤ j → j < k → slotIsFull size s.card ((r + j) % n) = true)) s
  | 0, step => ⟨rfl, Or.inl ⟨rfl, fun j h1 h2 => absurd h2 (by omega)⟩⟩
  | left + 1, step => by
    simp only [findResume, Prog.wp_bind, Prog.wp_get]
    refine ⟨hc, ?_⟩
    split
    · rename_i hfull
      refine Prog.wp_mono (fun _ hc => hc) ?_ _ _ (wp_findResume r hc left (step + 1))
      rintro found s' ⟨rfl, hfound⟩
      -- the slot just passed joins the full ones
      have hpass : ∀ j, step ≤ j → (step + 1 ≤ j → slotIsFull size s'.card ((r + j) % n) = true) →
          slotIsFull size s'.card ((r + j) % n) = true := fun j h1 h2 =>
        (Nat.eq_or_lt_of_le h1).elim (fun he => he ▸ hfull) h2
      refine ⟨rfl, hfound.imp (fun h' => ⟨h'.1, fun j h1 h2 => hpass j h1 fun h3 => h'.2 j h3 (by omega)⟩) ?_⟩
      rintro ⟨k, hk, hlt, hnot, hbefore⟩
      exact ⟨k, hk, by omega, hnot, fun j h1 h2 => hpass j h1 fun h3 => hbefore j h3 h2⟩
    · rename_i hnot
      exact ⟨rfl, Or.inr ⟨step, rfl, by omega, by simpa using hnot, fun j h1 h2 => absurd h2 (by omega)⟩⟩

theorem exists_step {r i : Nat} (hr : r < n) (hi : i < n) : ∃ j < n, (r + j) % n = i := by
  rcases Nat.lt_or_ge i r with hlt | hge
  · exact ⟨i + n - r, by omega, by rw [show r + (i + n - r) = i + n by omega, Nat.add_mod_right, Nat.mod_eq_of_lt hi]⟩
  · exact ⟨i - r, by omega, by rw [show r + (i - r) = i by omega, Nat.mod_eq_of_lt hi]⟩

/-- Where the walk from the index stops is where the ring is, or the absent slot after it. -/
theorem resume_at {c : Card κ} (hat : At n size c h) {k : Nat} (hk : k < n)
    (hnot : ¬ Full size c ((readLogIndex n c.index + k) % n))
    (hbefore : ∀ j < k, Full size c ((readLogIndex n c.index + j) % n)) :
    (readLogIndex n c.index + k) % n = h ∨ Full size c h ∧ (readLogIndex n c.index + k) % n = (h + 1) % n ∧
      c.slots ((h + 1) % n) = none := by
  have hlt := hat.lt
  have hr : readLogIndex n c.index < n := readLogIndex_lt (by omega) _
  generalize hri : readLogIndex n c.index = r at *
  have hd : (r + k) % n < n := Nat.mod_lt _ (by omega)
  by_cases heq : (r + k) % n = h
  · exact Or.inl heq
  refine Or.inr ?_
  -- a slot other than `h` that is not full is absent, so this is the first lap
  have hgt : h < (r + k) % n := by
    rcases Nat.lt_or_gt_of_ne heq with hb | ha
    · exact absurd (hat.below _ hb) hnot
    · exact ha
  obtain ⟨hnone, hrh⟩ := hat.above.resolve_left fun hfull => hnot (hfull _ hgt hd)
  rw [hri] at hrh
  have hsum : r + k < n := by
    by_contra hge
    have : (r + k) % n = r + k - n := by rw [Nat.mod_eq_sub_mod (by omega), Nat.mod_eq_of_lt (by omega)]
    omega
  rw [Nat.mod_eq_of_lt hsum] at hgt ⊢
  have hslots : ∀ i, r ≤ i → i < r + k → Full size c i := fun i h1 h2 => by
    have := hbefore (i - r) (by omega)
    rwa [show r + (i - r) = i by omega, Nat.mod_eq_of_lt (by omega)] at this
  have hnext : r + k = h + 1 := by
    by_contra hne
    obtain ⟨f, hf, -⟩ := hslots (h + 1) (by omega) (by omega)
    rw [hnone (h + 1) (by omega)] at hf; cases hf
  rw [Nat.mod_eq_of_lt (show h + 1 < n by omega)]
  exact ⟨hslots h hrh (by omega), hnext, hnone _ (by omega)⟩

/-- How `begin()` gets to the slot `d` from the closed card `c`: `k` steps on from the index, over
full slots, to one that is absent or not full, whose file goes on; or, with every slot full, to the
one after the index, whose file is started again. Every other file is as it was. -/
def Outcome (n size : Nat) (c c' : Card κ) (d : Nat) (extra : List κ) : Prop :=
  (∃ k < n, d = (readLogIndex n c.index + k) % n ∧ ¬ Full size c d ∧
    (∀ j < k, Full size c ((readLogIndex n c.index + j) % n)) ∧ Grown c c' d extra) ∨
  (∀ i < n, Full size c i) ∧ d = (readLogIndex n c.index + 1) % n ∧ Grown (c.remove d) c' d extra

theorem wp_begin {s : Sys κ} (hn : n < 2 ^ 31) (onOpen : List (Option κ)) (hinv : Inv o n size s.card h)
    (hheld : Held s h) (hfiles : s.data.files = n) (hlimit : s.data.size = size) :
    Prog.wp (Crash o n size) (begin onOpen)
      (fun _ s' => ∃ d, Live o n size s' d ∧ Outcome n size s.close.card s'.card d (onOpen.flatMap appended)) s := by
  obtain ⟨hinv₁, hclosed, -, hdata₁, -⟩ := hheld.close hinv
  have hlt := hinv.at_.lt
  have hcrash : Crash o n size s.close := ⟨h, hinv₁⟩
  have hr : readLogIndex n s.close.card.index < n := readLogIndex_lt (by omega) _
  simp only [begin, closeDataFile, Prog.wp_bind, Prog.wp_modify, Prog.wp_get]
  refine ⟨⟨h, hinv⟩, hcrash, hcrash, ?_⟩
  rw [show s.close.data.files = n by rw [hdata₁, ← hfiles], show s.close.data.size = size by rw [hdata₁, ← hlimit]]
  refine Prog.wp_mono (fun _ hc => hc) ?_ _ _ (wp_findResume _ hcrash n 0)
  rintro found s₁ ⟨rfl, ⟨rfl, hall⟩ | ⟨k, rfl, hk, hnot, hbefore⟩⟩
  · -- every slot is full: the ring moves on from the indexed one
    have hfull : ∀ i < n, Full size s.close.card i := fun i hi => by
      obtain ⟨j, hj, rfl⟩ := exists_step hr hi
      exact (slotIsFull_iff hclosed _).1 (hall j (Nat.zero_le _) (by omega))
    have hord : o → readLogIndex n s.close.card.index = h := fun ho => by
      obtain ⟨f, hf, -⟩ := hfull h hlt
      exact (hinv₁.ordered ho).index.resolve_right fun hnone => by rw [hf] at hnone; cases hnone.1
    have hclose : ∀ idx, Sys.close { s.close with data := { s.close.data with fileIdx := idx } } =
        { s.close with data := { s.close.data with fileIdx := idx } } := fun idx =>
      close_of_none (by rw [hdata₁])
    simp only [Prog.wp_bind, Prog.wp_modify]
    refine ⟨hcrash, Prog.wp_mono (fun _ hc => hc) (fun _ s' hs' => ?_) _ _
      (wp_openNextSlot hn onOpen hinv₁ (Or.inl ⟨by simp [hdata₁], hclosed⟩) (by simp [hdata₁, hfiles])
        (by simp [hdata₁, hlimit]) rfl hr hord (Or.inr (by rw [hclose]; exact hfull)))⟩
    rw [hclose] at hs'
    exact ⟨_, hs'.1, Or.inr ⟨hfull, rfl, hs'.2⟩⟩
  · have hnot' : ¬ Full size s.close.card ((readLogIndex n s.close.card.index + k) % n) := fun hf => by
      rw [(slotIsFull_iff hclosed _).2 hf] at hnot; cases hnot
    have hbefore' : ∀ j < k, Full size s.close.card ((readLogIndex n s.close.card.index + j) % n) := fun j hj =>
      (slotIsFull_iff hclosed _).1 (hbefore j (Nat.zero_le _) hj)
    generalize hd : (readLogIndex n s.close.card.index + k) % n = d at *
    have hinv₂ : Inv o n size s.close.card d := by
      rcases resume_at hinv₁.at_ (by omega) (by rwa [hd]) hbefore' with hdh | ⟨hfull, hdn, hnone⟩
      · rw [← hd, hdh]; exact hinv₁
      · have := hinv₁.remove hlt (fun _ => rfl) (Or.inl ⟨rfl, hfull⟩)
        rwa [remove_absent hnone, ← hdn, hd] at this
    have hout : ∀ c', Grown s.close.card c' d (onOpen.flatMap appended) →
        Outcome n size s.close.card c' d (onOpen.flatMap appended) := fun c' hg =>
      Or.inl ⟨k, by omega, hd.symm, hnot', hbefore', hg⟩
    simp only [Prog.wp_bind, Prog.wp_modify, Prog.wp_when, decide_eq_true_eq]
    refine ⟨hcrash, ?_⟩
    split
    · refine Prog.wp_mono (fun _ hc => hc) ?_ _ _ (wp_writeLogIndex hn hinv₂ rfl)
      rintro - - ⟨index, rfl, hread⟩
      refine Prog.wp_mono (fun _ hc => hc) (fun _ s' hs' => ?_) _ _
        (wp_openAndNotify onOpen (hinv₂.index (Or.inr hread)) (by simp [hdata₁, hfiles]) (by simp [hdata₁, hlimit])
          rfl hread)
      exact ⟨d, hs'.1, hout _ ⟨hs'.2.others, hs'.2.file, hs'.2.deleted⟩⟩
    · rename_i hsame
      refine Prog.wp_mono (fun _ hc => hc) (fun _ s' hs' => ?_) _ _
        (wp_openAndNotify onOpen hinv₂ (by simp [hdata₁, hfiles]) (by simp [hdata₁, hlimit]) rfl ?_)
      · exact ⟨d, hs'.1, hout _ hs'.2⟩
      · exact (not_not.1 hsame).symm

/-- `write()`: whatever it is handed, the object writes some file of the ring when it returns. -/
theorem wp_write {s : Sys κ} (hn : n < 2 ^ 31) (data : Option κ) (onOpen : List (Option κ)) (hl : Live o n size s h) :
    Prog.wp (Crash o n size) (write data onOpen) (fun _ s' => ∃ d, Live o n size s' d) s := by
  simp only [write, Prog.wp_bind, Prog.wp_get]
  refine ⟨hl.crash, ?_⟩
  rw [hl.dataFile]
  cases data with
  | none => exact ⟨h, hl⟩
  | some d =>
    simp only [Option.isSome_some, Prog.wp_when]
    split
    swap
    · exact ⟨h, hl⟩
    obtain ⟨hl₁, -⟩ := hl.appendBytes (some d)
    set s₁ := s.appendBytes (some d)
    have hl₂ : Live o n size { s₁ with data := { s₁.data with sinceFlush := s₁.data.sinceFlush + (Payload.bytes d).length } } h :=
      ⟨hl₁.inv, hl₁.files, hl₁.limit, hl₁.fileIdx, hl₁.dataFile, hl₁.slot, hl₁.named⟩
    simp only [Prog.wp_bind, Prog.wp_modify, Prog.wp_get, Prog.wp_when]
    refine ⟨hl.crash, hl₁.crash, hl₂.crash, ?_⟩
    -- the size test and the rotation, behind a flush that was due or not
    have hrotate : ∀ s₃ : Sys κ, Live o n size s₃ h → Prog.wp (Crash o n size)
        (.when (s₃.data.size ≤ s₃.dataFileSize) (openNextSlot onOpen)) (fun _ s' => ∃ d, Live o n size s' d) s₃ := by
      intro s₃ hl₃
      rw [Prog.wp_when]
      split
      swap
      · exact ⟨h, hl₃⟩
      rename_i hfull
      obtain ⟨f, hf⟩ := Option.isSome_iff_exists.1 hl₃.slot
      have hsize : size ≤ f.size := by
        simpa [Sys.dataFileSize, hl₃.dataFile, hf, hl₃.limit] using hfull
      have hfull' : Full size s₃.close.card h := by
        refine ⟨f.sync, ?_, rfl, hsize⟩
        rw [hl₃.close, Card.sync, alter_slots, if_pos rfl, hf, Option.map_some]
      refine Prog.wp_mono (fun _ hc => hc) (fun _ s' hs' => ⟨_, hs'.1⟩) _ _
        (wp_openNextSlot hn onOpen hl₃.inv hl₃.held hl₃.files hl₃.limit hl₃.fileIdx hl₃.inv.at_.lt (fun _ => rfl)
          (Or.inl ⟨rfl, hfull'⟩))
    split
    · have hl₃ := hl₂.flush.1
      refine ⟨hl₂.crash, hl₃.crash, hl₃.crash, ?_⟩
      exact (Prog.wp_when _ _ _ _).1 (hrotate _ hl₃)
    · refine ⟨hl₂.crash, hl₂.crash, ?_⟩
      exact (Prog.wp_when _ _ _ _).1 (hrotate _ hl₂)

end BoredomOS.Storage
