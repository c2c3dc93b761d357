/-
The generations of the files: a slot's file is the one created there last, labelled by the pass
that created it. A write keeps every file, except that a rotation replaces the one in the slot it
moves to; of a file that is kept, what was synced stays at its front.
-/
import Mathlib.Data.List.Infix
import BoredomOS.Storage.Content

namespace BoredomOS.Storage

open Steps

variable {κ : Type} [Payload κ]

/-! ## What stays of a file -/

/-- The file in the slot, if there is one, is still there, and what was synced of it is at its
front. -/
def Carried (c c' : Card κ) (i : Nat) : Prop :=
  ∀ f, c.slots i = some f → ∃ f', c'.slots i = some f' ∧ f'.born = f.born ∧ f.image <+: f'.image

theorem Carried.refl (c : Card κ) (i : Nat) : Carried c c i := fun f hf => ⟨f, hf, rfl, List.prefix_refl _⟩

theorem Carried.trans {c c' c'' : Card κ} {i : Nat} (h₁ : Carried c c' i) (h₂ : Carried c' c'' i) : Carried c c'' i := by
  intro f hf
  obtain ⟨f', hf', hborn, hpre⟩ := h₁ f hf
  obtain ⟨f'', hf'', hborn', hpre'⟩ := h₂ f' hf'
  exact ⟨f'', hf'', hborn'.trans hborn, hpre.trans hpre'⟩

/-- The bytes of the first pieces are at the front of the bytes of more. -/
theorem image_prefix {f f' : File κ} (h : f.pieces.take f.synced <+: f'.pieces.take f'.synced) : f.image <+: f'.image :=
  h.flatMap _

theorem image_prefix_content (f : File κ) : f.image <+: f.content := (List.take_prefix _ _).flatMap _

theorem carried_alter (c : Card κ) (h : Nat) {g : File κ → File κ}
    (hg : ∀ f, (g f).born = f.born ∧ f.image <+: (g f).image) (i : Nat) : Carried c (c.alter h g) i := by
  intro f hf
  rw [alter_slots]
  split
  · rename_i heq
    rw [heq] at hf
    exact ⟨g f, by rw [hf]; rfl, hg f⟩
  · exact ⟨f, hf, rfl, List.prefix_refl _⟩

theorem carried_sync (c : Card κ) (h i : Nat) : Carried c (c.sync h) i := by
  apply carried_alter
  intro f
  refine ⟨rfl, image_prefix ?_⟩
  simpa [File.sync] using List.take_prefix _ _

theorem carried_append (c : Card κ) (h : Nat) (d : κ) (i : Nat) : Carried c (c.append h d) i := by
  refine carried_alter c h (g := fun f => f.append ⟨d, c.pass, c.appended⟩) (fun f => ?_) i
  exact ⟨rfl, image_prefix ((List.prefix_append _ _).take _)⟩

theorem carried_openSlot (c : Card κ) (h i : Nat) : Carried c (c.openSlot h) i := by
  intro f hf
  unfold Card.openSlot
  split
  · exact ⟨f, hf, rfl, List.prefix_refl _⟩
  · rename_i hnone
    have hne : i ≠ h := fun heq => by rw [heq, hnone] at hf; cases hf
    exact ⟨f, by simpa [hne] using hf, rfl, List.prefix_refl _⟩

theorem carried_remove (c : Card κ) {d i : Nat} (hne : i ≠ d) : Carried c (c.remove d) i := by
  intro f hf
  exact ⟨f, by simpa [Card.remove, hne] using hf, rfl, List.prefix_refl _⟩

/-! ## Steps that keep every file -/

/-- Every file is still there, and the object is in the same slot of the same ring. -/
structure Onward (s s' : Sys κ) : Prop where
  carried : ∀ i, Carried s.card s'.card i
  files : s'.data.files = s.data.files
  fileIdx : s'.data.fileIdx = s.data.fileIdx

theorem Onward.refl (s : Sys κ) : Onward s s := ⟨Carried.refl _, rfl, rfl⟩

theorem Onward.trans {s s' s'' : Sys κ} (h₁ : Onward s s') (h₂ : Onward s' s'') : Onward s s'' :=
  ⟨fun i => (h₁.carried i).trans (h₂.carried i), h₂.files.trans h₁.files, h₂.fileIdx.trans h₁.fileIdx⟩

theorem onward_close (s : Sys κ) : Onward s s.close := by
  unfold Sys.close
  split
  · exact Onward.refl s
  · exact ⟨carried_sync _ _, rfl, rfl⟩

theorem onward_flush (s : Sys κ) : Onward s s.flush := by
  unfold Sys.flush
  split
  · exact Onward.refl s
  · exact ⟨carried_sync _ _, rfl, rfl⟩

theorem onward_appendBytes (data : Option κ) (s : Sys κ) : Onward s (s.appendBytes data) := by
  unfold Sys.appendBytes
  split
  · split
    · exact Onward.refl s
    · exact ⟨carried_append _ _ _, rfl, rfl⟩
  · exact Onward.refl s

theorem onward_openDataFile (s : Sys κ) : Onward s s.openDataFile := by
  unfold Sys.openDataFile
  split
  · exact ⟨carried_openSlot _ _, rfl, rfl⟩
  · exact ⟨Carried.refl _, rfl, rfl⟩

theorem onward_notifyOpened : ∀ (onOpen : List (Option κ)) (s : Sys κ), Onward s ((notifyOpened onOpen).run s).2
  | [], s => Onward.refl s
  | data :: rest, s => by
    simp only [notifyOpened, writeRaw, Prog.run_bind, Prog.run_modify]
    exact ((onward_appendBytes data s).trans (onward_flush _)).trans (onward_notifyOpened rest _)

theorem onward_openAndNotify (onOpen : List (Option κ)) (s : Sys κ) : Onward s ((openAndNotify onOpen).run s).2 := by
  have hopen : Onward s { s.openDataFile with data := { s.openDataFile.data with sinceFlush := 0 } } :=
    ⟨(onward_openDataFile s).carried, (onward_openDataFile s).files, (onward_openDataFile s).fileIdx⟩
  simp only [openAndNotify, Prog.run_bind, Prog.run_modify, Prog.run_get, Prog.run_when]
  split
  · exact hopen.trans (onward_notifyOpened onOpen _)
  · exact hopen

theorem onward_writeLogIndex (s : Sys κ) : Onward s (writeLogIndex.run s).2 := by
  simp only [writeLogIndex, Prog.run_bind, Prog.run_get, Prog.run_when, Prog.run_modify]
  split
  · exact ⟨fun i => Carried.refl s.card i, rfl, rfl⟩
  · exact Onward.refl s

/-! ## A rotation -/

/-- The object is in the next slot, and every other file is still there. -/
structure Rotated (s s' : Sys κ) : Prop where
  files : s'.data.files = s.data.files
  fileIdx : s'.data.fileIdx = (s.data.fileIdx + 1) % s.data.files
  carried : ∀ i, i ≠ s'.data.fileIdx → Carried s.card s'.card i

theorem rotated_openNextSlot (onOpen : List (Option κ)) (s : Sys κ) : Rotated s ((openNextSlot onOpen).run s).2 := by
  have hclose := onward_close s
  have hnext : ∀ i, i = (s.close.data.fileIdx + 1) % s.close.data.files → i = (s.data.fileIdx + 1) % s.data.files := by
    rw [hclose.fileIdx, hclose.files]
    exact fun _ h => h
  -- from the state in which the next slot is named, with its file gone or absent
  have hrest : ∀ s₁ : Sys κ, s₁.data.files = s.data.files → s₁.data.fileIdx = (s.data.fileIdx + 1) % s.data.files →
      (∀ i, i ≠ s₁.data.fileIdx → Carried s.card s₁.card i) →
      Rotated s ((openAndNotify onOpen).run (writeLogIndex.run s₁).2).2 := by
    intro s₁ hfiles hidx hcarried
    have h := (onward_writeLogIndex s₁).trans (onward_openAndNotify onOpen _)
    refine ⟨h.files.trans hfiles, h.fileIdx.trans hidx, fun i hne => ?_⟩
    exact (hcarried i (h.fileIdx ▸ hne)).trans (h.carried i)
  simp only [openNextSlot, closeDataFile, Prog.run_bind, Prog.run_modify, Prog.run_get, Prog.run_when]
  split
  · refine hrest _ hclose.files (hnext _ rfl) fun i hne => ?_
    exact (hclose.carried i).trans (carried_remove _ hne)
  · exact hrest _ hclose.files (hnext _ rfl) fun i _ => hclose.carried i

/-- A write keeps every file, or fills its own, and then it ends with a rotation. -/
theorem write_cases (data : Option κ) (onOpen : List (Option κ)) (s : Sys κ) :
    s.fills data = false ∧ Onward s ((write data onOpen).run s).2 ∨
      s.fills data = true ∧ ∃ s₁, Onward s s₁ ∧ s₁.card.writable = s.card.writable ∧
        ((write data onOpen).run s).2 = ((openNextSlot onOpen).run s₁).2 := by
  simp only [write, Prog.run_bind, Prog.run_get]
  split
  swap
  · rename_i hopen
    refine Or.inl ⟨?_, Onward.refl s⟩
    unfold Sys.fills
    split
    · rename_i hdata
      simp [hdata] at hopen
    · rfl
  rename_i d hopen
  obtain ⟨i, hi⟩ := Option.isSome_iff_exists.1 hopen
  simp only [Prog.run_when, Prog.run_bind, Prog.run_modify, Prog.run_get]
  split
  swap
  · rename_i hempty
    exact Or.inl ⟨by simp [Sys.fills, hi, Bool.eq_false_of_not_eq_true hempty], Onward.refl s⟩
  rename_i hbytes
  have happ := onward_appendBytes (some d) s
  -- behind the append, counted and flushed or not, the size decides
  have hfills : ∀ {s₁ : Sys κ}, s₁.data.size = s.data.size → s₁.dataFileSize = (s.appendBytes (some d)).dataFileSize →
      s.fills (some d) = decide (s₁.data.size ≤ s₁.dataFileSize) := by
    intro s₁ hsize hlength
    rw [hsize, hlength]
    simp [Sys.fills, hi, hbytes]
  have hsize : (s.appendBytes (some d)).data.size = s.data.size := congrArg SdData.size (data_appendBytes _ s)
  have hwritable : (s.appendBytes (some d)).card.writable = s.card.writable := writable_appendBytes _ s
  set s₂ : Sys κ := { s.appendBytes (some d) with data := { (s.appendBytes (some d)).data with
      sinceFlush := (s.appendBytes (some d)).data.sinceFlush + (Payload.bytes d).length } }
  have hcount : Onward s s₂ := ⟨happ.carried, happ.files, happ.fileIdx⟩
  have hflushed := hfills ((size_flush s₂).trans hsize) (dataFileSize_flush s₂)
  have hkept : s.fills (some d) = decide (s₂.data.size ≤ s₂.dataFileSize) := hfills hsize rfl
  split <;> split
  · exact Or.inr ⟨hflushed.trans ‹_›, _, hcount.trans (onward_flush _), (writable_flush s₂).trans hwritable, rfl⟩
  · exact Or.inl ⟨hflushed.trans (Bool.eq_false_of_not_eq_true ‹_›), hcount.trans (onward_flush _)⟩
  · exact Or.inr ⟨hkept.trans ‹_›, _, hcount, hwritable, rfl⟩
  · exact Or.inl ⟨hkept.trans (Bool.eq_false_of_not_eq_true ‹_›), hcount⟩

theorem onward_or_rotated_write (data : Option κ) (onOpen : List (Option κ)) (s : Sys κ) :
    s.fills data = false ∧ Onward s ((write data onOpen).run s).2 ∨
      s.fills data = true ∧ Rotated s ((write data onOpen).run s).2 := by
  rcases write_cases data onOpen s with h | ⟨hfills, s₁, h₁, -, hrun⟩
  · exact Or.inl h
  · have h := rotated_openNextSlot onOpen s₁
    rw [hrun]
    exact Or.inr ⟨hfills, h.files.trans h₁.files, by rw [h.fileIdx, h₁.fileIdx, h₁.files],
      fun i hne => (h₁.carried i).trans (h.carried i hne)⟩

/-! ## Where `begin()` ends -/

/-- The walk only reads, and stops at a slot of the ring that is not full. -/
theorem reads_findResume {C : Sys κ → Prop} {s : Sys κ} (h : C s) (files size indexed : Nat) : ∀ left step,
    Prog.wp C (findResume files size indexed left step)
      (fun found s' => s' = s ∧ ∀ slot, found = some slot → slotIsFull size s.card slot = false ∧ (0 < files → slot < files)) s
  | 0, _ => ⟨rfl, fun _ h => by cases h⟩
  | left + 1, step => by
    simp only [findResume, Prog.wp_bind, Prog.wp_get]
    refine ⟨h, ?_⟩
    split
    · exact reads_findResume h files size indexed left (step + 1)
    · rename_i hroom
      refine ⟨rfl, ?_⟩
      rintro slot ⟨⟩
      exact ⟨by simpa using hroom, Nat.mod_lt _⟩

/-- `begin()` ends in a slot of the ring. -/
theorem fileIdx_begin (onOpen : List (Option κ)) (s : Sys κ) (hfiles : 0 < s.data.files) :
    ((begin onOpen).run s).2.data.files = s.data.files ∧ ((begin onOpen).run s).2.data.fileIdx < s.data.files := by
  have hclose := onward_close s
  have hends : ∀ {s₁ s₂ : Sys κ}, Onward s₁ s₂ → s₁.data.files = s.data.files → s₁.data.fileIdx < s.data.files →
      s₂.data.files = s.data.files ∧ s₂.data.fileIdx < s.data.files := fun h h₁ h₂ =>
    ⟨h.files.trans h₁, h.fileIdx.trans_lt h₂⟩
  rw [← Prog.wp_true (Q := fun _ (s' : Sys κ) => s'.data.files = s.data.files ∧ s'.data.fileIdx < s.data.files)]
  simp only [begin, closeDataFile, Prog.wp_bind, Prog.wp_modify, Prog.wp_get]
  refine ⟨trivial, trivial, trivial, ?_⟩
  refine Prog.wp_mono (fun _ h => h) ?_ _ _ (reads_findResume (C := fun _ => True) trivial _ _ _ _ _)
  rintro found s₁ ⟨rfl, hfound⟩
  cases found with
  | none =>
    simp only [Prog.wp_bind, Prog.wp_modify]
    refine ⟨trivial, (Prog.wp_true _ _).2 ?_⟩
    have h := rotated_openNextSlot onOpen
      { s.close with data := { s.close.data with fileIdx := readLogIndex s.close.data.files s.close.card.index } }
    rw [h.files, h.fileIdx]
    exact ⟨hclose.files, hclose.files ▸ Nat.mod_lt _ (hclose.files.symm ▸ hfiles)⟩
  | some resume =>
    have hlt : resume < s.data.files := hclose.files ▸ (hfound resume rfl).2 (hclose.files.symm ▸ hfiles)
    simp only [Prog.wp_bind, Prog.wp_modify, Prog.wp_when]
    refine ⟨trivial, ?_⟩
    split
    · refine (Prog.wp_true _ _).2 ((Prog.wp_true _ _).2 ?_)
      exact hends ((onward_writeLogIndex _).trans (onward_openAndNotify onOpen _)) hclose.files hlt
    · exact (Prog.wp_true _ _).2 (hends (onward_openAndNotify onOpen _) hclose.files hlt)

/-! ## Labels -/

/-- `I` holds after every operation of the card, if it holds before. -/
structure Stable (I : Card κ → Prop) : Prop where
  index : ∀ c index, I c → I { c with index }
  sync : ∀ c i, I c → I (c.sync i)
  append : ∀ c i d, I c → I (c.append i d)
  openSlot : ∀ c i, I c → I (c.openSlot i)
  remove : ∀ c i, I c → I (c.remove i)

section Stable

variable {I : Card κ → Prop} (hI : Stable I)
include hI

omit [Payload κ] in
theorem keeps_close : Prog.Keeps (fun s : Sys κ => I s.card) closeDataFile := by
  apply Prog.keeps_modify
  intro s h
  unfold Sys.close
  split
  · exact h
  · exact hI.sync _ _ h

theorem keeps_appendBytes (data : Option κ) (s : Sys κ) (h : I s.card) : I (s.appendBytes data).card := by
  unfold Sys.appendBytes
  split
  · split
    · exact h
    · exact hI.append _ _ _ h
  · exact h

omit [Payload κ] in
theorem keeps_flush (s : Sys κ) (h : I s.card) : I s.flush.card := by
  unfold Sys.flush
  split
  · exact h
  · exact hI.sync _ _ h

theorem keeps_notifyOpened : ∀ onOpen : List (Option κ), Prog.Keeps (fun s : Sys κ => I s.card) (notifyOpened onOpen)
  | [] => Prog.keeps_pure _
  | data :: rest => by
    refine Prog.keeps_bind (Prog.keeps_bind ?_ fun _ => ?_) fun _ => keeps_notifyOpened rest
    · exact Prog.keeps_modify (keeps_appendBytes hI data)
    · exact Prog.keeps_modify (keeps_flush hI)

theorem keeps_openAndNotify (onOpen : List (Option κ)) :
    Prog.Keeps (fun s : Sys κ => I s.card) (openAndNotify onOpen) := by
  refine Prog.keeps_bind (Prog.keeps_modify fun s h => ?_) fun _ =>
    Prog.keeps_bind (Prog.keeps_get _) fun opened => Prog.keeps_when opened (keeps_notifyOpened hI onOpen)
  unfold Sys.openDataFile
  split
  · exact hI.openSlot _ _ h
  · exact h

omit [Payload κ] in
theorem keeps_writeLogIndex : Prog.Keeps (fun s : Sys κ => I s.card) writeLogIndex := by
  refine Prog.keeps_bind (Prog.keeps_get _) fun writable => Prog.keeps_when writable ?_
  exact Prog.keeps_bind (Prog.keeps_modify fun s h => hI.index _ _ h) fun _ =>
    Prog.keeps_modify fun s h => hI.index _ _ h

theorem keeps_openNextSlot (onOpen : List (Option κ)) :
    Prog.Keeps (fun s : Sys κ => I s.card) (openNextSlot onOpen) := by
  refine Prog.keeps_bind (keeps_close hI) fun _ => ?_
  refine Prog.keeps_bind (Prog.keeps_modify fun s h => h) fun _ => ?_
  refine Prog.keeps_bind (Prog.keeps_get _) fun present => ?_
  refine Prog.keeps_bind (Prog.keeps_when present (Prog.keeps_modify fun s h => hI.remove _ _ h)) fun _ => ?_
  exact Prog.keeps_bind (keeps_writeLogIndex hI) fun _ => keeps_openAndNotify hI onOpen

omit hI in
theorem keeps_findResume (files size indexed : Nat) : ∀ left step,
    Prog.Keeps (fun s : Sys κ => I s.card) (findResume files size indexed left step)
  | 0, _ => Prog.keeps_pure _
  | left + 1, step => by
    refine Prog.keeps_bind (Prog.keeps_get _) fun full => ?_
    cases full
    · exact Prog.keeps_pure _
    · exact keeps_findResume files size indexed left (step + 1)

theorem keeps_op (op : Op κ) : Prog.Keeps (fun s : Sys κ => I s.card) op.prog := by
  cases op with
  | begin onOpen =>
    refine Prog.keeps_bind (keeps_close hI) fun _ => ?_
    refine Prog.keeps_bind (Prog.keeps_get _) fun data => Prog.keeps_bind (Prog.keeps_get _) fun indexed => ?_
    refine Prog.keeps_bind (keeps_findResume _ _ _ _ _) fun found => ?_
    cases found with
    | none => exact Prog.keeps_bind (Prog.keeps_modify fun s h => h) fun _ => keeps_openNextSlot hI onOpen
    | some resume =>
      refine Prog.keeps_bind (Prog.keeps_modify fun s h => h) fun _ => ?_
      exact Prog.keeps_bind (Prog.keeps_when _ (keeps_writeLogIndex hI)) fun _ => keeps_openAndNotify hI onOpen
  | write data onOpen =>
    refine Prog.keeps_bind (Prog.keeps_get _) fun opened => ?_
    match opened, data with
    | false, _ | true, none => exact Prog.keeps_pure _
    | true, some d =>
      refine Prog.keeps_when _ ?_
      refine Prog.keeps_bind (Prog.keeps_modify (keeps_appendBytes hI (some d))) fun _ => ?_
      refine Prog.keeps_bind (Prog.keeps_modify fun s h => h) fun _ => ?_
      refine Prog.keeps_bind (Prog.keeps_get _) fun due => ?_
      refine Prog.keeps_bind (Prog.keeps_when due (Prog.keeps_modify (keeps_flush hI))) fun _ => ?_
      refine Prog.keeps_bind (Prog.keeps_get _) fun fileSize => Prog.keeps_bind (Prog.keeps_get _) fun data => ?_
      exact Prog.keeps_when _ (keeps_openNextSlot hI onOpen)

end Stable

/-! ## No slot loses its file -/

omit [Payload κ] in
theorem run_keeps {I : Sys κ → Prop} {m : Prog (Sys κ) Unit} (hm : Prog.Keeps I m) {s : Sys κ} (hs : I s) : I (m.run s).2 :=
  Prog.cuts_of_keeps hm hs _ (Prog.run_mem_cuts m s)

omit [Payload κ] in
theorem stable_writable (w : Bool) : Stable fun c : Card κ => c.writable = w where
  index _ _ h := h
  sync _ _ h := h
  append _ _ _ h := h
  openSlot c i h := by
    unfold Card.openSlot
    split <;> exact h
  remove _ _ h := h

/-- A handle is open on a card that takes what is written. -/
def Sys.OpensWritable (s : Sys κ) : Prop := s.data.dataFile.isSome = true → s.card.writable = true

theorem opensWritable_openAndNotify (onOpen : List (Option κ)) (s : Sys κ) :
    ((openAndNotify onOpen).run s).2.OpensWritable := by
  cases hw : s.card.writable with
  | true => exact fun _ => run_keeps (keeps_openAndNotify (stable_writable true) onOpen) hw
  | false =>
    have hnone : s.openDataFile.data.dataFile = none := by simp [Sys.openDataFile, hw]
    intro hopen
    simp [openAndNotify, hnone] at hopen

theorem opensWritable_openNextSlot (onOpen : List (Option κ)) (s : Sys κ) :
    ((openNextSlot onOpen).run s).2.OpensWritable := by
  simp only [openNextSlot, Prog.run_bind]
  exact opensWritable_openAndNotify onOpen _

theorem opensWritable_begin (onOpen : List (Option κ)) (s : Sys κ) : ((begin onOpen).run s).2.OpensWritable := by
  rw [← Prog.wp_true (Q := fun _ s' => Sys.OpensWritable s')]
  simp only [begin, closeDataFile, Prog.wp_bind, Prog.wp_modify, Prog.wp_get]
  refine ⟨trivial, trivial, trivial, ?_⟩
  refine Prog.wp_mono (fun _ h => h) ?_ _ _ (reads_findResume (C := fun _ => True) trivial _ _ _ _ _)
  rintro found s₁ ⟨rfl, -⟩
  cases found with
  | none =>
    simp only [Prog.wp_bind, Prog.wp_modify]
    exact ⟨trivial, (Prog.wp_true _ _).2 (opensWritable_openNextSlot onOpen _)⟩
  | some resume =>
    simp only [Prog.wp_bind, Prog.wp_modify]
    exact ⟨trivial, (Prog.wp_true _ _).2 ((Prog.wp_true _ _).2 (opensWritable_openAndNotify onOpen _))⟩

theorem opensWritable_write (data : Option κ) (onOpen : List (Option κ)) {s : Sys κ} (h : s.OpensWritable) :
    ((write data onOpen).run s).2.OpensWritable := by
  cases hopen : s.data.dataFile with
  | none =>
    have hsame : ((write data onOpen).run s).2 = s := by simp [write, hopen]
    rw [hsame]
    exact h
  | some i =>
    have hwritable : s.card.writable = true := h (by rw [hopen]; rfl)
    exact fun _ => run_keeps (keeps_op (stable_writable true) (.write data onOpen)) hwritable

theorem held_openAndNotify (onOpen : List (Option κ)) {s : Sys κ} (hw : s.card.writable = true) :
    (((openAndNotify onOpen).run s).2.card.slots s.data.fileIdx).isSome = true := by
  have hopened : (s.openDataFile.card.slots s.data.fileIdx).isSome = true := by
    simp only [Sys.openDataFile, if_pos hw, Card.openSlot]
    split
    · rename_i f hf
      exact Option.isSome_of_eq_some hf
    · simp
  simp only [openAndNotify, Prog.run_bind, Prog.run_modify, Prog.run_get, Prog.run_when]
  split
  · obtain ⟨f, hf⟩ := Option.isSome_iff_exists.1 hopened
    obtain ⟨g, hg, -⟩ := (onward_notifyOpened onOpen
      { s.openDataFile with data := { s.openDataFile.data with sinceFlush := 0 } }).carried _ f hf
    exact Option.isSome_of_eq_some hg
  · exact hopened

/-- The slot a rotation turns to has a file afterwards. -/
theorem held_openNextSlot (onOpen : List (Option κ)) {s : Sys κ} (hw : s.card.writable = true) :
    (((openNextSlot onOpen).run s).2.card.slots ((openNextSlot onOpen).run s).2.data.fileIdx).isSome = true := by
  have hrest : ∀ s₁ : Sys κ, s₁.card.writable = true →
      (((openAndNotify onOpen).run s₁).2.card.slots ((openAndNotify onOpen).run s₁).2.data.fileIdx).isSome = true := by
    intro s₁ hw₁
    rw [(onward_openAndNotify onOpen s₁).fileIdx]
    exact held_openAndNotify onOpen hw₁
  have hclosed : s.close.card.writable = true := (writable_close s).trans hw
  simp only [openNextSlot, closeDataFile, Prog.run_bind, Prog.run_modify, Prog.run_get, Prog.run_when]
  refine hrest _ ?_
  split <;> exact run_keeps (keeps_writeLogIndex (stable_writable true)) hclosed

theorem held_write (data : Option κ) (onOpen : List (Option κ)) {s : Sys κ} (h : s.OpensWritable) {i : Nat}
    (hheld : (s.card.slots i).isSome = true) : (((write data onOpen).run s).2.card.slots i).isSome = true := by
  obtain ⟨f, hf⟩ := Option.isSome_iff_exists.1 hheld
  rcases write_cases data onOpen s with ⟨-, honward⟩ | ⟨hfills, s₁, h₁, hsame, hrun⟩
  · obtain ⟨g, hg, -⟩ := honward.carried i f hf
    exact Option.isSome_of_eq_some hg
  have hopen : s.data.dataFile.isSome = true := by
    unfold Sys.fills at hfills
    split at hfills
    · simp [*]
    · cases hfills
  rw [hrun]
  by_cases hnext : i = ((openNextSlot onOpen).run s₁).2.data.fileIdx
  · rw [hnext]
    exact held_openNextSlot onOpen (hsame.trans (h hopen))
  · obtain ⟨g, hg, -⟩ := ((h₁.carried i).trans ((rotated_openNextSlot onOpen s₁).carried i hnext)) f hf
    exact Option.isSome_of_eq_some hg

end BoredomOS.Storage
