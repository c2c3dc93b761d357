/-
What a power cut costs. `_sinceFlush` counts by hand what `write()` appended since the last sync, in six
places: between two operations it is exactly what the open file would lose, less than the interval, and no
other file has anything to lose. Within an operation nothing is counted that is not the open file's own.
-/
import BoredomOS.Lib.Runs
import BoredomOS.Storage.Content
import BoredomOS.Storage.Generations

namespace BoredomOS.Storage

open Steps

variable {κ : Type} [Payload κ]

/-! ## The public operations -/

def bytesOf (data : Option κ) : Nat :=
  match data with
  | none => 0
  | some d => (Payload.bytes d).length

/-- `begin()`, `end()`, `write()` and `writeRaw()`, with what the callback writes if they open a file. -/
inductive Call (κ : Type)
  | begin (onOpen : List (Option κ))
  | endLog
  | write (data : Option κ) (onOpen : List (Option κ))
  | writeRaw (data : Option κ)

def Call.prog : Call κ → Prog (Sys κ) Unit
  | .begin onOpen => Storage.begin onOpen
  | .endLog => Storage.endLog
  | .write data onOpen => Storage.write data onOpen
  | .writeRaw data => Storage.writeRaw data

/-- The bytes its caller hands to it. -/
def Call.length : Call κ → Nat
  | .begin _ | .endLog => 0
  | .write data _ | .writeRaw data => bytesOf data

def Call.onOpen : Call κ → List (Option κ)
  | .begin onOpen | .write _ onOpen => onOpen
  | .endLog | .writeRaw _ => []

/-- Calls, power cuts within and between them, each followed by a restart, and what happens to the card
in between: the library stops or starts opening files for writing, and `index.bin` turns into anything. -/
inductive CallEv (κ : Type)
  | call (c : Call κ)
  | cutIn (c : Call κ) (point : Nat)
  | cut
  | writable (writable : Bool)
  | index (index : Option (List UInt8))

/-- The object when the board starts, and what a cut left on the card. -/
def powerOn (files size : Nat) (c : Card κ) : Sys κ := ⟨c.cut, { files, size }⟩

def Sys.step (files size : Nat) (s : Sys κ) : CallEv κ → Option (Sys κ)
  | .call c => some (c.prog.run s).2
  | .cutIn c point => (c.prog.points s)[point]?.map fun p => powerOn files size p.card
  | .cut => some (powerOn files size s.card)
  | .writable writable => some { s with card := { s.card with writable } }
  | .index index => some { s with card := { s.card with index } }

/-! ## What is not synced -/

def File.unsynced (f : File κ) : Nat := sizeOfPieces (f.pieces.drop f.synced)

/-- The bytes appended to the open file since its last sync. -/
def Sys.unsynced (s : Sys κ) : Nat :=
  match s.data.dataFile with
  | none => 0
  | some i => ((s.card.slots i).map File.unsynced).getD 0

theorem sizeOfPieces_append (xs ys : List (Piece κ)) : sizeOfPieces (xs ++ ys) = sizeOfPieces xs + sizeOfPieces ys := by
  simp [sizeOfPieces]

theorem length_content (f : File κ) : f.content.length = f.size := by
  simp [File.content, File.size, sizeOfPieces, List.length_flatMap]

/-- What a cut leaves of a file, and what it takes, is the whole of it. -/
theorem length_cut_add (f : File κ) : f.content.length = f.cut.content.length + f.unsynced := by
  rw [length_content, length_content, File.size, File.size, File.unsynced, File.cut, ← sizeOfPieces_append]
  exact congrArg sizeOfPieces (List.take_append_drop _ _).symm

theorem unsynced_of_synced {f : File κ} (h : f.synced = f.pieces.length) : f.unsynced = 0 := by
  simp [File.unsynced, h, sizeOfPieces]

theorem unsynced_append {f : File κ} (h : f.synced ≤ f.pieces.length) (p : Piece κ) :
    (f.append p).unsynced = f.unsynced + (Payload.bytes p.payload).length := by
  unfold File.unsynced File.append
  rw [List.drop_append_of_le_length h, sizeOfPieces_append]
  rfl

/-- Only the open file has bytes that are not synced, and the counter counts none but these. -/
structure Apart (s : Sys κ) : Prop where
  held : ∀ i, s.data.dataFile = some i → (s.card.slots i).isSome
  synced : ∀ i f, s.card.slots i = some f → f.synced ≤ f.pieces.length
  closed : ∀ i f, s.card.slots i = some f → s.data.dataFile ≠ some i → f.synced = f.pieces.length
  counted : s.data.dataFile.isSome → s.data.sinceFlush ≤ s.unsynced

/-- A cut leaves the front of every file: all of it, but for the open file's unsynced bytes. -/
def KeepsFront (s : Sys κ) : Prop :=
  ∀ i f, s.card.slots i = some f → ∃ f', s.card.cut.slots i = some f' ∧ f'.content <+: f.content ∧
    f.content.length = f'.content.length + if s.data.dataFile = some i then s.unsynced else 0

theorem Apart.keepsFront {s : Sys κ} (h : Apart s) : KeepsFront s := by
  intro i f hf
  refine ⟨f.cut, by rw [cut_slots, hf]; rfl, image_prefix_content f, ?_⟩
  rw [length_cut_add]
  split
  · rename_i hopen
    simp [Sys.unsynced, hopen, hf]
  · rename_i hshut
    rw [unsynced_of_synced (h.closed i f hf hshut)]

/-- Between two operations: the counter is what the open file would lose, and less than the interval. -/
structure Settled (s : Sys κ) : Prop extends Apart s where
  counts : s.unsynced = s.data.sinceFlush
  below : s.data.sinceFlush < flushIntervalBytes

/-- Nothing was appended since the last sync. -/
structure Fresh (s : Sys κ) : Prop extends Apart s where
  nothing : s.unsynced = 0
  reset : s.data.sinceFlush = 0

theorem Fresh.settled {s : Sys κ} (h : Fresh s) : Settled s where
  toApart := h.toApart
  counts := h.nothing.trans h.reset.symm
  below := by
    rw [h.reset]
    decide

/-- Nothing is open, and every file is synced. -/
structure Shut (s : Sys κ) : Prop where
  dataFile : s.data.dataFile = none
  closed : Closed s.card

theorem Shut.unsynced {s : Sys κ} (h : Shut s) : s.unsynced = 0 := by
  rw [Sys.unsynced, h.dataFile]

theorem Shut.apart {s : Sys κ} (h : Shut s) : Apart s where
  held i hi := by
    rw [h.dataFile] at hi
    cases hi
  synced i f hf := (h.closed i f hf).le
  closed i f hf _ := h.closed i f hf
  counted hi := by
    rw [h.dataFile] at hi
    cases hi

omit [Payload κ] in
theorem shut_powerOn (files size : Nat) (c : Card κ) : Shut (powerOn files size c) := ⟨rfl, closed_cut c⟩

/-! ## Steps -/

theorem Apart.close {s : Sys κ} (h : Apart s) : Shut s.close := by
  unfold Sys.close
  cases hopen : s.data.dataFile with
  | none => exact ⟨hopen, fun i f hf => h.closed i f hf (by rw [hopen]; simp)⟩
  | some j =>
    refine ⟨rfl, fun i f hf => ?_⟩
    simp only [Card.sync, alter_slots] at hf
    split at hf
    · obtain ⟨g, -, rfl⟩ := Option.map_eq_some_iff.1 hf
      rfl
    · rename_i hne
      exact h.closed i f hf (by rw [hopen]; simpa using Ne.symm hne)

/-- The open of a file, and the reset behind it: an interval begins with the file. -/
theorem Shut.openDataFile {s : Sys κ} (h : Shut s) :
    Fresh { s.openDataFile with data := { s.openDataFile.data with sinceFlush := 0 } } := by
  unfold Sys.openDataFile
  split
  · have hclosed : Closed (s.card.openSlot s.data.fileIdx) := by
      intro i f hf
      unfold Card.openSlot at hf
      split at hf
      · exact h.closed i f hf
      · simp only [Function.update_apply] at hf
        split at hf
        · cases hf
          rfl
        · exact h.closed i f hf
    have hheld : ((s.card.openSlot s.data.fileIdx).slots s.data.fileIdx).isSome := by
      unfold Card.openSlot
      split
      · rename_i hsome
        simp [hsome]
      · simp
    obtain ⟨f, hf⟩ := Option.isSome_iff_exists.1 hheld
    refine ⟨⟨?_, fun i f hf => (hclosed i f hf).le, fun i f hf _ => hclosed i f hf, fun _ => Nat.zero_le _⟩, ?_, rfl⟩
    · rintro i ⟨⟩
      exact hheld
    · show (((s.card.openSlot s.data.fileIdx).slots s.data.fileIdx).map File.unsynced).getD 0 = 0
      rw [hf]
      exact unsynced_of_synced (hclosed _ f hf)
  · have hshut : Shut { s with data := { s.data with dataFile := none, sinceFlush := 0 } } := ⟨rfl, h.closed⟩
    exact ⟨hshut.apart, hshut.unsynced, rfl⟩

/-- What is done to the open file alone. -/
theorem Apart.alter {s : Sys κ} (h : Apart s) {j : Nat} (hopen : s.data.dataFile = some j) {g : File κ → File κ}
    (hg : ∀ f, f.synced ≤ f.pieces.length → (g f).synced ≤ (g f).pieces.length) {s' : Sys κ}
    (hslots : s'.card.slots = (s.card.alter j g).slots) (hsame : s'.data.dataFile = s.data.dataFile)
    (hcounted : s'.data.sinceFlush ≤ s'.unsynced) : Apart s' := by
  refine ⟨fun i hi => ?_, fun i f hf => ?_, fun i f hf hi => ?_, fun _ => hcounted⟩
  · rw [hsame, hopen] at hi
    cases hi
    rw [hslots, alter_slots, if_pos rfl, Option.isSome_map]
    exact h.held j hopen
  · rw [hslots, alter_slots] at hf
    split at hf
    · obtain ⟨f', hf', rfl⟩ := Option.map_eq_some_iff.1 hf
      exact hg f' (h.synced j f' hf')
    · exact h.synced i f hf
  · rw [hsame] at hi
    rw [hslots, alter_slots, if_neg (fun heq => hi (by rw [hopen, heq]))] at hf
    exact h.closed i f hf hi

/-- An append adds its bytes to what the open file would lose. -/
theorem Apart.appendBytes {s : Sys κ} (h : Apart s) (data : Option κ) :
    Apart (s.appendBytes data) ∧
      (s.appendBytes data).unsynced = s.unsynced + if s.data.dataFile.isSome then bytesOf data else 0 := by
  unfold Sys.appendBytes
  cases hopen : s.data.dataFile with
  | none => exact ⟨h, rfl⟩
  | some j =>
    cases data with
    | none => exact ⟨h, rfl⟩
    | some d =>
      simp only [Option.isSome_some, if_true]
      split
      · rename_i hempty
        exact ⟨h, by simp [bytesOf, List.isEmpty_iff.1 hempty]⟩
      · obtain ⟨f, hf⟩ := Option.isSome_iff_exists.1 (h.held j hopen)
        have hlost : Sys.unsynced { s with card := s.card.append j d } = s.unsynced + bytesOf (some d) := by
          simp only [Sys.unsynced, hopen, Card.append, alter_slots, if_true, hf, Option.map_some, Option.getD_some]
          exact unsynced_append (h.synced j f hf) _
        refine ⟨h.alter hopen (g := fun f => f.append ⟨d, s.card.pass, s.card.appended⟩) ?_ rfl rfl ?_, hlost⟩
        · intro f hle
          simp only [File.append, List.length_append]
          omega
        · rw [hlost]
          exact (h.counted (by rw [hopen]; rfl)).trans (Nat.le_add_right _ _)

/-- A flush leaves nothing to lose. -/
theorem Apart.flush {s : Sys κ} (h : Apart s) (hreset : s.data.dataFile = none → s.data.sinceFlush = 0) : Fresh s.flush := by
  unfold Sys.flush
  cases hopen : s.data.dataFile with
  | none => exact ⟨h, by rw [Sys.unsynced, hopen], hreset hopen⟩
  | some j =>
    obtain ⟨f, hf⟩ := Option.isSome_iff_exists.1 (h.held j hopen)
    refine ⟨h.alter hopen (g := File.sync) (fun f _ => Nat.le_refl _) rfl rfl (Nat.zero_le _), ?_, rfl⟩
    simp only [Sys.unsynced, hopen, Card.sync, alter_slots, if_true, hf, Option.map_some, Option.getD_some]
    exact unsynced_of_synced rfl

/-! ## Programs -/

/-- What a cut at this point finds: files apart, and an open file that would lose no more than `P` allows. -/
def Loses (P : Nat → Prop) (s : Sys κ) : Prop := Apart s ∧ P s.unsynced

section

variable {P : Nat → Prop}

theorem Shut.loses {s : Sys κ} (h : Shut s) (hzero : P 0) : Loses P s := ⟨h.apart, h.unsynced.symm ▸ hzero⟩

theorem Fresh.loses {s : Sys κ} (h : Fresh s) (hzero : P 0) : Loses P s := ⟨h.toApart, h.nothing.symm ▸ hzero⟩

theorem tail_writeRaw {s : Sys κ} (h : Settled s) (data : Option κ) (hlost : P s.unsynced)
    (hmore : P (s.unsynced + bytesOf data)) : Prog.wp (Loses P) (writeRaw data) (fun _ => Fresh) s := by
  obtain ⟨hgrown, hbytes⟩ := h.appendBytes data
  simp only [writeRaw, Prog.wp_bind, Prog.wp_modify]
  refine ⟨⟨h.toApart, hlost⟩, ⟨hgrown, ?_⟩, hgrown.flush fun hnone => ?_⟩
  · rw [hbytes]
    split
    · exact hmore
    · exact hlost
  · rw [data_appendBytes] at hnone ⊢
    rw [← h.counts, Sys.unsynced, hnone]

theorem tail_notifyOpened (hzero : P 0) : ∀ {onOpen : List (Option κ)} {s : Sys κ}, (∀ data ∈ onOpen, P (bytesOf data)) →
    Fresh s → Prog.wp (Loses P) (notifyOpened onOpen) (fun _ => Fresh) s
  | [], _, _, h => h
  | data :: rest, s, hpieces, h => by
    obtain ⟨hfirst, hrest⟩ := List.forall_mem_cons.1 hpieces
    simp only [notifyOpened, Prog.wp_bind]
    refine Prog.wp_mono (fun _ hc => hc) (fun _ s' h' => tail_notifyOpened hzero hrest h') _ _
      (tail_writeRaw h.settled data ?_ ?_)
    · rwa [h.nothing]
    · rwa [h.nothing, Nat.zero_add]

theorem tail_openAndNotify {onOpen : List (Option κ)} {s : Sys κ} (hzero : P 0)
    (hpieces : ∀ data ∈ onOpen, P (bytesOf data)) (h : Shut s) :
    Prog.wp (Loses P) (openAndNotify onOpen) (fun _ => Fresh) s := by
  have hopened := h.openDataFile
  simp only [openAndNotify, Prog.wp_bind, Prog.wp_modify, Prog.wp_get, Prog.wp_when]
  refine ⟨h.loses hzero, hopened.loses hzero, ?_⟩
  split
  · exact tail_notifyOpened hzero hpieces hopened
  · exact hopened

theorem tail_writeLogIndex {s : Sys κ} (hzero : P 0) (h : Shut s) :
    Prog.wp (Loses P) writeLogIndex (fun _ s' => Shut s' ∧ s'.data = s.data) s := by
  have hindex : ∀ index, Shut { s with card := { s.card with index } } := fun _ => ⟨h.dataFile, h.closed⟩
  simp only [writeLogIndex, Prog.wp_bind, Prog.wp_get, Prog.wp_when, Prog.wp_modify]
  refine ⟨h.loses hzero, ?_⟩
  split
  · exact ⟨h.loses hzero, (hindex _).loses hzero, hindex _, trivial⟩
  · exact ⟨h, trivial⟩

theorem tail_openNextSlot {onOpen : List (Option κ)} {s : Sys κ} (hzero : P 0)
    (hpieces : ∀ data ∈ onOpen, P (bytesOf data)) (h : Loses P s) :
    Prog.wp (Loses P) (openNextSlot onOpen) (fun _ => Fresh) s := by
  have hclosed := h.1.close
  -- nothing is open from the close on, whatever becomes of the next slot
  have hrest : ∀ s₁ : Sys κ, Shut s₁ → Prog.wp (Loses P) (writeLogIndex >>= fun _ => openAndNotify onOpen) (fun _ => Fresh) s₁ := by
    intro s₁ h₁
    rw [Prog.wp_bind]
    exact Prog.wp_mono (fun _ hc => hc) (fun _ _ h₂ => tail_openAndNotify hzero hpieces h₂.1) _ _ (tail_writeLogIndex hzero h₁)
  have hmoved : Shut { s.close with data := { s.close.data with
      sinceFlush := 0, fileIdx := (s.close.data.fileIdx + 1) % s.close.data.files } } := ⟨hclosed.dataFile, hclosed.closed⟩
  simp only [openNextSlot, closeDataFile, Prog.wp_bind, Prog.wp_modify, Prog.wp_get, Prog.wp_when] at hrest ⊢
  refine ⟨h, hclosed.loses hzero, hmoved.loses hzero, ?_⟩
  split
  · refine ⟨hmoved.loses hzero, hrest _ ⟨hmoved.dataFile, fun i f hf => ?_⟩⟩
    simp only [remove_slots] at hf
    split at hf
    · cases hf
    · exact hmoved.closed i f hf
  · exact hrest _ hmoved

theorem tail_begin {onOpen : List (Option κ)} {s : Sys κ} (hzero : P 0) (hpieces : ∀ data ∈ onOpen, P (bytesOf data))
    (h : Loses P s) : Prog.wp (Loses P) (begin onOpen) (fun _ => Fresh) s := by
  have hclosed := h.1.close
  simp only [begin, closeDataFile, Prog.wp_bind, Prog.wp_modify, Prog.wp_get]
  refine ⟨h, hclosed.loses hzero, hclosed.loses hzero, ?_⟩
  refine Prog.wp_mono (fun _ hc => hc) ?_ _ _ (reads_findResume (hclosed.loses hzero) _ _ _ _ _)
  rintro found s₁ ⟨rfl, -⟩
  have hnamed : ∀ idx, Shut { s.close with data := { s.close.data with fileIdx := idx } } := fun _ =>
    ⟨hclosed.dataFile, hclosed.closed⟩
  cases found with
  | none =>
    simp only [Prog.wp_bind, Prog.wp_modify]
    exact ⟨hclosed.loses hzero, tail_openNextSlot hzero hpieces ((hnamed _).loses hzero)⟩
  | some resume =>
    simp only [Prog.wp_bind, Prog.wp_modify, Prog.wp_when]
    refine ⟨hclosed.loses hzero, ?_⟩
    split
    · exact Prog.wp_mono (fun _ hc => hc) (fun _ _ h₂ => tail_openAndNotify hzero hpieces h₂.1) _ _
        (tail_writeLogIndex hzero (hnamed _))
    · exact tail_openAndNotify hzero hpieces (hnamed _)

theorem tail_endLog {s : Sys κ} (h : Settled s) (hlost : P s.unsynced) (hzero : P 0) :
    Prog.wp (Loses P) endLog (fun _ => Settled) s := by
  have hclosed := h.toApart.close
  simp only [endLog, closeDataFile, Prog.wp_bind, Prog.wp_get, Prog.wp_when, Prog.wp_modify]
  refine ⟨⟨h.toApart, hlost⟩, ?_⟩
  split
  · have hreset : Shut { s.close with data := { s.close.data with sinceFlush := 0 } } := ⟨hclosed.dataFile, hclosed.closed⟩
    refine ⟨⟨h.toApart, hlost⟩, hclosed.loses hzero, ?_⟩
    exact Fresh.settled ⟨hreset.apart, hreset.unsynced, rfl⟩
  · exact h

/-- `write()`: the counter follows the append, and the flush and the rotation follow the counter. -/
theorem tail_write {data : Option κ} {onOpen : List (Option κ)} {s : Sys κ} (h : Settled s) (hlost : P s.unsynced)
    (hmore : P (s.unsynced + bytesOf data)) (hzero : P 0) (hpieces : ∀ data ∈ onOpen, P (bytesOf data)) :
    Prog.wp (Loses P) (write data onOpen) (fun _ => Settled) s := by
  simp only [write, Prog.wp_bind, Prog.wp_get]
  refine ⟨⟨h.toApart, hlost⟩, ?_⟩
  split
  swap
  · exact h
  rename_i d hopen
  rw [Prog.wp_when]
  split
  swap
  · exact h
  obtain ⟨hgrown, hbytes⟩ := h.toApart.appendBytes (some d)
  rw [if_pos hopen] at hbytes
  set s₁ := s.appendBytes (some d)
  have hdata : s₁.data = s.data := data_appendBytes _ s
  set s₂ : Sys κ := { s₁ with data := { s₁.data with sinceFlush := s₁.data.sinceFlush + (Payload.bytes d).length } }
  have hlost₂ : s₂.unsynced = s₂.data.sinceFlush := by
    show s₁.unsynced = s₁.data.sinceFlush + bytesOf (some d)
    rw [hbytes, hdata, h.counts]
  have hcounted : Apart s₂ := ⟨hgrown.held, hgrown.synced, hgrown.closed, fun _ => hlost₂.ge⟩
  have hloses₂ : Loses P s₂ := ⟨hcounted, by show P s₁.unsynced; rwa [hbytes]⟩
  -- the size test, behind a flush that was due or not
  have hrotate : ∀ s₃ : Sys κ, Settled s₃ → P s₃.unsynced →
      Prog.wp (Loses P) (.when (s₃.data.size ≤ s₃.dataFileSize) (openNextSlot onOpen)) (fun _ => Settled) s₃ := by
    intro s₃ h₃ hlost₃
    rw [Prog.wp_when]
    split
    · exact Prog.wp_mono (fun _ hc => hc) (fun _ _ => Fresh.settled) _ _ (tail_openNextSlot hzero hpieces ⟨h₃.toApart, hlost₃⟩)
    · exact h₃
  simp only [Prog.wp_bind, Prog.wp_modify, Prog.wp_get]
  refine ⟨⟨h.toApart, hlost⟩, ⟨hgrown, hloses₂.2⟩, hloses₂, ?_⟩
  rw [Prog.wp_when]
  split
  · have hflushed : Fresh s₂.flush := by
      apply hcounted.flush
      intro hnone
      change s₁.data.dataFile = none at hnone
      rw [hdata] at hnone
      rw [hnone] at hopen
      cases hopen
    refine ⟨hloses₂, hflushed.loses hzero, hflushed.loses hzero, ?_⟩
    exact hrotate _ hflushed.settled (hflushed.nothing.symm ▸ hzero)
  · rename_i hbelow
    refine ⟨hloses₂, hloses₂, hrotate _ ⟨hcounted, hlost₂, ?_⟩ hloses₂.2⟩
    simpa using hbelow

end

/-! ## Every run -/

/-- No more than what an interval still allows and the call's own bytes, or, behind the append of a
callback's `writeRaw()`, what that was handed. -/
def Call.Allows (c : Call κ) (lost : Nat) : Prop :=
  lost ≤ flushIntervalBytes - 1 + c.length ∨ ∃ data ∈ c.onOpen, lost = bytesOf data

theorem tail_call {s : Sys κ} (h : Settled s) (c : Call κ) : Prog.wp (Loses c.Allows) c.prog (fun _ => Settled) s := by
  have hbelow : s.unsynced ≤ flushIntervalBytes - 1 := by
    rw [h.counts]
    exact Nat.le_sub_one_of_lt h.below
  have hzero : c.Allows 0 := Or.inl (Nat.zero_le _)
  have hlost : c.Allows s.unsynced := Or.inl (hbelow.trans (Nat.le_add_right _ _))
  have hpieces : ∀ data ∈ c.onOpen, c.Allows (bytesOf data) := fun data hdata => Or.inr ⟨data, hdata, rfl⟩
  have hmore : c.Allows (s.unsynced + c.length) := Or.inl (Nat.add_le_add_right hbelow _)
  have hsettled : ∀ {m : Prog (Sys κ) Unit}, Prog.wp (Loses c.Allows) m (fun _ => Fresh) s →
      Prog.wp (Loses c.Allows) m (fun _ => Settled) s := fun hm =>
    Prog.wp_mono (fun _ hc => hc) (fun _ _ => Fresh.settled) _ _ hm
  cases c with
  | begin onOpen => exact hsettled (tail_begin hzero hpieces ⟨h.toApart, hlost⟩)
  | endLog => exact tail_endLog h hlost hzero
  | write data onOpen => exact tail_write h hlost hmore hzero hpieces
  | writeRaw data => exact hsettled (tail_writeRaw h data hlost hmore)

theorem settled_powerOn (files size : Nat) (c : Card κ) : Settled (powerOn files size c) := by
  have hshut := shut_powerOn files size c
  exact Fresh.settled ⟨hshut.apart, hshut.unsynced, rfl⟩

theorem settled_step {files size : Nat} {s s' : Sys κ} {e : CallEv κ} (h : Settled s) (hstep : s.step files size e = some s') :
    Settled s' := by
  cases e with
  | call c =>
    cases hstep
    exact ((Prog.wp_iff _ _).1 (tail_call h c)).2
  | cutIn c point =>
    obtain ⟨p, -, rfl⟩ := Option.map_eq_some_iff.1 hstep
    exact settled_powerOn files size p.card
  | cut =>
    cases hstep
    exact settled_powerOn files size s.card
  | writable w =>
    cases hstep
    exact ⟨⟨h.held, h.synced, h.closed, h.counted⟩, h.counts, h.below⟩
  | index index =>
    cases hstep
    exact ⟨⟨h.held, h.synced, h.closed, h.counted⟩, h.counts, h.below⟩

/-- What power loss costs, at the end of a call and at every point within the next. -/
structure BoundedTail (s : Sys κ) : Prop where
  counted : s.unsynced = s.data.sinceFlush
  below : s.data.sinceFlush < flushIntervalBytes
  within : ∀ c : Call κ, ∀ p ∈ c.prog.cuts s, Apart p ∧ KeepsFront p ∧ c.Allows p.unsynced

/-- From any card on, whatever is called, with whatever lengths, and wherever power is lost. -/
theorem power_loss_bounded (files size : Nat) (c : Card κ) (es : List (CallEv κ)) (s : Sys κ)
    (hrun : Runs.run (Sys.step files size) (powerOn files size c) es = some s) : BoundedTail s := by
  have h : Settled s := Runs.inv (fun _ _ _ h hstep => settled_step h hstep) (settled_powerOn files size c) hrun
  refine ⟨h.counts, h.below, fun call p hp => ?_⟩
  obtain ⟨hpoints, hend⟩ := (Prog.wp_iff _ _).1 (tail_call h call)
  rcases List.mem_append.1 hp with hp | hp
  · obtain ⟨hapart, hlost⟩ := hpoints p hp
    exact ⟨hapart, hapart.keepsFront, hlost⟩
  · cases List.mem_singleton.1 hp
    refine ⟨hend.toApart, hend.toApart.keepsFront, Or.inl ?_⟩
    rw [hend.counts]
    exact (Nat.le_sub_one_of_lt hend.below).trans (Nat.le_add_right _ _)

/-- A write that fills the first file, another into the second, and power lost before that is synced. -/
def losesLast : List (CallEv (List UInt8)) :=
  [.call (.begin [some [0]]), .call (.write (some [1, 1]) [some [0]]), .call (.write (some [2]) [some [0]]), .cut,
    .call (.begin [])]

theorem power_loss_bounded_losesLast : ∃ s s', Runs.run (Sys.step 2 3) (powerOn 2 3 {}) (losesLast.take 3) = some s ∧
    s.data.fileIdx = 1 ∧ s.unsynced = 1 ∧ BoundedTail s ∧ Runs.run (Sys.step 2 3) s (losesLast.drop 3) = some s' ∧
    (s.card.slots 1).map File.payloads = some [[0], [2]] ∧ (s'.card.slots 1).map File.payloads = some [[0]] ∧ BoundedTail s' :=
  ⟨_, _, rfl, rfl, rfl, power_loss_bounded 2 3 {} (losesLast.take 3) _ rfl, rfl, by decide, by decide,
    power_loss_bounded 2 3 {} losesLast _ rfl⟩

/-- A rotation's callback that hands 4098 bytes to one `writeRaw()` has them all unsynced for a moment,
inside a `write()` of one byte. -/
theorem longPiece_unsynced : ¬ ∀ (files size : Nat) (c : Card (List UInt8)) (es : List (CallEv (List UInt8))) (s : Sys (List UInt8)),
    Runs.run (Sys.step files size) (powerOn files size c) es = some s → ∀ data onOpen,
      ∀ p ∈ (Call.write data onOpen).prog.cuts s, p.unsynced ≤ flushIntervalBytes - 1 + bytesOf data := by
  intro h
  have hlong : 4098 ∈ ((Call.write (some [1]) [some (List.replicate 4098 0)]).prog.cuts
      ((begin []).run (powerOn 2 1 {})).2).map (Sys.unsynced (κ := List UInt8)) := by decide +kernel
  obtain ⟨p, hp, hlost⟩ := List.mem_map.1 hlong
  have hle := h 2 1 {} [.call (.begin [])] _ rfl (some [1]) [some (List.replicate 4098 0)] p hp
  rw [hlost] at hle
  exact absurd hle (by decide)

end BoredomOS.Storage
