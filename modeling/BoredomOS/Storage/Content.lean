/-
What the files of the ring hold, for a format that only says what may follow what: a preamble may
be appended to any file there is, a record to the file that was opened with one. Over any run of
restarts, writes, power cuts and damaged indexes every file on the card keeps to the format, at
every point of every operation. Nothing here depends on where the ring stands.
-/
import BoredomOS.Lib.Runs
import BoredomOS.Storage.Programs

namespace BoredomOS.Storage

open Steps

variable {κ : Type} [Payload κ]

/-- What a format asks of the pieces of a file: `good` of every file, `ready` of one that a record
may be appended to. What is left of a file is good if the file was. -/
structure Discipline (κ : Type) where
  good : List κ → Prop
  ready : List κ → Prop
  good_nil : good []
  good_left : ∀ {l m}, good (l ++ m) → good l

namespace Discipline

variable (D : Discipline κ)

/-- Whatever a file holds, the preamble makes it ready. -/
def Opens (onOpen : List (Option κ)) : Prop :=
  ∀ l, D.good l → D.good (l ++ onOpen.flatMap appended) ∧ D.ready (l ++ onOpen.flatMap appended)

/-- A ready file stays ready with this appended. -/
def Takes (data : Option κ) : Prop :=
  ∀ l, D.good l → D.ready l → D.good (l ++ appended data) ∧ D.ready (l ++ appended data)

omit [Payload κ] in
def AllGood (c : Card κ) : Prop := ∀ i f, c.slots i = some f → D.good f.payloads

/-- Every file is good, and the open one ready. -/
structure Fit (s : Sys κ) : Prop where
  all : D.AllGood s.card
  ready : ∀ i f, s.data.dataFile = some i → s.card.slots i = some f → D.ready f.payloads

end Discipline

variable {D : Discipline κ}

/-! ## Steps -/

/-- Each file of `c'` holds what it held in `c`. -/
def Kept (c c' : Card κ) : Prop := ∀ i f, c'.slots i = some f → ∃ g, c.slots i = some g ∧ f.payloads = g.payloads

omit [Payload κ] in
theorem Discipline.AllGood.kept {c c' : Card κ} (hgood : D.AllGood c) (hk : Kept c c') : D.AllGood c' := by
  intro i f hf
  obtain ⟨g, hg, heq⟩ := hk i f hf
  rw [heq]
  exact hgood i g hg

omit [Payload κ] in
theorem kept_sync (c : Card κ) (i : Nat) : Kept c (c.sync i) := by
  intro j f hf
  rw [Card.sync, alter_slots] at hf
  split at hf
  · obtain ⟨g, hg, rfl⟩ := Option.map_eq_some_iff.1 hf
    rename_i heq
    exact ⟨g, heq ▸ hg, rfl⟩
  · exact ⟨f, hf, rfl⟩

omit [Payload κ] in
theorem kept_flush (s : Sys κ) : Kept s.card s.flush.card := by
  unfold Sys.flush
  split
  · exact fun _ f hf => ⟨f, hf, rfl⟩
  · exact kept_sync _ _

omit [Payload κ] in
theorem kept_close (s : Sys κ) : Kept s.card s.close.card := by
  unfold Sys.close
  split
  · exact fun _ f hf => ⟨f, hf, rfl⟩
  · exact kept_sync _ _

omit [Payload κ] in
theorem dataFile_flush (s : Sys κ) : s.flush.data.dataFile = s.data.dataFile := by
  unfold Sys.flush
  split <;> rfl

theorem data_appendBytes (data : Option κ) (s : Sys κ) : (s.appendBytes data).data = s.data := by
  unfold Sys.appendBytes
  split
  · split <;> rfl
  · rfl

omit [Payload κ] in
theorem size_flush (s : Sys κ) : s.flush.data.size = s.data.size := by
  unfold Sys.flush
  split <;> rfl

/-! A card stays writable or not, whatever is written. -/

omit [Payload κ] in
theorem writable_flush (s : Sys κ) : s.flush.card.writable = s.card.writable := by
  unfold Sys.flush
  split <;> rfl

omit [Payload κ] in
theorem writable_close (s : Sys κ) : s.close.card.writable = s.card.writable := by
  unfold Sys.close
  split <;> rfl

theorem writable_appendBytes (data : Option κ) (s : Sys κ) : (s.appendBytes data).card.writable = s.card.writable := by
  unfold Sys.appendBytes
  split
  · split <;> rfl
  · rfl

/-- The open file gains what is appended, every other file nothing. -/
theorem slots_appendBytes {data : Option κ} {s : Sys κ} {i : Nat} {f : File κ}
    (hf : (s.appendBytes data).card.slots i = some f) :
    ∃ g, s.card.slots i = some g ∧
      f.payloads = g.payloads ++ if s.data.dataFile = some i then appended data else [] := by
  cases hd : s.data.dataFile with
  | none =>
    have hsame : (s.appendBytes data).card = s.card := by rw [Sys.appendBytes]; simp [hd]
    rw [hsame] at hf
    exact ⟨f, hf, by simp⟩
  | some j =>
    cases data with
    | none =>
      simp only [Sys.appendBytes, hd] at hf
      exact ⟨f, hf, by simp [appended]⟩
    | some d =>
      simp only [Sys.appendBytes, hd] at hf
      simp only [appended]
      split at hf
      · exact ⟨f, hf, by simp [*]⟩
      · rename_i hne
        rw [if_neg hne]
        simp only [Card.append, alter_slots] at hf
        split at hf
        · rename_i heq
          obtain ⟨g, hg, rfl⟩ := Option.map_eq_some_iff.1 hf
          exact ⟨g, heq ▸ hg, by simp [File.append, File.payloads, heq]⟩
        · rename_i hij
          exact ⟨f, hf, by rw [if_neg (fun h => hij (Option.some.inj h).symm), List.append_nil]⟩

/-! ## Opening a file -/

/-- The open file is ready once the rest of the preamble is in it, and every file is good. -/
structure Discipline.Opening (D : Discipline κ) (rest : List (Option κ)) (s : Sys κ) : Prop where
  all : D.AllGood s.card
  then_ready : ∀ i f, s.data.dataFile = some i → s.card.slots i = some f →
    D.good (f.payloads ++ rest.flatMap appended) ∧ D.ready (f.payloads ++ rest.flatMap appended)

theorem Discipline.Opening.appendBytes {data : Option κ} {rest : List (Option κ)} {s : Sys κ}
    (h : D.Opening (data :: rest) s) : D.Opening rest (s.appendBytes data) := by
  constructor
  · intro i f hf
    obtain ⟨g, hg, heq⟩ := slots_appendBytes hf
    rw [heq]
    split
    · rename_i hd
      have := (h.then_ready i g hd hg).1
      rw [List.flatMap_cons, ← List.append_assoc] at this
      exact D.good_left this
    · rw [List.append_nil]
      exact h.all i g hg
  · intro i f hd hf
    rw [data_appendBytes] at hd
    obtain ⟨g, hg, heq⟩ := slots_appendBytes hf
    rw [heq, if_pos hd, List.append_assoc, ← List.flatMap_cons]
    exact h.then_ready i g hd hg

omit [Payload κ] in
theorem Kept.payloads {c c' : Card κ} {P : List κ → Prop} (hk : Kept c c') {i : Nat} {f : File κ}
    (hf : c'.slots i = some f) (h : ∀ g, c.slots i = some g → P g.payloads) : P f.payloads := by
  obtain ⟨g, hg, heq⟩ := hk i f hf
  rw [heq]
  exact h g hg

theorem Discipline.Opening.flush {rest : List (Option κ)} {s : Sys κ} (h : D.Opening rest s) :
    D.Opening rest s.flush := by
  refine ⟨h.all.kept (kept_flush s), fun i f hd hf => ?_⟩
  rw [dataFile_flush] at hd
  exact (kept_flush s).payloads (P := fun l => D.good (l ++ rest.flatMap appended) ∧ D.ready (l ++ rest.flatMap appended))
    hf fun g hg => h.then_ready i g hd hg

theorem fit_notifyOpened : ∀ (onOpen : List (Option κ)) {s : Sys κ}, D.Opening onOpen s →
    Prog.wp (fun s => D.AllGood s.card) (notifyOpened onOpen) (fun _ s' => D.Fit s') s
  | [], s, h => ⟨h.all, fun i f hd hf => by simpa using (h.then_ready i f hd hf).2⟩
  | data :: rest, s, h => by
    have happ := h.appendBytes
    simp only [notifyOpened, writeRaw, Prog.wp_bind, Prog.wp_modify]
    exact ⟨h.all, happ.all, fit_notifyOpened rest happ.flush⟩

/-- What is in the file that an open would take. -/
def Sys.heldPayloads (s : Sys κ) : List κ :=
  match s.card.slots s.data.fileIdx with
  | some f => f.payloads
  | none => []

omit [Payload κ] in
theorem allGood_openDataFile {s : Sys κ} (hgood : D.AllGood s.card) : D.AllGood s.openDataFile.card := by
  unfold Sys.openDataFile Card.openSlot
  split
  · split
    · exact hgood
    · intro i f hf
      simp only [Function.update_apply] at hf
      split at hf
      · cases hf; exact D.good_nil
      · exact hgood i f hf
  · exact hgood

omit [Payload κ] in
/-- The file that is open afterwards holds what it held. -/
theorem payloads_openDataFile {s : Sys κ} {i : Nat} {f : File κ} (hd : s.openDataFile.data.dataFile = some i)
    (hf : s.openDataFile.card.slots i = some f) : s.card.writable = true ∧ f.payloads = s.heldPayloads := by
  unfold Sys.openDataFile at hd hf
  split at hd
  · rename_i hwritable
    obtain rfl := Option.some.inj hd
    rw [if_pos hwritable] at hf
    refine ⟨hwritable, ?_⟩
    cases hslot : s.card.slots s.data.fileIdx with
    | some g =>
      simp only [Card.openSlot, hslot] at hf
      cases hf
      simp only [Sys.heldPayloads, hslot]
    | none =>
      simp only [Card.openSlot, hslot, Function.update_self, Option.some.injEq] at hf
      simp only [Sys.heldPayloads, hslot, ← hf]
      rfl
  · cases hd

theorem fit_openAndNotify {onOpen : List (Option κ)} {s : Sys κ} (hgood : D.AllGood s.card)
    (hopens : s.card.writable = true → D.good (s.heldPayloads ++ onOpen.flatMap appended) ∧
      D.ready (s.heldPayloads ++ onOpen.flatMap appended)) :
    Prog.wp (fun s => D.AllGood s.card) (openAndNotify onOpen) (fun _ s' => D.Fit s') s := by
  have hall := allGood_openDataFile hgood
  have hopening : D.Opening onOpen
      { s.openDataFile with data := { s.openDataFile.data with sinceFlush := 0 } } := by
    refine ⟨hall, fun i f hd hf => ?_⟩
    obtain ⟨hwritable, hheld⟩ := payloads_openDataFile hd hf
    rw [hheld]
    exact hopens hwritable
  simp only [openAndNotify, Prog.wp_bind, Prog.wp_modify, Prog.wp_get, Prog.wp_when]
  refine ⟨hgood, hall, ?_⟩
  split
  · exact fit_notifyOpened onOpen hopening
  · rename_i hnone
    refine ⟨hall, fun i f hd => ?_⟩
    rw [hd] at hnone
    exact absurd rfl hnone

omit [Payload κ] in
/-- The index is no log file. -/
theorem fit_writeLogIndex {s : Sys κ} (hgood : D.AllGood s.card) :
    Prog.wp (fun s => D.AllGood s.card) writeLogIndex
      (fun _ s' => s'.card.slots = s.card.slots ∧ s'.card.writable = s.card.writable ∧ s'.data = s.data) s := by
  simp only [writeLogIndex, Prog.wp_bind, Prog.wp_get, Prog.wp_when, Prog.wp_modify]
  refine ⟨hgood, ?_⟩
  split
  · exact ⟨hgood, hgood, rfl, rfl, trivial⟩
  · exact ⟨trivial, trivial, trivial⟩

omit [Payload κ] in
theorem Discipline.AllGood.congr {c c' : Card κ} (hgood : D.AllGood c) (hslots : c'.slots = c.slots) : D.AllGood c' := by
  intro i f hf
  rw [hslots] at hf
  exact hgood i f hf

omit [Payload κ] in
theorem allGood_remove {c : Card κ} (hgood : D.AllGood c) (i : Nat) : D.AllGood (c.remove i) := by
  intro j f hf
  simp only [Card.remove, Function.update_apply] at hf
  split at hf
  · cases hf
  · exact hgood j f hf

/-- The next slot's file is a new one. -/
theorem fit_openNextSlot {onOpen : List (Option κ)} {s : Sys κ} (hgood : D.AllGood s.card)
    (hopens : s.card.writable = true → D.good (onOpen.flatMap appended) ∧ D.ready (onOpen.flatMap appended)) :
    Prog.wp (fun s => D.AllGood s.card) (openNextSlot onOpen) (fun _ s' => D.Fit s') s := by
  have hclosed := hgood.kept (kept_close s)
  have hsame := writable_close s
  have hrest : ∀ s' : Sys κ, D.AllGood s'.card → s'.card.slots s'.data.fileIdx = none →
      s'.card.writable = s.card.writable → Prog.wp (fun s => D.AllGood s.card) writeLogIndex
      (fun _ s'' => Prog.wp (fun s => D.AllGood s.card) (openAndNotify onOpen) (fun _ s' => D.Fit s') s'') s' := by
    intro s' hgood' hnone hwritable
    refine Prog.wp_mono (fun _ h => h) (fun _ s'' h'' => ?_) _ _ (fit_writeLogIndex hgood')
    obtain ⟨hslots, hsame', hdata⟩ := h''
    have hheld : s''.heldPayloads = [] := by rw [Sys.heldPayloads, hslots, hdata, hnone]
    refine fit_openAndNotify (hgood'.congr hslots) fun hw => ?_
    rw [hheld, List.nil_append]
    exact hopens (by rw [← hwritable, ← hsame', hw])
  simp only [openNextSlot, closeDataFile, Prog.wp_bind, Prog.wp_modify, Prog.wp_get, Prog.wp_when]
  refine ⟨hgood, hclosed, hclosed, ?_⟩
  split
  · exact ⟨hclosed, hrest _ (allGood_remove hclosed _) (Function.update_self ..) hsame⟩
  · rename_i hpresent
    exact hrest _ hclosed (by simpa using hpresent) hsame

/-! ## Operations -/

/-- The walk only looks. -/
theorem fit_findResume {s : Sys κ} (hgood : D.AllGood s.card) (files size indexed : Nat) : ∀ left step,
    Prog.wp (fun s => D.AllGood s.card) (findResume files size indexed left step) (fun _ s' => s' = s) s
  | 0, _ => rfl
  | left + 1, step => by
    simp only [findResume, Prog.wp_bind, Prog.wp_get]
    refine ⟨hgood, ?_⟩
    split
    · exact fit_findResume hgood files size indexed left (step + 1)
    · exact rfl

theorem fit_begin {onOpen : List (Option κ)} {s : Sys κ} (hgood : D.AllGood s.card)
    (hopens : s.card.writable = true → D.Opens onOpen) :
    Prog.wp (fun s => D.AllGood s.card) (begin onOpen) (fun _ s' => D.Fit s') s := by
  have hclosed := hgood.kept (kept_close s)
  have hsame := writable_close s
  have hopen : ∀ s' : Sys κ, D.AllGood s'.card → s'.card.writable = s.card.writable →
      Prog.wp (fun s => D.AllGood s.card) (openAndNotify onOpen) (fun _ s' => D.Fit s') s' := by
    intro s' hgood' hwritable
    refine fit_openAndNotify hgood' fun hw => hopens (hwritable ▸ hw) _ ?_
    unfold Sys.heldPayloads
    split
    · rename_i f hf
      exact hgood' _ f hf
    · exact D.good_nil
  simp only [begin, closeDataFile, Prog.wp_bind, Prog.wp_modify, Prog.wp_get]
  refine ⟨hgood, hclosed, hclosed, ?_⟩
  refine Prog.wp_mono (fun _ h => h) (fun found s' hs' => ?_) _ _ (fit_findResume hclosed _ _ _ _ _)
  subst hs'
  cases found with
  | none =>
    simp only [Prog.wp_bind, Prog.wp_modify]
    exact ⟨hclosed, fit_openNextSlot hclosed fun hw => hopens (hsame ▸ hw) [] D.good_nil⟩
  | some resume =>
    simp only [Prog.wp_bind, Prog.wp_modify, Prog.wp_when]
    refine ⟨hclosed, ?_⟩
    split
    · refine Prog.wp_mono (fun _ h => h) (fun _ s'' h'' => ?_) _ _ (fit_writeLogIndex hclosed)
      exact hopen s'' (hclosed.congr h''.1) (h''.2.1.trans hsame)
    · exact hopen _ hclosed hsame

/-- The write fills the file and moves on to the next slot: `write()`'s own test. -/
def Sys.fills (s : Sys κ) (data : Option κ) : Bool :=
  match s.data.dataFile, data with
  | some _, some d => !(Payload.bytes d).isEmpty && decide (s.data.size ≤ (s.appendBytes (some d)).dataFileSize)
  | _, _ => false

theorem dataFileSize_flush (s : Sys κ) : s.flush.dataFileSize = s.dataFileSize := by
  unfold Sys.flush Sys.dataFileSize
  cases hd : s.data.dataFile with
  | none => simp [hd]
  | some i =>
    simp only [hd, Card.sync, Card.alter, Function.update_self, Option.map_map]
    rfl

theorem Discipline.AllGood.appendBytes {data : Option κ} {s : Sys κ} (hall : D.AllGood s.card)
    (htakes : ∀ i f, s.data.dataFile = some i → s.card.slots i = some f → D.good (f.payloads ++ appended data)) :
    D.AllGood (s.appendBytes data).card := by
  intro i f hf
  obtain ⟨g, hg, heq⟩ := slots_appendBytes hf
  rw [heq]
  split
  · rename_i hd
    exact htakes i g hd hg
  · rw [List.append_nil]
    exact hall i g hg

/-- `s'` is `s` with `data` appended to the open file, flushed or not. -/
structure Grew (data : Option κ) (s s' : Sys κ) : Prop where
  kept : Kept (s.appendBytes data).card s'.card
  dataFile : s'.data.dataFile = s.data.dataFile
  size : s'.data.size = s.data.size
  length : s'.dataFileSize = (s.appendBytes data).dataFileSize
  writable : s'.card.writable = s.card.writable

theorem Grew.flush {data : Option κ} {s s' : Sys κ} (h : Grew data s s') : Grew data s s'.flush where
  kept i f hf := by
    obtain ⟨g, hg, heq⟩ := kept_flush s' i f hf
    rw [heq]
    exact h.kept i g hg
  dataFile := (dataFile_flush s').trans h.dataFile
  size := (size_flush s').trans h.size
  length := (dataFileSize_flush s').trans h.length
  writable := (writable_flush s').trans h.writable

/-- Behind an append the file rotates if it is full, or stays open. -/
theorem fit_rotate {data : Option κ} {onOpen : List (Option κ)} {s s' : Sys κ} (hgrew : Grew data s s')
    (hgood : D.AllGood (s.appendBytes data).card)
    (hstays : ¬ s.data.size ≤ (s.appendBytes data).dataFileSize → ∀ i f, s.data.dataFile = some i →
      s.card.slots i = some f → D.ready (f.payloads ++ appended data))
    (hopens : s.data.size ≤ (s.appendBytes data).dataFileSize → s.card.writable = true →
      D.good (onOpen.flatMap appended) ∧ D.ready (onOpen.flatMap appended)) :
    Prog.wp (fun s => D.AllGood s.card) (Prog.when (s'.data.size ≤ s'.dataFileSize) (openNextSlot onOpen))
      (fun _ s'' => D.Fit s'') s' := by
  have hgood' : D.AllGood s'.card := hgood.kept hgrew.kept
  rw [Prog.wp_when, hgrew.size, hgrew.length]
  split
  · rename_i hfull
    exact fit_openNextSlot hgood' fun hw => hopens (of_decide_eq_true hfull) (hgrew.writable ▸ hw)
  · rename_i hroom
    rw [decide_eq_true_eq] at hroom
    refine ⟨hgood', fun i f hd hf => ?_⟩
    have hopen := hgrew.dataFile ▸ hd
    obtain ⟨g, hg, heq⟩ := hgrew.kept i f hf
    obtain ⟨g', hg', heq'⟩ := slots_appendBytes hg
    rw [heq, heq', if_pos hopen]
    exact hstays hroom i g' hopen hg'

/-- A write takes a file from one readiness to the next: that of a file with the record behind it, or
that of a new file, which is the open one if the write filled the old one. -/
theorem fit_write_into {D' : Discipline κ} {data : Option κ} {onOpen : List (Option κ)} {s : Sys κ}
    (hsame : ∀ l, D.good l → D'.good l) (hfit : D.Fit s)
    (htakes : ∀ l, D.good l → D.ready l → D'.good (l ++ appended data))
    (hstays : s.fills data = false → ∀ l, D.good l → D.ready l → D'.ready (l ++ appended data))
    (hopens : s.fills data = true → s.card.writable = true →
      D'.good (onOpen.flatMap appended) ∧ D'.ready (onOpen.flatMap appended)) :
    Prog.wp (fun s => D'.AllGood s.card) (write data onOpen) (fun _ s' => D'.Fit s') s := by
  have hall : D'.AllGood s.card := fun i f hf => hsame _ (hfit.all i f hf)
  have hready : s.fills data = false → ∀ i f, s.data.dataFile = some i → s.card.slots i = some f →
      D'.ready (f.payloads ++ appended data) :=
    fun hfills i f hd hf => hstays hfills _ (hfit.all i f hf) (hfit.ready i f hd hf)
  have hnothing : appended data = [] → s.fills data = false → D'.Fit s := by
    intro hnone hfills
    refine ⟨hall, fun i f hd hf => ?_⟩
    have := hready hfills i f hd hf
    rwa [hnone, List.append_nil] at this
  simp only [write, Prog.wp_bind, Prog.wp_get]
  refine ⟨hall, ?_⟩
  cases hfile : s.data.dataFile with
  | none => exact ⟨hall, fun i f hd => by rw [hfile] at hd; cases hd⟩
  | some slot =>
    cases data with
    | none => exact hnothing rfl (by simp [Sys.fills])
    | some d =>
      simp only [Option.isSome_some]
      rw [Prog.wp_when]
      split
      swap
      · rename_i hempty
        exact hnothing (by simpa [appended] using hempty) (by simp [Sys.fills, hfile, hempty])
      rename_i hbytes
      have hfills : s.fills (some d) = decide (s.data.size ≤ (s.appendBytes (some d)).dataFileSize) := by
        simp only [Sys.fills, hfile, hbytes, Bool.true_and]
      have happ : D'.AllGood (s.appendBytes (some d)).card :=
        hall.appendBytes fun i f hd hf => htakes _ (hfit.all i f hf) (hfit.ready i f hd hf)
      have hgrew : Grew (some d) s { s.appendBytes (some d) with data := { (s.appendBytes (some d)).data with
          sinceFlush := (s.appendBytes (some d)).data.sinceFlush + (Payload.bytes d).length } } := by
        have hopen : (s.appendBytes (some d)).data.dataFile = s.data.dataFile := by rw [data_appendBytes]
        have hsize : (s.appendBytes (some d)).data.size = s.data.size := by rw [data_appendBytes]
        exact ⟨fun i f hf => ⟨f, hf, rfl⟩, hopen, hsize, rfl, writable_appendBytes ..⟩
      have hrotate : ∀ s', Grew (some d) s s' → Prog.wp (fun s => D'.AllGood s.card)
          (Prog.when (s'.data.size ≤ s'.dataFileSize) (openNextSlot onOpen)) (fun _ s'' => D'.Fit s'') s' := by
        intro s' hs'
        refine fit_rotate hs' happ (fun hroom => hready ?_) fun hfull => hopens ?_
        · rw [hfills, decide_eq_false hroom]
        · rw [hfills, decide_eq_true hfull]
      simp only [Prog.wp_bind, Prog.wp_modify, Prog.wp_get]
      refine ⟨hall, happ, happ, ?_⟩
      rw [Prog.wp_when]
      split
      · have hflushed := happ.kept hgrew.flush.kept
        exact ⟨happ, hflushed, hflushed, hrotate _ hgrew.flush⟩
      · exact ⟨happ, happ, hrotate _ hgrew⟩

theorem fit_write {data : Option κ} {onOpen : List (Option κ)} {s : Sys κ} (htakes : D.Takes data)
    (hopens : D.Opens onOpen) (hfit : D.Fit s) :
    Prog.wp (fun s => D.AllGood s.card) (write data onOpen) (fun _ s' => D.Fit s') s :=
  fit_write_into (fun _ h => h) hfit (fun l hgood hready => (htakes l hgood hready).1)
    (fun _ l hgood hready => (htakes l hgood hready).2) fun _ _ => hopens [] D.good_nil

/-! ## Runs -/

/-- The operations keep to the format in what they hand over. -/
def Discipline.OpFits (D : Discipline κ) : Op κ → Prop
  | .begin onOpen => D.Opens onOpen
  | .write data onOpen => D.Takes data ∧ D.Opens onOpen

def Discipline.EvFits (D : Discipline κ) : Ev κ → Prop
  | .op o | .cutIn o _ => D.OpFits o
  | .cut | .damage _ => True

/-- Every file is good, and the one the object writes ready. -/
structure Discipline.RigFit (D : Discipline κ) (r : Rig κ) : Prop where
  all : D.AllGood r.card
  running : ∀ d, r.data = some d → D.Fit ⟨r.card, d⟩

theorem fit_op {files size : Nat} {r : Rig κ} (hr : D.RigFit r) {op : Op κ} (hop : D.OpFits op) {s : Sys κ}
    (hs : r.start files size op = some s) :
    Prog.wp (fun s => D.AllGood s.card) op.prog (fun _ s' => D.Fit s') s := by
  cases op with
  | begin onOpen =>
    cases hs
    exact fit_begin hr.all fun _ => hop
  | write data onOpen =>
    obtain ⟨d, hd, rfl⟩ := Option.map_eq_some_iff.1 hs
    exact fit_write hop.1 hop.2 (hr.running d hd)

omit [Payload κ] in
theorem allGood_cut {c : Card κ} (hgood : D.AllGood c) : D.AllGood c.cut := by
  intro i f hf
  obtain ⟨g, hg, rfl⟩ := Option.map_eq_some_iff.1 hf
  have hsplit : g.payloads = g.cut.payloads ++ (g.pieces.drop g.synced).map Piece.payload := by
    rw [File.payloads, File.payloads, File.cut, ← List.map_append, List.take_append_drop]
  have := hgood i g hg
  rw [hsplit] at this
  exact D.good_left this

theorem rigFit_step {files size : Nat} {r r' : Rig κ} {e : Ev κ} (hr : D.RigFit r) (he : D.EvFits e)
    (hstep : r.step files size e = some r') : D.RigFit r' := by
  cases e with
  | op op =>
    obtain ⟨s, hs, rfl⟩ := Option.map_eq_some_iff.1 hstep
    have hfit := ((Prog.wp_iff _ _).1 (fit_op hr he hs)).2
    refine ⟨hfit.all, fun d hd => ?_⟩
    cases hd
    exact hfit
  | cutIn op point =>
    obtain ⟨s, hs, hstep⟩ := Option.bind_eq_some_iff.1 hstep
    obtain ⟨p, hp, rfl⟩ := Option.map_eq_some_iff.1 hstep
    have hgood := ((Prog.wp_iff _ _).1 (fit_op hr he hs)).1 p (List.mem_of_getElem? hp)
    exact ⟨allGood_cut hgood, fun d hd => by cases hd⟩
  | cut =>
    cases hstep
    exact ⟨allGood_cut hr.all, fun d hd => by cases hd⟩
  | damage index =>
    simp only [Rig.step] at hstep
    split at hstep
    · cases hstep
      exact ⟨hr.all, fun d hd => ⟨hr.all, (hr.running d hd).ready⟩⟩
    · cases hstep

theorem rigFit_run {files size : Nat} : ∀ {es : List (Ev κ)} {r r' : Rig κ}, D.RigFit r → (∀ e ∈ es, D.EvFits e) →
    Runs.run (Rig.step files size) r es = some r' → D.RigFit r'
  | [], _, _, hr, _, hrun => by cases hrun; exact hr
  | e :: es, r, _, hr, hes, hrun => by
    obtain ⟨m, hm, hrun⟩ := Option.bind_eq_some_iff.1 hrun
    have hmid := rigFit_step hr (hes e (List.mem_cons_self ..)) hm
    exact rigFit_run hmid (fun e' he' => hes e' (List.mem_cons_of_mem _ he')) hrun

omit [Payload κ] in
theorem rigFit_empty : D.RigFit ({ card := {} } : Rig κ) :=
  ⟨fun i f hf => (by cases hf), fun d hd => (by cases hd)⟩

/-- Where an operation can be interrupted, every file is good. -/
theorem rigFit_within {files size : Nat} {r : Rig κ} (hr : D.RigFit r) {op : Op κ} (hop : D.OpFits op) :
    ∀ p ∈ r.within files size op, D.AllGood p.card := by
  intro p hp
  unfold Rig.within at hp
  split at hp
  · rename_i s hs
    exact ((Prog.wp_iff _ _).1 (fit_op hr hop hs)).1 p hp
  · cases hp

end BoredomOS.Storage
