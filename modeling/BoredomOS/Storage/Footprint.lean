/-
How much of the card the log takes. The size limit is looked at in `write()` alone, and a preamble goes past
it unseen: what bounds a file is that `begin()` opens none that `write()` would have left. So a file an
operation leaves open is below the limit but for one preamble, and a file that is closed but for one more
record, however many restarts there are.
-/
import BoredomOS.Storage.Tail

namespace BoredomOS.Storage

open Steps

variable {κ : Type} [Payload κ]

/-! ## What the callers keep to -/

def preambleBytes (onOpen : List (Option κ)) : Nat := (onOpen.map bytesOf).sum

/-- Preambles and records no longer than that, and no `writeRaw()` but the callback's. -/
def Call.Keeps (preamble record : Nat) : Call κ → Prop
  | .begin onOpen => preambleBytes onOpen ≤ preamble
  | .endLog => True
  | .write data onOpen => bytesOf data ≤ record ∧ preambleBytes onOpen ≤ preamble
  | .writeRaw _ => False

/-- And no record at all. -/
def Call.Idles (preamble : Nat) : Call κ → Prop
  | .begin onOpen => preambleBytes onOpen ≤ preamble
  | .endLog => True
  | .write _ _ | .writeRaw _ => False

theorem Call.Idles.keeps {preamble : Nat} : ∀ {c : Call κ}, c.Idles preamble → c.Keeps preamble 0
  | .begin _, h => h
  | .endLog, _ => trivial

/-- Every call of a run is one of these. -/
def CallEv.Of (A : Call κ → Prop) : CallEv κ → Prop
  | .call c | .cutIn c _ => A c
  | .cut | .writable _ | .index _ => True

/-- `p` is where a run of such calls comes by from `s`, between two of them or within the next. -/
def Passes (files size : Nat) (A : Call κ → Prop) (s p : Sys κ) : Prop :=
  ∃ es s', (∀ e ∈ es, e.Of A) ∧ Runs.run (Sys.step files size) s es = some s' ∧ (p = s' ∨ ∃ c, A c ∧ p ∈ c.prog.points s')

/-! ## Sizes -/

/-- The files are those of `n` slots, each within its slot's bound. -/
def Fits (n : Nat) (bound : Nat → Nat) (c : Card κ) : Prop := ∀ i f, c.slots i = some f → i < n ∧ f.size ≤ bound i

/-- The object is on a ring of `n` slots that fits, and the open file is no longer than `room`. -/
structure Bounded (n size : Nat) (bound : Nat → Nat) (room : Nat) (s : Sys κ) : Prop where
  fits : Fits n bound s.card
  files : s.data.files = n
  limit : s.data.size = size
  fileIdx : s.data.fileIdx < n
  open_le : s.dataFileSize ≤ room

section

variable {n size : Nat} {bound : Nat → Nat}

theorem size_append (f : File κ) (p : Piece κ) : (f.append p).size = f.size + (Payload.bytes p.payload).length := by
  simp [File.size, File.append, sizeOfPieces]

theorem size_cut_le (f : File κ) : f.cut.size ≤ f.size := by
  rw [← length_content f, length_cut_add, length_content]
  exact Nat.le_add_right _ _

theorem Fits.alter {c : Card κ} (h : Fits n bound c) {j : Nat} {g : File κ → File κ}
    (hg : ∀ f, c.slots j = some f → f.size ≤ bound j → (g f).size ≤ bound j) : Fits n bound (c.alter j g) := by
  intro i f hf
  rw [alter_slots] at hf
  split at hf
  · rename_i heq
    obtain ⟨f', hf', rfl⟩ := Option.map_eq_some_iff.1 hf
    rw [heq]
    exact ⟨(h j f' hf').1, hg f' hf' (h j f' hf').2⟩
  · exact h i f hf

theorem Fits.cut {c : Card κ} (h : Fits n bound c) : Fits n bound c.cut := by
  intro i f hf
  obtain ⟨g, hg, rfl⟩ := Option.map_eq_some_iff.1 hf
  exact ⟨(h i g hg).1, (size_cut_le g).trans (h i g hg).2⟩

theorem Fits.openSlot {c : Card κ} (h : Fits n bound c) {j : Nat} (hj : j < n) : Fits n bound (c.openSlot j) := by
  intro i f hf
  unfold Card.openSlot at hf
  split at hf
  · exact h i f hf
  · simp only [Function.update_apply] at hf
    split at hf
    · rename_i heq
      cases hf
      exact ⟨heq ▸ hj, Nat.zero_le _⟩
    · exact h i f hf

omit [Payload κ] in
theorem dataFile_close (s : Sys κ) : s.close.data.dataFile = none := by
  unfold Sys.close
  split
  · assumption
  · rfl

namespace Bounded

variable {room : Nat} {s : Sys κ}

theorem mono {room' : Nat} (h : Bounded n size bound room s) (hle : room ≤ room') : Bounded n size bound room' s :=
  ⟨h.fits, h.files, h.limit, h.fileIdx, h.open_le.trans hle⟩

theorem counter (h : Bounded n size bound room s) (count : Nat) :
    Bounded n size bound room { s with data := { s.data with sinceFlush := count } } :=
  ⟨h.fits, h.files, h.limit, h.fileIdx, h.open_le⟩

theorem close (h : Bounded n size bound room s) : Bounded n size bound 0 s.close := by
  unfold Sys.close
  split
  · rename_i hnone
    exact ⟨h.fits, h.files, h.limit, h.fileIdx, by rw [Sys.dataFileSize, hnone]⟩
  · exact ⟨h.fits.alter fun _ _ hle => hle, h.files, h.limit, h.fileIdx, Nat.le_refl 0⟩

theorem flush (h : Bounded n size bound room s) : Bounded n size bound room s.flush := by
  have hsame := dataFileSize_flush s
  refine ⟨?_, ?_, ?_, ?_, hsame.trans_le h.open_le⟩
  all_goals
    unfold Sys.flush
    split
  · exact h.fits
  · exact h.fits.alter fun _ _ hle => hle
  · exact h.files
  · exact h.files
  · exact h.limit
  · exact h.limit
  · exact h.fileIdx
  · exact h.fileIdx

theorem appendBytes (h : Bounded n size bound room s) (data : Option κ) (hroom : ∀ i, room + bytesOf data ≤ bound i) :
    Bounded n size bound (room + bytesOf data) (s.appendBytes data) := by
  unfold Sys.appendBytes
  cases hopen : s.data.dataFile with
  | none => exact h.mono (Nat.le_add_right _ _)
  | some j =>
    cases data with
    | none => exact h.mono (Nat.le_add_right _ _)
    | some d =>
      simp only
      split
      · exact h.mono (Nat.le_add_right _ _)
      · have hlen : ∀ f, s.card.slots j = some f → (f.append ⟨d, s.card.pass, s.card.appended⟩).size ≤ room + bytesOf (some d) := by
          intro f hf
          have hle := h.open_le
          simp only [Sys.dataFileSize, hopen, hf, Option.map_some, Option.getD_some] at hle
          rw [size_append]
          exact Nat.add_le_add_right hle _
        refine ⟨h.fits.alter fun f hf _ => (hlen f hf).trans (hroom j), h.files, h.limit, h.fileIdx, ?_⟩
        simp only [Sys.dataFileSize, hopen, Card.append, alter_slots, if_true]
        cases hf : s.card.slots j with
        | none => exact Nat.zero_le _
        | some f => exact hlen f hf

/-- The open of the slot in use: a new file, or one of at most `room` bytes. -/
theorem openDataFile (h : Bounded n size bound 0 s) (hroom : ∀ f, s.card.slots s.data.fileIdx = some f → f.size ≤ room) :
    Bounded n size bound room { s.openDataFile with data := { s.openDataFile.data with sinceFlush := 0 } } := by
  unfold Sys.openDataFile
  split
  · refine ⟨h.fits.openSlot h.fileIdx, h.files, h.limit, h.fileIdx, ?_⟩
    show (((s.card.openSlot s.data.fileIdx).slots s.data.fileIdx).map File.size).getD 0 ≤ room
    unfold Card.openSlot
    split
    · rename_i f hf
      rw [hf]
      exact hroom f hf
    · simp [File.size, sizeOfPieces]
  · exact ⟨h.fits, h.files, h.limit, h.fileIdx, Nat.zero_le _⟩

end Bounded

/-! ## Programs -/

theorem fits_notifyOpened : ∀ {onOpen : List (Option κ)} {room : Nat} {s : Sys κ}, Bounded n size bound room s →
    (∀ i, room + preambleBytes onOpen ≤ bound i) → Prog.wp (fun s => Fits n bound s.card) (notifyOpened onOpen)
      (fun _ => Bounded n size bound (room + preambleBytes onOpen)) s
  | [], _, _, h, _ => h
  | data :: rest, room, s, h, hroom => by
    have hsplit : room + preambleBytes (data :: rest) = room + bytesOf data + preambleBytes rest := by
      rw [Nat.add_assoc, preambleBytes, List.map_cons, List.sum_cons]
      rfl
    rw [hsplit] at hroom ⊢
    have hgrown := h.appendBytes data fun i => (Nat.le_add_right _ _).trans (hroom i)
    simp only [notifyOpened, writeRaw, Prog.wp_bind, Prog.wp_modify]
    exact ⟨h.fits, hgrown.fits, fits_notifyOpened hgrown.flush hroom⟩

theorem fits_openAndNotify {onOpen : List (Option κ)} {room : Nat} {s : Sys κ} (h : Bounded n size bound 0 s)
    (hslot : ∀ f, s.card.slots s.data.fileIdx = some f → f.size ≤ room) (hroom : ∀ i, room + preambleBytes onOpen ≤ bound i) :
    Prog.wp (fun s => Fits n bound s.card) (openAndNotify onOpen)
      (fun _ => Bounded n size bound (room + preambleBytes onOpen)) s := by
  have hopened := h.openDataFile hslot
  simp only [openAndNotify, Prog.wp_bind, Prog.wp_modify, Prog.wp_get, Prog.wp_when]
  refine ⟨h.fits, hopened.fits, ?_⟩
  split
  · exact fits_notifyOpened hopened hroom
  · exact hopened.mono (Nat.le_add_right _ _)

theorem fits_writeLogIndex {room : Nat} {s : Sys κ} (h : Bounded n size bound room s) :
    Prog.wp (fun s => Fits n bound s.card) writeLogIndex
      (fun _ s' => Bounded n size bound room s' ∧ s'.data = s.data ∧ s'.card.slots = s.card.slots) s := by
  have hindex : ∀ index, Bounded n size bound room { s with card := { s.card with index } } := fun _ =>
    ⟨h.fits, h.files, h.limit, h.fileIdx, h.open_le⟩
  simp only [writeLogIndex, Prog.wp_bind, Prog.wp_get, Prog.wp_when, Prog.wp_modify]
  refine ⟨h.fits, ?_⟩
  split
  · exact ⟨h.fits, h.fits, hindex _, trivial, rfl⟩
  · exact ⟨h, trivial, trivial⟩

/-- A rotation starts its file anew. -/
theorem fits_openNextSlot {onOpen : List (Option κ)} {room : Nat} {s : Sys κ} (h : Bounded n size bound room s)
    (hroom : ∀ i, preambleBytes onOpen ≤ bound i) : Prog.wp (fun s => Fits n bound s.card) (openNextSlot onOpen)
      (fun _ => Bounded n size bound (preambleBytes onOpen)) s := by
  have hclosed := h.close
  have hnext : (s.close.data.fileIdx + 1) % s.close.data.files < n := by
    rw [hclosed.files]
    exact Nat.mod_lt _ (Nat.zero_lt_of_lt h.fileIdx)
  -- from the state in which the next slot is named and has no file
  have hrest : ∀ s₁ : Sys κ, Bounded n size bound 0 s₁ → s₁.card.slots s₁.data.fileIdx = none →
      Prog.wp (fun s => Fits n bound s.card) (writeLogIndex >>= fun _ => openAndNotify onOpen)
        (fun _ => Bounded n size bound (preambleBytes onOpen)) s₁ := by
    intro s₁ h₁ hnone
    rw [Prog.wp_bind]
    refine Prog.wp_mono (fun _ hc => hc) ?_ _ _ (fits_writeLogIndex h₁)
    rintro - s₂ ⟨h₂, hdata, hslots⟩
    rw [← Nat.zero_add (preambleBytes onOpen)] at hroom ⊢
    refine fits_openAndNotify h₂ (fun f hf => ?_) hroom
    rw [hslots, hdata, hnone] at hf
    cases hf
  have hmoved : Bounded n size bound 0 { s.close with data := { s.close.data with
      sinceFlush := 0, fileIdx := (s.close.data.fileIdx + 1) % s.close.data.files } } :=
    ⟨hclosed.fits, hclosed.files, hclosed.limit, hnext, hclosed.open_le⟩
  simp only [openNextSlot, closeDataFile, Prog.wp_bind, Prog.wp_modify, Prog.wp_get, Prog.wp_when] at hrest ⊢
  refine ⟨h.fits, hclosed.fits, hclosed.fits, ?_⟩
  split
  · refine ⟨hclosed.fits, hrest _ ⟨fun i f hf => ?_, hmoved.files, hmoved.limit, hmoved.fileIdx, ?_⟩ ?_⟩
    · simp only [remove_slots] at hf
      split at hf
      · cases hf
      · exact hclosed.fits i f hf
    · show Sys.dataFileSize _ ≤ 0
      simp only [Sys.dataFileSize, dataFile_close]
      exact Nat.le_refl 0
    · simp [remove_slots]
  · rename_i hnone
    exact hrest _ hmoved (by simpa using hnone)

/-- `begin()` opens no file that is full. -/
theorem fits_begin {onOpen : List (Option κ)} {room preamble : Nat} {s : Sys κ} (hapart : Apart s)
    (h : Bounded n size bound room s) (hpre : preambleBytes onOpen ≤ preamble)
    (hroom : ∀ i, size - 1 + preamble ≤ bound i) : Prog.wp (fun s => Fits n bound s.card) (begin onOpen)
      (fun _ => Bounded n size bound (size - 1 + preamble)) s := by
  have hclosed := h.close
  have hpos : 0 < n := Nat.zero_lt_of_lt h.fileIdx
  have hnamed : ∀ idx, idx < n → Bounded n size bound 0 { s.close with data := { s.close.data with fileIdx := idx } } :=
    fun _ hidx => ⟨hclosed.fits, hclosed.files, hclosed.limit, hidx, hclosed.open_le⟩
  have hroom' : ∀ i, preambleBytes onOpen ≤ bound i := fun i => by
    have := hroom i
    omega
  have hroom'' : ∀ i, size - 1 + preambleBytes onOpen ≤ bound i := fun i => by
    have := hroom i
    omega
  simp only [begin, closeDataFile, Prog.wp_bind, Prog.wp_modify, Prog.wp_get]
  refine ⟨h.fits, hclosed.fits, hclosed.fits, ?_⟩
  refine Prog.wp_mono (fun _ hc => hc) ?_ _ _
    (reads_findResume (C := fun s => Fits n bound s.card) hclosed.fits s.close.data.files s.close.data.size _ _ _)
  rintro found s₁ ⟨rfl, hfound⟩
  cases found with
  | none =>
    simp only [Prog.wp_bind, Prog.wp_modify]
    have hidx : readLogIndex s.close.data.files s.close.card.index < n := by
      rw [hclosed.files]
      exact readLogIndex_lt hpos _
    refine ⟨hclosed.fits, Prog.wp_mono (fun _ hc => hc) (fun _ _ hend => ?_) _ _ (fits_openNextSlot (hnamed _ hidx) hroom')⟩
    exact hend.mono (by omega)
  | some resume =>
    obtain ⟨hnotFull, hlt⟩ := hfound resume rfl
    rw [hclosed.files] at hlt
    have hslot : ∀ f, s.close.card.slots resume = some f → f.size ≤ size - 1 := by
      intro f hf
      have hsync := hapart.close.closed resume f hf
      simp only [slotIsFull, hf, hclosed.limit, File.syncedSize, hsync, List.take_length, decide_eq_false_iff_not] at hnotFull
      exact Nat.le_sub_one_of_lt (Nat.lt_of_not_le hnotFull)
    simp only [Prog.wp_bind, Prog.wp_modify, Prog.wp_when]
    refine ⟨hclosed.fits, ?_⟩
    split
    · refine Prog.wp_mono (fun _ hc => hc) ?_ _ _ (fits_writeLogIndex (hnamed resume (hlt hpos)))
      rintro - s₂ ⟨h₂, hdata, hslots⟩
      refine Prog.wp_mono (fun _ hc => hc) (fun _ _ h₃ => h₃.mono (by omega)) _ _ (fits_openAndNotify h₂ (fun f hf => ?_) hroom'')
      rw [hslots, hdata] at hf
      exact hslot f hf
    · exact Prog.wp_mono (fun _ hc => hc) (fun _ _ h₃ => h₃.mono (by omega)) _ _
        (fits_openAndNotify (hnamed resume (hlt hpos)) hslot hroom'')

theorem fits_endLog {room : Nat} {s : Sys κ} (h : Bounded n size bound room s) :
    Prog.wp (fun s => Fits n bound s.card) endLog (fun _ => Bounded n size bound room) s := by
  have hclosed := h.close
  simp only [endLog, closeDataFile, Prog.wp_bind, Prog.wp_get, Prog.wp_when, Prog.wp_modify]
  refine ⟨h.fits, ?_⟩
  split
  · exact ⟨h.fits, hclosed.fits, (hclosed.counter 0).mono (Nat.zero_le _)⟩
  · exact h

/-- `write()` leaves no file open that is full. -/
theorem fits_write {data : Option κ} {onOpen : List (Option κ)} {preamble record : Nat} {s : Sys κ}
    (h : Bounded n size bound (size - 1 + preamble) s) (hdata : bytesOf data ≤ record) (hpre : preambleBytes onOpen ≤ preamble)
    (hroom : ∀ i, size - 1 + preamble + record ≤ bound i) : Prog.wp (fun s => Fits n bound s.card) (write data onOpen)
      (fun _ => Bounded n size bound (size - 1 + preamble)) s := by
  simp only [write, Prog.wp_bind, Prog.wp_get]
  refine ⟨h.fits, ?_⟩
  split
  swap
  · exact h
  rename_i d _
  rw [Prog.wp_when]
  split
  swap
  · exact h
  have hgrown := h.appendBytes (some d) fun i => (Nat.add_le_add_left hdata _).trans (hroom i)
  have hcounted := hgrown.counter ((s.appendBytes (some d)).data.sinceFlush + (Payload.bytes d).length)
  have hrotate : ∀ s₃ : Sys κ, Bounded n size bound (size - 1 + preamble + bytesOf (some d)) s₃ →
      Prog.wp (fun s => Fits n bound s.card) (.when (s₃.data.size ≤ s₃.dataFileSize) (openNextSlot onOpen))
        (fun _ => Bounded n size bound (size - 1 + preamble)) s₃ := by
    intro s₃ h₃
    rw [Prog.wp_when, h₃.limit]
    split
    · refine Prog.wp_mono (fun _ hc => hc) (fun _ _ hend => hend.mono (by omega)) _ _ (fits_openNextSlot h₃ fun i => ?_)
      have := hroom i
      omega
    · rename_i hbelow
      rw [decide_eq_true_eq, Nat.not_le] at hbelow
      exact ⟨h₃.fits, h₃.files, h₃.limit, h₃.fileIdx, by omega⟩
  simp only [Prog.wp_bind, Prog.wp_modify, Prog.wp_get]
  refine ⟨h.fits, hgrown.fits, hgrown.fits, ?_⟩
  rw [Prog.wp_when]
  split
  · exact ⟨hcounted.fits, hcounted.flush.fits, hcounted.flush.fits, hrotate _ hcounted.flush⟩
  · exact ⟨hcounted.fits, hcounted.fits, hrotate _ hcounted⟩

/-! ## Every run -/

/-- Between two operations. -/
structure Resting (n size preamble : Nat) (bound : Nat → Nat) (s : Sys κ) : Prop where
  settled : Settled s
  bounded : Bounded n size bound (size - 1 + preamble) s

variable {preamble record : Nat}

theorem fits_call {s : Sys κ} (h : Resting n size preamble bound s) (hroom : ∀ i, size - 1 + preamble + record ≤ bound i)
    {c : Call κ} (hc : c.Keeps preamble record) :
    Prog.wp (fun s => Fits n bound s.card) c.prog (fun _ => Bounded n size bound (size - 1 + preamble)) s := by
  cases c with
  | begin onOpen =>
    exact fits_begin h.settled.toApart h.bounded hc fun i => (Nat.le_add_right _ _).trans (hroom i)
  | endLog => exact fits_endLog h.bounded
  | write data onOpen => exact fits_write h.bounded hc.1 hc.2 hroom
  | writeRaw data => exact hc.elim

theorem resting_powerOn (hn : 0 < n) {c : Card κ} (h : Fits n bound c) : Resting n size preamble bound (powerOn n size c) :=
  ⟨settled_powerOn n size c, h.cut, rfl, rfl, hn, Nat.zero_le _⟩

theorem resting_step {s s' : Sys κ} {e : CallEv κ} (h : Resting n size preamble bound s)
    (hroom : ∀ i, size - 1 + preamble + record ≤ bound i) (he : e.Of (Call.Keeps preamble record))
    (hstep : s.step n size e = some s') : Resting n size preamble bound s' := by
  have hn : 0 < n := Nat.zero_lt_of_lt h.bounded.fileIdx
  have hsettled := settled_step h.settled hstep
  cases e with
  | call c =>
    cases hstep
    exact ⟨hsettled, ((Prog.wp_iff _ _).1 (fits_call h hroom he)).2⟩
  | cutIn c point =>
    obtain ⟨p, hp, rfl⟩ := Option.map_eq_some_iff.1 hstep
    exact resting_powerOn hn (((Prog.wp_iff _ _).1 (fits_call h hroom he)).1 p (List.mem_of_getElem? hp))
  | cut =>
    cases hstep
    exact resting_powerOn hn h.bounded.fits
  | writable w =>
    cases hstep
    exact ⟨hsettled, h.bounded.fits, h.bounded.files, h.bounded.limit, h.bounded.fileIdx, h.bounded.open_le⟩
  | index index =>
    cases hstep
    exact ⟨hsettled, h.bounded.fits, h.bounded.files, h.bounded.limit, h.bounded.fileIdx, h.bounded.open_le⟩

theorem resting_run (hroom : ∀ i, size - 1 + preamble + record ≤ bound i) : ∀ {es : List (CallEv κ)} {s s' : Sys κ},
    Resting n size preamble bound s → (∀ e ∈ es, e.Of (Call.Keeps preamble record)) →
      Runs.run (Sys.step n size) s es = some s' → Resting n size preamble bound s'
  | [], _, _, h, _, hrun => by
    cases hrun
    exact h
  | e :: es, s, _, h, hes, hrun => by
    obtain ⟨he, hes⟩ := List.forall_mem_cons.1 hes
    obtain ⟨m, hm, hrun⟩ := Option.bind_eq_some_iff.1 hrun
    exact resting_run hroom (resting_step h hroom he hm) hes hrun

theorem fits_passes {s p : Sys κ} (h : Resting n size preamble bound s) (hroom : ∀ i, size - 1 + preamble + record ≤ bound i)
    (hp : Passes n size (Call.Keeps preamble record) s p) : Fits n bound p.card := by
  obtain ⟨es, s', hes, hrun, hwhere⟩ := hp
  have h' := resting_run hroom h hes hrun
  rcases hwhere with rfl | ⟨c, hc, hpoint⟩
  · exact h'.bounded.fits
  · exact ((Prog.wp_iff _ _).1 (fits_call h' hroom hc)).1 p hpoint

theorem Passes.mono {A A' : Call κ → Prop} (hA : ∀ c, A c → A' c) {s p : Sys κ} (hp : Passes n size A s p) :
    Passes n size A' s p := by
  obtain ⟨es, s', hes, hrun, hwhere⟩ := hp
  refine ⟨es, s', fun e he => ?_, hrun, hwhere.imp_right fun ⟨c, hc, hpoint⟩ => ⟨c, hA c hc, hpoint⟩⟩
  have hof := hes e he
  cases e with
  | call c | cutIn c point => exact hA c hof
  | cut | writable _ | index _ => trivial

end

/-- The bound on the card from `s` on. -/
structure Footprint (n size preamble record : Nat) (s : Sys κ) : Prop where
  fileIdx : s.data.fileIdx < n
  files : ∀ p, Passes n size (Call.Keeps preamble record) s p →
    ∀ i f, p.card.slots i = some f → i < n ∧ f.size ≤ size - 1 + preamble + record
  idle : ∀ p, Passes n size (Call.Idles preamble) s p →
    ∀ i f, p.card.slots i = some f → f.size ≤ size - 1 + preamble ∨ ∃ g, s.card.slots i = some g ∧ f.size ≤ g.size

/-- From an empty card, over records, restarts, openings and power cuts in any number and order: at every
point there are the files of `n` slots, none longer than the limit allows with one preamble and one record,
and while nothing is logged no file grows past the limit and one preamble. -/
theorem footprint_bounded (n size preamble record : Nat) (hn : 0 < n) (es : List (CallEv κ)) (s : Sys κ)
    (hes : ∀ e ∈ es, e.Of (Call.Keeps preamble record))
    (hrun : Runs.run (Sys.step n size) (powerOn n size {}) es = some s) : Footprint n size preamble record s := by
  have h : Resting n size preamble (fun _ => size - 1 + preamble + record) s :=
    resting_run (fun _ => Nat.le_refl _) (resting_powerOn hn fun i f hf => by cases hf) hes hrun
  refine ⟨h.bounded.fileIdx, fun p hp => fits_passes h (fun _ => Nat.le_refl _) hp, fun p hp i f hf => ?_⟩
  -- from here on each slot may keep what it holds
  have hidle : Resting n size preamble (fun i => max (size - 1 + preamble) (((s.card.slots i).map File.size).getD 0)) s := by
    refine ⟨h.settled, fun i f hf => ⟨(h.bounded.fits i f hf).1, ?_⟩, h.bounded.files, h.bounded.limit, h.bounded.fileIdx,
      h.bounded.open_le⟩
    simp only [hf, Option.map_some, Option.getD_some]
    exact Nat.le_max_right _ _
  have hkeeps : Passes n size (Call.Keeps preamble 0) s p := hp.mono fun _ => Call.Idles.keeps
  have hle := (fits_passes hidle (fun i => Nat.le_max_left _ _) hkeeps i f hf).2
  cases hg : s.card.slots i with
  | none =>
    rw [hg] at hle
    exact Or.inl (by simpa using hle)
  | some g =>
    rw [hg] at hle
    exact (le_max_iff.1 hle).imp_right fun hle => ⟨g, rfl, hle⟩

/-- Two restarts, the second behind a record, on one file of three bytes with a preamble of two. -/
def reboots : List (CallEv (List UInt8)) :=
  [.call (.begin [some [1, 2]]), .cut, .call (.begin [some [1, 2]]), .call (.write (some [3]) [some [1, 2]]), .cut]

theorem footprint_bounded_reboots : ∃ s, Runs.run (Sys.step 1 3) (powerOn 1 3 {}) reboots = some s ∧ Footprint 1 3 2 1 s := by
  refine ⟨_, rfl, footprint_bounded 1 3 2 1 (by decide) reboots _ ?_ rfl⟩
  simp [reboots, CallEv.Of, Call.Keeps, preambleBytes, bytesOf, Payload.bytes]

end BoredomOS.Storage
