/-
A download never mixes files. While a stream is active, the file its id named is still in its slot,
with what was synced at the request at its front: a write keeps it, or rotates into that slot and
then the stream ends before another chunk is read. So what the handle reads within the stream's end
is the file the request named, whichever port holds the handle.
-/
import BoredomOS.Lib.Runs
import BoredomOS.Log.Download
import BoredomOS.Storage.Generations

namespace BoredomOS.Log

open Storage (Card File Sys Onward Rotated Carried)

variable {n : Nat} {gone : Option Nat}

/-! ## What a stream serves -/

/-- An answer with bytes is from the file its id named when the request was processed: of that slot
and that generation, within what was synced then, and those bytes. -/
def Faithful (p : Post) : Prop :=
  ∀ d, p.msg = .logData d → 0 < d.count → ∃ f slot, p.named = some f ∧ p.source = some (slot, f.born) ∧
    d.id.toNat = slot + 1 ∧ d.ofs.toNat + d.count.toNat ≤ f.image.length ∧
      d.data.toList.take d.count.toNat = (f.image.drop d.ofs.toNat).take d.count.toNat

/-- The stream is within the file `f`, and `f` is still there if its slot has a name and is not the
one that is `gone`. -/
structure Serves (n : Nat) (gone : Option Nat) (c : Card LogPiece) (s : LogStream) (f : Named) (slot : Nat) :
    Prop where
  lt : slot < n
  id_eq : s.id.toNat = slot + 1
  slot_eq : s.slot = Int8.ofInt slot
  end_le : s.end.toNat ≤ f.image.length
  held : 0 ≤ s.slot.toInt → gone ≠ some slot → ∃ g, c.slots slot = some g ∧ g.born = f.born ∧ f.image <+: g.image

/-- Each active stream serves what its request named, and the handle, if a port holds it, is on that
file at the stream's position. -/
structure TaskOk (n : Nat) (gone : Option Nat) (t : TaskSdWrite) : Prop where
  files : t.fileCount = n
  current : t.currentFile < n
  streams : ∀ p, (t.streams p).active = true → (t.streams p).absent = false →
    ∃ f slot, t.named p = some f ∧ Serves n gone t.card (t.streams p) f slot
  reader : ∀ p, t.readerPort = some p → (t.streams p).active = true ∧ (t.streams p).absent = false ∧
    ∃ h f, t.reader = some h ∧ t.named p = some f ∧ 0 ≤ (t.streams p).slot.toInt ∧
      h.slot = (t.streams p).slot.toInt.toNat ∧ h.born = f.born ∧ h.pos = (t.streams p).pos.toNat ∧
        f.image.length ≤ h.size
  posted : ∀ p ∈ t.posted, Faithful p

/-- A slot of at most 256 is the number the stream keeps, or that number names no file. -/
theorem slot_toInt {s : LogStream} {slot : Nat} (hlt : slot < 256) (hslot : s.slot = Int8.ofInt slot)
    (hpos : 0 ≤ s.slot.toInt) : s.slot.toInt = slot := by
  rw [hslot, Int8.toInt_ofInt, Int.bmod_def, show Int8.size = 256 from rfl] at hpos ⊢
  split at hpos <;> omega

/-- The handle of a stream opens on the file its request named. -/
theorem Serves.opened {n : Nat} {c : Card LogPiece} {s : LogStream} {f : Named} {slot : Nat} {g : File LogPiece}
    (h : Serves n none c s f slot) (hn : n ≤ 256) (hg : fileAt c s.slot.toInt = some g) :
    0 ≤ s.slot.toInt ∧ s.slot.toInt = slot ∧ g.born = f.born ∧ f.image <+: g.image := by
  have hpos : 0 ≤ s.slot.toInt := by
    by_contra hneg
    rw [fileAt, if_pos (by omega)] at hg
    cases hg
  have hvalue := slot_toInt (h.lt.trans_le hn) h.slot_eq hpos
  obtain ⟨g', hg', hborn, hpre⟩ := h.held hpos (by simp)
  obtain rfl : g = g' := by
    rw [fileAt, if_neg (by omega), hvalue, Int.toNat_natCast, hg'] at hg
    exact (Option.some.inj hg).symm
  exact ⟨hpos, hvalue, hborn, hpre⟩

theorem take_chars {w : Nat} {text : List UInt8} (h : text.length ≤ w) :
    (chars w text).toList.take text.length = text := by
  have htake : ((text ++ List.replicate w 0).take w).take text.length = text := by
    rw [List.take_take, Nat.min_eq_left h, List.take_left]
  simpa [chars] using htake

/-- A handle on a file that begins with `image` reads bytes of it. -/
theorem read_eq {c : Card LogPiece} {r : Handle} {g : File LogPiece} {image : List UInt8} {want : Nat}
    (hg : c.slots r.slot = some g) (hborn : g.born = r.born) (hpre : image <+: g.image) (hlen : r.pos + want ≤ image.length)
    (noise : List UInt8) :
    r.read c want noise = ((image.drop r.pos).take (min want (r.size - r.pos)), some (r.slot, r.born)) := by
  obtain ⟨more, hmore⟩ := hpre.trans (Storage.image_prefix_content g)
  have hsame : (g.content.drop r.pos).take (min want (r.size - r.pos)) =
      (image.drop r.pos).take (min want (r.size - r.pos)) := by
    rw [← hmore, List.drop_append_of_le_length (by omega), List.take_append_of_le_length]
    rw [List.length_drop]
    omega
  simp only [Handle.read, hg, hborn, if_true]
  rw [hsame]

/-- What a handle on the file the request named reads before the stream's end is faithful. -/
theorem read_faithful {c : Card LogPiece} {s : LogStream} {f : Named} {slot : Nat} {r : Handle}
    (hserves : Serves n none c s f slot) (hpos : 0 ≤ s.slot.toInt) (hslot : r.slot = slot) (hborn : r.born = f.born)
    (hat : r.pos = s.pos.toNat) {want : Nat} (hwant : s.pos.toNat + want ≤ s.end.toNat) (hchunk : want ≤ kLogDataChunk)
    (noise : List UInt8) (p : Fin 2) :
    (r.read c want noise).1.length ≤ want ∧
      Faithful ⟨p, .logData {
        id := s.id, ofs := s.pos, count := UInt8.ofNat (r.read c want noise).1.length
        data := chars 90 (r.read c want noise).1 }, some f, (r.read c want noise).2⟩ := by
  obtain ⟨g, hg, hborn', hpre⟩ := hserves.held hpos (by simp)
  have hend := hserves.end_le
  have hread : r.read c want noise =
      ((f.image.drop s.pos.toNat).take (min want (r.size - r.pos)), some (slot, f.born)) := by
    have hfile : c.slots r.slot = some g := by rw [hslot, hg]
    have h := read_eq hfile (hborn'.trans hborn.symm) hpre (show r.pos + want ≤ f.image.length by omega) noise
    rw [hslot, hborn] at h
    rw [← hat]
    exact h
  rw [hread]
  generalize hdata : (f.image.drop s.pos.toNat).take (min want (r.size - r.pos)) = data
  have hlen : data.length ≤ want := by
    rw [← hdata, List.length_take]
    omega
  refine ⟨hlen, ?_⟩
  rintro d ⟨⟩ -
  have hcount : (UInt8.ofNat data.length).toNat = data.length := by
    rw [UInt8.toNat_ofNat']
    have : kLogDataChunk = 90 := rfl
    omega
  refine ⟨f, slot, rfl, rfl, hserves.id_eq, ?_, ?_⟩
  · change s.pos.toNat + (UInt8.ofNat data.length).toNat ≤ _
    omega
  · change (chars 90 data).toList.take (UInt8.ofNat data.length).toNat = (f.image.drop s.pos.toNat).take _
    rw [hcount, take_chars (show data.length ≤ 90 from hlen.trans hchunk)]
    exact List.prefix_iff_eq_take.1 (hdata ▸ List.take_prefix _ _)

/-- The end of a range is fixed without forming `ofs + count`, which may not fit in 32 bits. -/
theorem streamOf_range (request : SdLogRequestPayload) (slot : Int) (size : UInt32) :
    (TaskSdWrite.streamOf request slot size).end.toNat = min size.toNat (request.ofs.toNat + request.count.toNat) ∧
      (TaskSdWrite.streamOf request slot size).toFileEnd = decide (size.toNat ≤ request.ofs.toNat + request.count.toNat) := by
  have havailable : (if request.ofs < size then size - request.ofs else 0).toNat = size.toNat - request.ofs.toNat := by
    split
    · rename_i hofs
      exact UInt32.toNat_sub_of_le _ _ (UInt32.le_of_lt hofs)
    · rename_i hofs
      have hle := UInt32.le_iff_toNat_le.1 (UInt32.not_lt.1 hofs)
      rw [UInt32.toNat_zero]
      omega
  have hiff : request.count ≥ (if request.ofs < size then size - request.ofs else 0) ↔
      size.toNat ≤ request.ofs.toNat + request.count.toNat := by
    rw [ge_iff_le, UInt32.le_iff_toNat_le, havailable]
    omega
  unfold TaskSdWrite.streamOf
  refine ⟨?_, decide_eq_decide.2 hiff⟩
  dsimp only
  by_cases hall : size.toNat ≤ request.ofs.toNat + request.count.toNat
  · rw [if_pos (hiff.2 hall), Nat.min_eq_left hall]
  · rw [if_neg fun h => hall (hiff.1 h)]
    rw [Nat.not_le] at hall
    rw [Nat.min_eq_right hall.le, UInt32.toNat_add, Nat.mod_eq_of_lt (hall.trans size.toNat_lt)]

theorem faithful_noData {p : Fin 2} {d : LogData} (hcount : d.count = 0) (named : Option Named)
    (source : Option (Nat × Nat)) : Faithful ⟨p, .logData d, named, source⟩ := by
  rintro d' ⟨⟩ hpos
  rw [hcount] at hpos
  exact absurd hpos (by decide)

namespace TaskOk

variable {t : TaskSdWrite}

/-! ## Small steps -/

theorem send (h : TaskOk n gone t) {p : Fin 2} {msg : LinkMsg} {source : Option (Nat × Nat)}
    (hf : Faithful ⟨p, msg, t.named p, source⟩) : TaskOk n gone (t.send p msg source) := by
  refine ⟨h.files, h.current, h.streams, h.reader, fun q hq => ?_⟩
  rcases List.mem_append.1 hq with hq | hq
  · exact h.posted q hq
  · rw [List.mem_singleton.1 hq]
    exact hf

theorem postNoData (h : TaskOk n gone t) (p : Fin 2) : TaskOk n gone (t.postNoData p) :=
  h.send (faithful_noData rfl _ _)

theorem setListing (h : TaskOk n gone t) (p : Fin 2) (l : LogListing) : TaskOk n gone (t.setListing p l) :=
  ⟨h.files, h.current, h.streams, h.reader, h.posted⟩

/-- A port that holds no handle may start on any stream that is inactive, absent or in order. -/
theorem restart (h : TaskOk n gone t) {p : Fin 2} {s : LogStream} {named : Option Named} (hfree : t.readerPort ≠ some p)
    (hs : s.active = true → s.absent = false → ∃ f slot, named = some f ∧ Serves n gone t.card s f slot) :
    TaskOk n gone { t.setStream p s with named := Function.update t.named p named } := by
  refine ⟨h.files, h.current, fun q => ?_, fun q hq => ?_, h.posted⟩
  · by_cases heq : q = p
    · subst heq
      simpa [TaskSdWrite.setStream, TaskSdWrite.card] using hs
    · simpa [TaskSdWrite.setStream, TaskSdWrite.card, heq] using h.streams q
  · have hne : q ≠ p := fun heq => hfree (heq ▸ hq)
    simpa [TaskSdWrite.setStream, hne] using h.reader q hq

theorem setStream (h : TaskOk n gone t) {p : Fin 2} {s : LogStream} (hfree : t.readerPort ≠ some p)
    (hs : s.active = true → s.absent = false → ∃ f slot, t.named p = some f ∧ Serves n gone t.card s f slot) :
    TaskOk n gone (t.setStream p s) := by
  have := h.restart hfree hs
  rwa [Function.update_eq_self] at this

theorem closeReader (h : TaskOk n gone t) : TaskOk n gone t.closeReader :=
  ⟨h.files, h.current, h.streams, fun _ hq => (by cases hq), h.posted⟩

theorem endStream (h : TaskOk n gone t) (p : Fin 2) :
    TaskOk n gone (t.endStream p) ∧ (t.endStream p).readerPort ≠ some p := by
  have hinactive : ∀ s : LogStream, ({ s with active := false } : LogStream).active = true → s.absent = false →
      ∃ f slot, t.named p = some f ∧ Serves n gone t.card { s with active := false } f slot := fun _ hs => by cases hs
  unfold TaskSdWrite.endStream
  by_cases hport : t.readerPort = some p
  · refine ⟨?_, ?_⟩
    · rw [if_pos (by exact hport)]
      exact (h.closeReader.setStream (by simp [TaskSdWrite.closeReader]) (hinactive _))
    · rw [if_pos (by exact hport)]
      simp [TaskSdWrite.closeReader]
  · rw [if_neg (by exact hport)]
    exact ⟨h.setStream hport (hinactive _), hport⟩

/-! ## Requests -/

theorem startStream (h : TaskOk n gone t) (p : Fin 2) (request : SdLogRequestPayload) :
    TaskOk n gone (t.startStream p request) := by
  obtain ⟨hend, hfree⟩ := h.endStream p
  unfold TaskSdWrite.startStream
  generalize t.endStream p = t₁ at hend hfree
  refine hend.restart hfree fun _ hpresent => ?_
  -- present means a slot of the ring, whose file has a length
  have hsize : ¬ (if 0 ≤ (request.start.toNat : Int) - 1 ∧ (request.start.toNat : Int) - 1 < t₁.fileCount then
      slotSize t₁.card ((request.start.toNat : Int) - 1) else 0) = 0 := by
    simpa [TaskSdWrite.streamOf] using hpresent
  split at hsize
  swap
  · exact absurd rfl hsize
  rename_i hslot
  rw [if_pos hslot]
  obtain ⟨slot, hslot_eq⟩ := Int.eq_ofNat_of_zero_le hslot.1
  rw [hslot_eq] at hslot hsize ⊢
  have hat : fileAt t₁.card slot = t₁.card.slots slot := by simp [fileAt]
  cases hg : t₁.card.slots slot with
  | none =>
    rw [slotSize, hat, hg] at hsize
    exact absurd rfl hsize
  | some g =>
    have hvalue : slotSize t₁.card slot = UInt32.ofNat g.image.length := by rw [slotSize, hat, hg]
    rw [hvalue, hat, hg]
    refine ⟨_, slot, rfl, ?_, ?_, rfl, ?_, fun _ _ => ⟨g, hg, rfl, List.prefix_refl _⟩⟩
    · have := hend.files
      omega
    · change request.start.toNat = slot + 1
      omega
    · refine ((streamOf_range request slot _).1.trans_le (Nat.min_le_left _ _)).trans ?_
      rw [UInt32.toNat_ofNat']
      exact Nat.mod_le _ _

/-! ## Records -/

/-- The card goes on: every file stays but the one that is then gone. -/
theorem carry (h : TaskOk n none t) {sd : Sys LogPiece} (hfiles : sd.data.files = n) (hcurrent : sd.data.fileIdx < n)
    (hcarried : ∀ i, gone ≠ some i → Carried t.card sd.card i) : TaskOk n gone { t with sdData := sd } := by
  refine ⟨hfiles, hcurrent, fun p hactive hpresent => ?_, h.reader, h.posted⟩
  obtain ⟨f, slot, hnamed, hserves⟩ := h.streams p hactive hpresent
  refine ⟨f, slot, hnamed, hserves.lt, hserves.id_eq, hserves.slot_eq, hserves.end_le, fun hpos hgone => ?_⟩
  obtain ⟨g, hg, hborn, hpre⟩ := hserves.held hpos (by simp)
  obtain ⟨g', hg', hborn', hpre'⟩ := hcarried slot hgone g hg
  exact ⟨g', hg', hborn'.trans hborn, hpre.trans hpre'⟩

/-- The stream is not one of the slot `after`. -/
def Clear (after : Nat) (t : TaskSdWrite) (p : Fin 2) : Prop :=
  (t.streams p).active = true → (t.streams p).absent = false → (t.streams p).slot.toInt ≠ after

theorem endReplaced (h : TaskOk n gone t) (after : Nat) (p : Fin 2) :
    TaskOk n gone (t.endReplaced after p) ∧ Clear after (t.endReplaced after p) p ∧
      ∀ q, Clear after t q → Clear after (t.endReplaced after p) q := by
  unfold TaskSdWrite.endReplaced
  dsimp only
  split
  · refine ⟨((h.postNoData p).endStream p).1, ?_, ?_⟩
    · intro hactive
      exact absurd hactive (by simp [streams_endStream])
    · intro q hq hactive
      by_cases heq : q = p
      · exact absurd hactive (by simp [streams_endStream, heq])
      · rw [streams_endStream, if_neg heq] at hactive ⊢
        exact hq hactive
  · rename_i hcond
    refine ⟨h, fun hactive hpresent heq => hcond ?_, fun _ hq => hq⟩
    simp [hactive, hpresent, heq]

/-- With no stream left in the slot that was replaced, nothing is gone. -/
theorem settle (hn : n ≤ 256) {after : Nat} (h : TaskOk n (some after) t) (hclear : ∀ p, Clear after t p) :
    TaskOk n none t := by
  refine ⟨h.files, h.current, fun p hactive hpresent => ?_, h.reader, h.posted⟩
  obtain ⟨f, slot, hnamed, hserves⟩ := h.streams p hactive hpresent
  refine ⟨f, slot, hnamed, hserves.lt, hserves.id_eq, hserves.slot_eq, hserves.end_le, fun hpos _ => ?_⟩
  apply hserves.held hpos
  intro heq
  have hlt := hserves.lt
  have hvalue := slot_toInt (by omega) hserves.slot_eq hpos
  exact hclear p hactive hpresent (by rw [hvalue, Option.some.inj heq])

theorem writeRecord (h2 : 2 ≤ n) (hn : n ≤ 256) (h : TaskOk n none t) (incoming : SdRecord) (o : Opening) :
    TaskOk n none (t.writeRecord incoming o) := by
  have hfiles := h.files
  have hcurrent := h.current
  unfold TaskSdWrite.writeRecord
  split
  · exact h
  rename_i record _
  have hwrite := Storage.onward_or_rotated_write (some record) (writeLogPreamble o) t.sdData
  generalize ((Storage.write (some record) (writeLogPreamble o)).run t.sdData).2 = sd at hwrite
  change TaskOk n none (if sd.data.fileIdx ≠ t.currentFile then
    (TaskSdWrite.endReplaced sd.data.fileIdx { t with sdData := sd } 0).endReplaced sd.data.fileIdx 1
    else { t with sdData := sd })
  rcases hwrite with ⟨-, hsame⟩ | ⟨-, hrotated⟩
  · have hidx : sd.data.fileIdx = t.currentFile := hsame.fileIdx
    rw [if_neg (by rw [not_not]; exact hidx)]
    exact h.carry (hsame.files.trans hfiles) (hidx.trans_lt hcurrent) fun i _ => hsame.carried i
  · -- two files or more: the next slot is another one
    have hidx : sd.data.fileIdx = (t.currentFile + 1) % n := by rw [hrotated.fileIdx, ← hfiles]; rfl
    have hlt : sd.data.fileIdx < n := hidx ▸ Nat.mod_lt _ (by omega)
    have hne : sd.data.fileIdx ≠ t.currentFile := by
      rw [hidx]
      rcases Nat.lt_or_ge (t.currentFile + 1) n with hlt | hge
      · rw [Nat.mod_eq_of_lt hlt]; omega
      · rw [show t.currentFile + 1 = n by omega, Nat.mod_self]; omega
    rw [if_pos hne]
    have hcarried : TaskOk n (some sd.data.fileIdx) { t with sdData := sd } :=
      h.carry (hrotated.files.trans hfiles) hlt fun i hi => hrotated.carried i fun heq => hi (heq ▸ rfl)
    obtain ⟨h₀, hclear₀, -⟩ := hcarried.endReplaced sd.data.fileIdx 0
    obtain ⟨h₁, hclear₁, hkeep⟩ := h₀.endReplaced sd.data.fileIdx 1
    refine h₁.settle hn fun p => ?_
    fin_cases p
    · exact hkeep 0 hclear₀
    · exact hclear₁

/-! ## Service -/

theorem readChunk (h : TaskOk n none t) (hn : n ≤ 256) {p : Fin 2} (hport : t.readerPort = some p)
    (hmore : (t.streams p).pos < (t.streams p).end) (noise : List UInt8) : TaskOk n none (t.readChunk p noise) := by
  obtain ⟨hactive, hpresent, r, f, hr, hnamed, hpos, hslot, hborn, hat, hsize⟩ := h.reader p hport
  obtain ⟨f', slot, hnamed', hserves⟩ := h.streams p hactive hpresent
  obtain rfl : f = f' := Option.some.inj (hnamed.symm.trans hnamed')
  have hlt := hserves.lt
  have hvalue := slot_toInt (by omega) hserves.slot_eq hpos
  have hmore' : (t.streams p).pos.toNat < (t.streams p).end.toNat := hmore
  have hleft : ((t.streams p).end - (t.streams p).pos).toNat = (t.streams p).end.toNat - (t.streams p).pos.toNat :=
    UInt32.toNat_sub_of_le _ _ (UInt32.le_of_lt hmore)
  have hend := (t.streams p).end.toNat_lt
  unfold TaskSdWrite.readChunk
  rw [hr]
  dsimp only
  have hwant : (t.streams p).pos.toNat + min ((t.streams p).end - (t.streams p).pos).toNat kLogDataChunk ≤
      (t.streams p).end.toNat := by omega
  obtain ⟨hlen, hfaithful⟩ := read_faithful hserves hpos (by rw [hslot, hvalue]; rfl) hborn hat hwant
    (Nat.min_le_right _ _) noise p
  generalize r.read t.card (min ((t.streams p).end - (t.streams p).pos).toNat kLogDataChunk) noise = read at hlen hfaithful
  obtain ⟨data, source⟩ := read
  dsimp only at hlen hfaithful ⊢
  split
  · exact (h.endStream p).1
  have hsent := h.send (hnamed ▸ hfaithful)
  have hstep : ((t.streams p).pos + UInt32.ofNat data.length).toNat = (t.streams p).pos.toNat + data.length := by
    rw [UInt32.toNat_add, UInt32.toNat_ofNat']
    omega
  refine ⟨hsent.files, hsent.current, fun q => ?_, fun q hq => ?_, hsent.posted⟩
  · by_cases heq : q = p
    · subst heq
      intro _ _
      refine ⟨f, slot, hnamed, ?_⟩
      rw [TaskSdWrite.streams_setStream]
      exact ⟨hserves.lt, hserves.id_eq, hserves.slot_eq, hserves.end_le, hserves.held⟩
    · simpa [TaskSdWrite.setStream, TaskSdWrite.send, TaskSdWrite.card, heq] using h.streams q
  · obtain rfl : q = p := Option.some.inj (hq.symm.trans hport)
    rw [TaskSdWrite.streams_setStream]
    exact ⟨hactive, hpresent, _, f, rfl, hnamed, hpos, hslot, hborn, by rw [hstep, ← hat], hsize⟩

theorem serviceStream (h : TaskOk n none t) (hn : n ≤ 256) {p : Fin 2} (hactive : (t.streams p).active = true)
    (noise : List UInt8) : TaskOk n none (t.serviceStream p noise) := by
  unfold TaskSdWrite.serviceStream
  dsimp only
  split
  · -- absent: no handle is held for it
    rename_i habsent
    have hfree : t.readerPort ≠ some p := fun hport => by
      rw [(h.reader p hport).2.1] at habsent
      cases habsent
    exact (h.postNoData p).setStream hfree fun hs => by cases hs
  rename_i hpresent
  rw [Bool.not_eq_true] at hpresent
  split
  · split
    · exact ((h.postNoData p).endStream p).1
    · exact (h.endStream p).1
  rename_i hmore
  have hmore : (t.streams p).pos < (t.streams p).end := UInt32.not_le.1 hmore
  split
  · rename_i hport
    exact h.readChunk hn hport hmore noise
  split
  · exact h
  rename_i hother
  have hnone : t.readerPort = none := by simpa using hother
  split
  · refine (endStream (t := { t with reader := none }) ⟨h.files, h.current, h.streams, fun q hq => ?_, h.posted⟩ p).1
    rw [hnone] at hq
    cases hq
  · -- the handle opens on the file that is in the slot, which is the one the request named
    rename_i g hg
    obtain ⟨f, slot, hnamed, hserves⟩ := h.streams p hactive hpresent
    obtain ⟨hpos, -, hborn, hpre⟩ := hserves.opened (by omega) hg
    have hsize := hpre.length_le
    have hend := hserves.end_le
    have hmore' : (t.streams p).pos.toNat < (t.streams p).end.toNat := hmore
    refine readChunk (t := { t with
        reader := some ⟨(t.streams p).slot.toInt.toNat, g.born, g.image.length,
          if (t.streams p).pos.toNat ≤ g.image.length then (t.streams p).pos.toNat else 0⟩
        readerPort := some p }) ⟨h.files, h.current, h.streams, fun q hq => ?_, h.posted⟩ hn rfl hmore noise
    obtain rfl : p = q := Option.some.inj hq
    exact ⟨hactive, hpresent, _, f, rfl, hnamed, hpos, rfl, hborn, if_pos (by omega), hsize⟩

theorem serviceListing (h : TaskOk n none t) {p : Fin 2} {t' : TaskSdWrite} (hserved : t.serviceListing p = some t') :
    TaskOk n none t' := by
  obtain ⟨⟨listing, found⟩, -, rfl⟩ := Option.map_eq_some_iff.1 hserved
  cases found with
  | none => exact h.setListing p _
  | some found =>
    refine (h.setListing p listing).send ?_
    rintro d ⟨⟩

/-! ## The loop -/

theorem receive (h2 : 2 ≤ n) (hn : n ≤ 256) (h : TaskOk n none t) {incoming : SdRecord} {o : Opening}
    {t' : TaskSdWrite} (hstep : t.receive incoming o = some t') : TaskOk n none t' := by
  unfold TaskSdWrite.receive at hstep
  split at hstep
  · obtain ⟨port, -, rfl⟩ := Option.map_eq_some_iff.1 hstep
    exact h.setListing port _
  · obtain ⟨port, -, rfl⟩ := Option.map_eq_some_iff.1 hstep
    exact h.startStream port _
  · obtain ⟨port, -, rfl⟩ := Option.map_eq_some_iff.1 hstep
    exact (h.endStream port).1
  · cases hstep
    exact h.writeRecord h2 hn incoming o

theorem serve (hn : n ≤ 256) (h : TaskOk n none t) {room : Fin 2 → Bool} {noise : List UInt8} {t' : TaskSdWrite}
    (hstep : t.serve room noise = some t') : TaskOk n none t' := by
  obtain ⟨-, rfl⟩ | ⟨port, served, -, -, rfl, hpiece⟩ := serve_cases hstep
  · exact h
  have hok : TaskOk n none served := by
    obtain ⟨-, hserved⟩ | ⟨-, hactive, rfl⟩ := hpiece
    · exact h.serviceListing hserved
    · exact h.serviceStream hn hactive noise
  exact ⟨hok.files, hok.current, hok.streams, hok.reader, hok.posted⟩

theorem step (h2 : 2 ≤ n) (hn : n ≤ 256) (h : TaskOk n none t) {e : TaskEv} {t' : TaskSdWrite}
    (hstep : t.step e = some t') : TaskOk n none t' := by
  cases e with
  | received incoming o => exact h.receive h2 hn hstep
  | served room noise => exact h.serve hn hstep

end TaskOk

theorem taskOk_boot (hn : 0 < n) (size : Nat) (c : Card LogPiece) (o : Opening) :
    TaskOk n none (TaskSdWrite.boot n size c o) := by
  obtain ⟨hfiles, hcurrent⟩ := Storage.fileIdx_begin (writeLogPreamble o) ⟨c, { files := n, size }⟩ hn
  exact ⟨hfiles, hcurrent, fun _ hactive => (by cases hactive), fun _ hport => (by cases hport),
    fun _ hp => (by cases hp)⟩

/-- Whatever is logged, asked for and served in whatever order, on a ring of 2 to 256 files and any
card: an answer with bytes carries those of the file its id named when the request was processed. -/
theorem download_never_mixes (files size : Nat) (h2 : 2 ≤ files) (hmax : files ≤ 256) (c : Card LogPiece) (o : Opening)
    (es : List TaskEv) (t : TaskSdWrite) (hrun : Runs.run TaskSdWrite.step (.boot files size c o) es = some t) :
    ∀ p ∈ t.posted, Faithful p := by
  have hok : TaskOk files none t :=
    Runs.inv (fun _ _ _ h hstep => h.step h2 hmax hstep) (taskOk_boot (by omega) size c o) hrun
  exact hok.posted

/-! ## On a card -/

/-- An answer with bytes: what it says it is, and the slot and generation it is from. -/
structure Answer where
  id : UInt16
  ofs : UInt32
  count : UInt8
  source : Option (Nat × Nat)
  deriving DecidableEq, Repr

def Post.answer (p : Post) : Option Answer :=
  match p.msg with
  | .logData d => if 0 < d.count then some ⟨d.id, d.ofs, d.count, p.source⟩ else none
  | .logEntry _ => none

/-- A ring that has come round to slot 0: every other file is full at 373 bytes. -/
def comeRound (files : Nat) : Card LogPiece where
  slots i :=
    if i < files then
      let head : List LogPiece := [.preamble, .time { timeUs := 0, unixtime := UInt32.ofNat i, source := 0 }]
      let rest : List LogPiece := if i = 0 then [] else [.pwr { timeUs := 0, millivolts := 3700, remaining := 80 }]
      some {
        pieces := (head ++ rest).map fun payload => { payload, pass := i, seq := i }
        synced := (head ++ rest).length
        born := i }
    else none
  pass := files

def opening : Opening where
  timeUs := 1000
  unixTime := 1700000000
  source := 1
  resetTimeUs := 1200
  boot := {
    previousBootPhase := .schedulerStarted, previousFaultTask := [], previousResetReason := .powerOn
    reducedConfiguration := false, bootConsecutiveCount := 1, bootCumulativeCount := 1 }

/-- The TIME at the head of the file an id names. -/
def readHead (id : UInt16) : List TaskEv :=
  [.received (.logRead { ofs := 356, count := 16, start := id, «end» := id, port := 0 }) opening,
    .served (fun _ => true) []]

theorem download_never_mixes_readHead : ∃ t, Runs.run TaskSdWrite.step (.boot 4 373 (comeRound 4) opening) (readHead 2) =
    some t ∧ t.posted.filterMap Post.answer = [⟨2, 356, 16, some (1, 1)⟩] ∧ ∀ p ∈ t.posted, Faithful p := by
  have hposted : (Runs.run TaskSdWrite.step (.boot 4 373 (comeRound 4) opening) (readHead 2)).map
      (fun t => t.posted.filterMap Post.answer) = some [⟨2, 356, 16, some (1, 1)⟩] := by decide +kernel
  obtain ⟨t, hrun, hposted⟩ := Option.map_eq_some_iff.1 hposted
  exact ⟨t, hrun, hposted, download_never_mixes 4 373 (by decide) (by decide) _ _ (readHead 2) t hrun⟩

theorem source_of_faithful {p : Post} {a : Answer} (h : Faithful p) (ha : p.answer = some a) :
    ∃ slot born, a.source = some (slot, born) ∧ a.id.toNat = slot + 1 := by
  unfold Post.answer at ha
  split at ha
  · rename_i d hd
    split at ha
    · rename_i hcount
      cases ha
      obtain ⟨f, slot, -, hsource, hid, -⟩ := h d hd hcount
      exact ⟨slot, f.born, hsource, hid⟩
    · cases ha
  · cases ha

/-- With 257 files the last one's slot, 256, is kept as 0: id 257 answers with bytes of `data0.BIN`. -/
theorem download_mixes_257 : ∃ t, Runs.run TaskSdWrite.step (.boot 257 373 (comeRound 257) opening) (readHead 257) =
    some t ∧ ∃ p ∈ t.posted, ¬ Faithful p := by
  have hposted : (Runs.run TaskSdWrite.step (.boot 257 373 (comeRound 257) opening) (readHead 257)).map
      (fun t => t.posted.filterMap Post.answer) = some [⟨257, 356, 16, some (0, 0)⟩] := by decide +kernel
  obtain ⟨t, hrun, hposted⟩ := Option.map_eq_some_iff.1 hposted
  have hmem : (⟨257, 356, 16, some (0, 0)⟩ : Answer) ∈ t.posted.filterMap Post.answer := by rw [hposted]; simp
  obtain ⟨p, hp, hanswer⟩ := List.mem_filterMap.1 hmem
  refine ⟨t, hrun, p, hp, fun hfaithful => ?_⟩
  obtain ⟨slot, born, hsource, hid⟩ := source_of_faithful hfaithful hanswer
  obtain ⟨rfl, -⟩ := Prod.mk.inj (Option.some.inj hsource)
  exact absurd hid (by decide)

end BoredomOS.Log
