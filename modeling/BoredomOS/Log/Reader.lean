/-
The one reading handle. Whichever of its ends a stream comes to, a handle it held goes with it: after every
step the handle is there exactly while a port holds it, and then that port's stream is active, on the file
of its slot and at its position. The card may also fail to open a file or to read it.
-/
import BoredomOS.Log.Unmixed

namespace BoredomOS.Log

open Storage (Card)

/-! ## A card that fails -/

namespace TaskSdWrite

/-- `serviceStream()` where `SD.open` may give no file and `read` no bytes. -/
def serviceStreamOn (t : TaskSdWrite) (port : Fin 2) (noise : List UInt8) (opens reads : Bool) : TaskSdWrite :=
  let stream := t.streams port
  if stream.absent || stream.pos ≥ stream.end then t.serviceStream port noise
  else if t.readerPort = some port then if reads then t.readChunk port noise else t.endStream port
  else if t.readerPort.isSome then t
  else
    match if opens then fileAt t.card stream.slot.toInt else none with
    | none => { t with reader := none }.endStream port
    | some f =>
      let pos := if stream.pos.toNat ≤ f.image.length then stream.pos.toNat else 0
      let t := { t with
        reader := some { slot := stream.slot.toInt.toNat, born := f.born, size := f.image.length, pos }
        readerPort := some port }
      if reads then t.readChunk port noise else t.endStream port

/-- On a card that does what it is asked it is `serviceStream()`. -/
theorem serviceStreamOn_true (t : TaskSdWrite) (port : Fin 2) (noise : List UInt8) :
    t.serviceStreamOn port noise true true = t.serviceStream port noise := by
  unfold serviceStreamOn
  dsimp only
  split
  · rfl
  rename_i hcard
  rw [Bool.or_eq_true, not_or, decide_eq_true_eq] at hcard
  have hserves : t.serviceStream port noise = _ := (if_neg hcard.1).trans (if_neg hcard.2)
  exact hserves.symm

/-- The download work of a pass on such a card. -/
def serveOn (t : TaskSdWrite) (room : Fin 2 → Bool) (noise : List UInt8) (opens reads : Bool) : Option TaskSdWrite :=
  match t.servedPort room with
  | none => some t
  | some port =>
    let served := if (t.listings port).active then t.serviceListing port
      else some (t.serviceStreamOn port noise opens reads)
    served.map fun t => { t with nextPort := otherPort port }

/-- A step, with whether an open and a read in it succeed. -/
def stepOn (t : TaskSdWrite) : TaskEv × Bool × Bool → Option TaskSdWrite
  | (.received incoming o, _, _) => t.receive incoming o
  | (.served room noise, opens, reads) => t.serveOn room noise opens reads

end TaskSdWrite

/-! ## The handle and its port -/

/-- A handle is held exactly while a port holds it. -/
def Paired (t : TaskSdWrite) : Prop := t.readerPort = none ↔ t.reader = none

namespace Paired

variable {t t' : TaskSdWrite} {port : Fin 2}

theorem of_same (h : Paired t) (hport : t'.readerPort = t.readerPort) (hreader : t'.reader = t.reader) : Paired t' := by
  unfold Paired
  rw [hport, hreader]
  exact h

theorem endStream (h : Paired t) (port : Fin 2) : Paired (t.endStream port) := by
  unfold TaskSdWrite.endStream
  dsimp only
  split
  · exact Iff.intro (fun _ => rfl) fun _ => rfl
  · exact h

/-- The port that has the handle just opened, or had it, may read on or end. -/
theorem readChunk {r : Handle} (hport : t.readerPort = some port) (hreader : t.reader = some r) (noise : List UInt8) :
    Paired (t.readChunk port noise) := by
  have h : Paired t := by
    unfold Paired
    simp [hport, hreader]
  unfold TaskSdWrite.readChunk
  rw [hreader]
  dsimp only
  split
  · exact h.endStream port
  · constructor
    · intro hnone
      rw [show t.readerPort = none from hnone] at hport
      cases hport
    · rintro ⟨⟩

/-- With the handle free, nothing changes by there being no file. -/
theorem unopened (hfree : t.readerPort = none) : Paired { t with reader := none } := Iff.intro (fun _ => rfl) fun _ => hfree

theorem serviceStreamOn (h : Paired t) (port : Fin 2) (noise : List UInt8) (opens reads : Bool) :
    Paired (t.serviceStreamOn port noise opens reads) := by
  unfold TaskSdWrite.serviceStreamOn
  dsimp only
  split
  · -- no call of the card
    rename_i hcard
    unfold TaskSdWrite.serviceStream
    dsimp only
    split
    · exact h
    rename_i hpresent
    rw [if_pos (by simpa [hpresent] using hcard)]
    split
    · exact endStream (t := t.postNoData port) h port
    · exact h.endStream port
  split
  · rename_i hheld
    split
    · obtain ⟨r, hr⟩ := Option.ne_none_iff_exists'.1 fun hnone => by
        rw [h.2 hnone] at hheld
        cases hheld
      exact readChunk hheld hr noise
    · exact h.endStream port
  split
  · exact h
  rename_i hfree
  rw [Bool.not_eq_true, Option.isSome_eq_false_iff, Option.isNone_iff_eq_none] at hfree
  split
  · exact (unopened hfree).endStream port
  · split
    · exact readChunk rfl rfl noise
    · apply endStream
      unfold Paired
      simp

theorem endReplaced (h : Paired t) (after : Nat) (port : Fin 2) : Paired (t.endReplaced after port) := by
  unfold TaskSdWrite.endReplaced
  dsimp only
  split
  · exact endStream (t := t.postNoData port) h port
  · exact h

theorem writeRecord (h : Paired t) (incoming : SdRecord) (o : Opening) : Paired (t.writeRecord incoming o) := by
  unfold TaskSdWrite.writeRecord
  split
  · exact h
  rename_i record _
  generalize ((Storage.write (some record) (writeLogPreamble o)).run t.sdData).2 = sd
  have hwritten : Paired { t with sdData := sd } := h
  dsimp only
  split
  · exact (hwritten.endReplaced _ 0).endReplaced _ 1
  · exact hwritten

theorem startStream (h : Paired t) (port : Fin 2) (request : SdLogRequestPayload) : Paired (t.startStream port request) :=
  (h.endStream port).of_same rfl rfl

theorem receive (h : Paired t) {incoming : SdRecord} {o : Opening} (hstep : t.receive incoming o = some t') : Paired t' := by
  unfold TaskSdWrite.receive at hstep
  split at hstep
  · obtain ⟨port, -, rfl⟩ := Option.map_eq_some_iff.1 hstep
    exact h
  · obtain ⟨port, -, rfl⟩ := Option.map_eq_some_iff.1 hstep
    exact h.startStream port _
  · obtain ⟨port, -, rfl⟩ := Option.map_eq_some_iff.1 hstep
    exact h.endStream port
  · cases hstep
    exact h.writeRecord incoming o

theorem serviceListing (h : Paired t) (hserved : t.serviceListing port = some t') : Paired t' := by
  obtain ⟨⟨listing, found⟩, -, rfl⟩ := Option.map_eq_some_iff.1 hserved
  cases found with
  | none => exact h
  | some found => exact h

end Paired

/-! ## Every step -/

/-- A port's stream is in order, and the handle is held for one. -/
structure Held (n : Nat) (t : TaskSdWrite) : Prop where
  ok : TaskOk n none t
  paired : Paired t

namespace Held

variable {n : Nat} {t t' : TaskSdWrite}

/-- A handle that was opened and not read is closed again. -/
theorem endOpened (h : TaskOk n none t) (port : Fin 2) (r : Handle) :
    TaskOk n none ({ t with reader := some r, readerPort := some port }.endStream port) := by
  have heq : { t with reader := some r, readerPort := some port }.endStream port =
      t.closeReader.setStream port { t.streams port with active := false } := by
    unfold TaskSdWrite.endStream
    exact if_pos rfl
  rw [heq]
  refine h.closeReader.setStream ?_ fun hactive => by cases hactive
  rintro ⟨⟩

theorem unopened (h : TaskOk n none t) (hfree : t.readerPort = none) : TaskOk n none { t with reader := none } := by
  refine ⟨h.files, h.current, h.streams, fun q hq => ?_, h.posted⟩
  rw [show t.readerPort = some q from hq] at hfree
  cases hfree

theorem serviceStreamOn (hn : n ≤ 256) (h : TaskOk n none t) {port : Fin 2} (hactive : (t.streams port).active = true)
    (noise : List UInt8) (opens reads : Bool) : TaskOk n none (t.serviceStreamOn port noise opens reads) := by
  have hworks := h.serviceStream hn hactive noise
  rw [← t.serviceStreamOn_true port noise] at hworks
  unfold TaskSdWrite.serviceStreamOn at hworks ⊢
  dsimp only at hworks ⊢
  split
  · rename_i hcard
    rwa [if_pos hcard] at hworks
  rename_i hcard
  rw [if_neg hcard] at hworks
  split
  · rename_i hheld
    rw [if_pos hheld, if_pos rfl] at hworks
    split
    · exact hworks
    · exact (h.endStream port).1
  rename_i hheld
  rw [if_neg hheld] at hworks
  split
  · exact h
  rename_i hfree
  rw [if_neg hfree, if_pos rfl] at hworks
  have hnone : t.readerPort = none := by simpa using hfree
  cases opens with
  | false =>
    rw [if_neg Bool.false_ne_true]
    exact ((unopened h hnone).endStream port).1
  | true =>
    rw [if_pos rfl]
    split at hworks
    · exact hworks
    · split
      · exact hworks
      · exact endOpened h port _

theorem step (h2 : 2 ≤ n) (hn : n ≤ 256) (h : Held n t) {e : TaskEv × Bool × Bool} (hstep : t.stepOn e = some t') : Held n t' := by
  obtain ⟨e | ⟨room, noise⟩, opens, reads⟩ := e
  · exact ⟨h.ok.receive h2 hn hstep, h.paired.receive hstep⟩
  change t.serveOn room noise opens reads = some t' at hstep
  unfold TaskSdWrite.serveOn at hstep
  split at hstep
  · cases hstep
    exact h
  rename_i port hport
  obtain ⟨served, hserved, rfl⟩ := Option.map_eq_some_iff.1 hstep
  have hheld : Held n served := by
    split at hserved
    · exact ⟨h.ok.serviceListing hserved, h.paired.serviceListing hserved⟩
    · rename_i hlisting
      cases hserved
      obtain ⟨hwork, -⟩ := servedPort_some hport
      have hactive : (t.streams port).active = true := by simpa [hlisting] using hwork
      exact ⟨serviceStreamOn hn h.ok hactive noise opens reads, h.paired.serviceStreamOn port noise opens reads⟩
  exact ⟨⟨hheld.ok.files, hheld.ok.current, hheld.ok.streams, hheld.ok.reader, hheld.ok.posted⟩, hheld.paired⟩

end Held

/-- After any requests, records, listings and services in any order, on a ring of 2 to 256 files, any card and
one that fails at any open or read: a handle is held exactly while a port holds it, on the file of that
port's active stream and at its position, and none is when no stream is active. -/
theorem reader_belongs (files size : Nat) (h2 : 2 ≤ files) (hmax : files ≤ 256) (c : Card LogPiece) (o : Opening)
    (es : List (TaskEv × Bool × Bool)) (t : TaskSdWrite)
    (hrun : Runs.run TaskSdWrite.stepOn (.boot files size c o) es = some t) :
    (t.readerPort = none ↔ t.reader = none) ∧
    (∀ p, t.readerPort = some p → (t.streams p).active = true ∧ (t.streams p).absent = false ∧
      ∃ r f, t.reader = some r ∧ fileAt t.card (t.streams p).slot.toInt = some f ∧
        (r.slot : Int) = (t.streams p).slot.toInt ∧ r.born = f.born ∧ r.pos = (t.streams p).pos.toNat) ∧
    ((∀ p, (t.streams p).active = false) → t.reader = none) := by
  have hheld : Held files t := by
    refine Runs.inv (fun _ _ _ h hstep => h.step h2 hmax hstep) ⟨taskOk_boot (by omega) size c o, ?_⟩ hrun
    exact Iff.intro (fun _ => rfl) fun _ => rfl
  refine ⟨hheld.paired, fun p hport => ?_, fun hidle => ?_⟩
  · obtain ⟨hactive, hpresent, r, f, hr, hnamed, hpos, hslot, hborn, hat, -⟩ := hheld.ok.reader p hport
    obtain ⟨f', slot, hnamed', hserves⟩ := hheld.ok.streams p hactive hpresent
    obtain rfl : f = f' := Option.some.inj (hnamed.symm.trans hnamed')
    have hlt := hserves.lt
    have hvalue := slot_toInt (by omega) hserves.slot_eq hpos
    obtain ⟨g, hg, hborn', -⟩ := hserves.held hpos (by simp)
    refine ⟨hactive, hpresent, r, g, hr, ?_, ?_, hborn.trans hborn'.symm, hat⟩
    · rw [hvalue, fileAt, if_neg (by omega)]
      exact hg
    · rw [hslot, Int.toNat_of_nonneg hpos]
  · apply hheld.paired.1
    by_contra hport
    obtain ⟨p, hport⟩ := Option.ne_none_iff_exists'.1 hport
    obtain ⟨hactive, -⟩ := hheld.ok.reader p hport
    rw [hidle p] at hactive
    cases hactive

/-- A download of file 2 with its first chunk read: the handle is on it, 90 bytes in. -/
theorem reader_belongs_reading : ∃ t, Runs.run TaskSdWrite.stepOn (.boot 4 373 (comeRound 4) opening)
    [(.received (.logRead { ofs := 0, count := 300, start := 2, «end» := 2, port := 0 }) opening, true, true),
      (.served (fun _ => true) [], true, true)] = some t ∧ t.readerPort = some 0 ∧
      ∃ r, t.reader = some r ∧ (r.slot : Int) = (t.streams 0).slot.toInt ∧ r.pos = (t.streams 0).pos.toNat := by
  have hheld : (Runs.run TaskSdWrite.stepOn (.boot 4 373 (comeRound 4) opening)
      [(.received (.logRead { ofs := 0, count := 300, start := 2, «end» := 2, port := 0 }) opening, true, true),
        (.served (fun _ => true) [], true, true)]).map (fun t => t.readerPort) = some (some 0) := by decide +kernel
  obtain ⟨t, hrun, hport⟩ := Option.map_eq_some_iff.1 hheld
  obtain ⟨-, -, r, -, hr, -, hslot, -, hpos⟩ := (reader_belongs 4 373 (by decide) (by decide) _ _ _ t hrun).2.1 0 hport
  exact ⟨t, hrun, hport, r, hr, hslot, hpos⟩

end BoredomOS.Log
