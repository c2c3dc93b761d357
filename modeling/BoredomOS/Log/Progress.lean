/-
Downloads end. What a port still has to be sent is counted in calls: the slots a listing has not passed
and the chunks of a stream, and one more for each to end. A piece of work that finds room takes one away,
or finds the other port at the handle and then turns to that port, which does not wait. So, with room on
both ports and no new request, neither port can hold up the other for more than one turn, and twice the
calls that are left are enough for both to be done, whatever is logged in between.
-/
import BoredomOS.Log.Delivery
import BoredomOS.Log.Listing

namespace BoredomOS.Log

open Runs
open Link (linkChanUart linkChanUsb)

variable {n : Nat} {t t' : TaskSdWrite}

/-! ## What is left -/

namespace TaskSdWrite

/-- A call for each slot that may still be listed, and one to end. -/
def listingLeft (t : TaskSdWrite) (port : Fin 2) : Nat :=
  if (t.listings port).active then t.fileCount - (t.listings port).nextSlot.toNat + 1 else 0

/-- A call for each chunk, and one to end. -/
def streamLeft (t : TaskSdWrite) (port : Fin 2) : Nat :=
  if (t.streams port).active then
    if (t.streams port).absent then 1
    else chunkCount (t.streams port).pos.toNat (t.streams port).end.toNat + 1
  else 0

def callsLeft (t : TaskSdWrite) : Nat :=
  t.listingLeft linkChanUart + t.streamLeft linkChanUart + (t.listingLeft linkChanUsb + t.streamLeft linkChanUsb)

/-- With room on both ports, the next piece of work would only find the handle taken. -/
def wouldWait (t : TaskSdWrite) : Bool :=
  match t.servedPort fun _ => true with
  | none => false
  | some port => !(t.listings port).active && t.waitsForHandle port

/-- Twice the calls that are left, and one for a turn that only waits. -/
def potential (t : TaskSdWrite) : Nat := 2 * t.callsLeft + if t.wouldWait then 1 else 0

/-- Neither port has anything to be served, and nobody holds the handle. -/
structure Idle (t : TaskSdWrite) : Prop where
  listings : ∀ port, (t.listings port).active = false
  streams : ∀ port, (t.streams port).active = false
  handle : t.readerPort = none

end TaskSdWrite

/-- No request for more, and none from a port there is not. -/
def Quiet : TaskEv → Prop
  | .received (.logList _) _ | .received (.logRead _) _ => False
  | .received (.logEnd request) _ => request.port.toNat < 2
  | _ => True

/-- Download work that finds room on both ports. -/
def servesBoth : TaskEv → Bool
  | .served room _ => room linkChanUart && room linkChanUsb
  | .received _ _ => false

theorem active_of_streamLeft {port : Fin 2} (h : t.streamLeft port = 0) : (t.streams port).active = false := by
  unfold TaskSdWrite.streamLeft at h
  split at h
  · split at h <;> omega
  · rename_i hnot
    simpa using hnot

theorem active_of_listingLeft {port : Fin 2} (h : t.listingLeft port = 0) : (t.listings port).active = false := by
  unfold TaskSdWrite.listingLeft at h
  split at h
  · omega
  · rename_i hnot
    simpa using hnot

theorem idle_of_callsLeft (hok : TaskOk n none t) (h : t.callsLeft = 0) : t.Idle := by
  unfold TaskSdWrite.callsLeft at h
  have hstreams : ∀ port, (t.streams port).active = false := by
    intro port
    fin_cases port
    · exact active_of_streamLeft (show t.streamLeft linkChanUart = 0 by omega)
    · exact active_of_streamLeft (show t.streamLeft linkChanUsb = 0 by omega)
  refine ⟨fun port => ?_, hstreams, ?_⟩
  · fin_cases port
    · exact active_of_listingLeft (show t.listingLeft linkChanUart = 0 by omega)
    · exact active_of_listingLeft (show t.listingLeft linkChanUsb = 0 by omega)
  · rw [Option.eq_none_iff_forall_ne_some]
    intro port hport
    have hactive := (hok.reader port hport).1
    rw [hstreams port] at hactive
    cases hactive

/-! ## Steps that take nothing, or a call -/

/-- Nothing that the count or the turn depends on moves. -/
structure Stays (t t' : TaskSdWrite) : Prop where
  files : t'.fileCount = t.fileCount
  listings : t'.listings = t.listings
  streams : t'.streams = t.streams
  readerPort : t'.readerPort = t.readerPort
  nextPort : t'.nextPort = t.nextPort

/-- One port has less left than before, and the other no more. -/
structure Takes (port : Fin 2) (t t' : TaskSdWrite) : Prop where
  less : t'.listingLeft port + t'.streamLeft port < t.listingLeft port + t.streamLeft port
  other : ∀ q, q ≠ port → t'.listingLeft q + t'.streamLeft q ≤ t.listingLeft q + t.streamLeft q

theorem Takes.callsLeft {port : Fin 2} (h : Takes port t t') : t'.callsLeft < t.callsLeft := by
  have hless := h.less
  unfold TaskSdWrite.callsLeft
  fin_cases port
  · have hother := h.other linkChanUsb (by decide)
    change t'.listingLeft linkChanUart + t'.streamLeft linkChanUart < t.listingLeft linkChanUart + t.streamLeft linkChanUart at hless
    omega
  · have hother := h.other linkChanUart (by decide)
    change t'.listingLeft linkChanUsb + t'.streamLeft linkChanUsb < t.listingLeft linkChanUsb + t.streamLeft linkChanUsb at hless
    omega

theorem Stays.callsLeft (h : Stays t t') : t'.callsLeft = t.callsLeft := by
  unfold TaskSdWrite.callsLeft TaskSdWrite.listingLeft TaskSdWrite.streamLeft
  rw [h.files, h.listings, h.streams]

theorem Stays.potential (h : Stays t t') : t'.potential = t.potential := by
  have hwaits : t'.wouldWait = t.wouldWait := by
    unfold TaskSdWrite.wouldWait TaskSdWrite.servedPort TaskSdWrite.waitsForHandle
    rw [h.listings, h.streams, h.readerPort, h.nextPort]
  unfold TaskSdWrite.potential
  rw [h.callsLeft, hwaits]

theorem left_of_same {port : Fin 2} (hfiles : t'.fileCount = t.fileCount) (hlisting : t'.listings port = t.listings port)
    (hstream : t'.streams port = t.streams port) : t'.listingLeft port = t.listingLeft port ∧ t'.streamLeft port = t.streamLeft port := by
  unfold TaskSdWrite.listingLeft TaskSdWrite.streamLeft
  rw [hfiles, hlisting, hstream]
  exact ⟨rfl, rfl⟩

/-- The other port is left alone, and the port's listing or its stream takes a call. -/
theorem Takes.of_left {port : Fin 2} (hfiles : t'.fileCount = t.fileCount)
    (hother : ∀ q, q ≠ port → t'.listings q = t.listings q ∧ t'.streams q = t.streams q)
    (hless : t'.listingLeft port + t'.streamLeft port < t.listingLeft port + t.streamLeft port) : Takes port t t' := by
  refine ⟨hless, fun q hq => ?_⟩
  obtain ⟨hlisting, hstream⟩ := left_of_same hfiles (hother q hq).1 (hother q hq).2
  rw [hlisting, hstream]

/-- A call taken is worth a turn that waits. -/
theorem potential_lt_of_callsLeft (h : t'.callsLeft < t.callsLeft) : t'.potential < t.potential := by
  unfold TaskSdWrite.potential
  split <;> split <;> omega

/-- A stream that ends takes its calls with it. -/
theorem takes_endStream {port : Fin 2} (hactive : (t.streams port).active = true) : Takes port t (t.endStream port) := by
  have hlistings : ∀ q, (t.endStream port).listingLeft q = t.listingLeft q := fun q => by
    unfold TaskSdWrite.endStream TaskSdWrite.listingLeft
    dsimp only
    split <;> rfl
  constructor
  · have hzero : (t.endStream port).streamLeft port = 0 := by
      simp [TaskSdWrite.streamLeft, inactive_endStream]
    have hpos : 0 < t.streamLeft port := by
      unfold TaskSdWrite.streamLeft
      rw [if_pos hactive]
      split <;> omega
    rw [hlistings, hzero]
    omega
  · intro q hq
    rw [hlistings]
    unfold TaskSdWrite.streamLeft
    rw [streams_endStream, if_neg hq]

/-- A stream that has ended already stays as it is. -/
theorem stays_endStream (hok : TaskOk n none t) {port : Fin 2} (hactive : (t.streams port).active = false) :
    Stays t (t.endStream port) := by
  have hfree : t.readerPort ≠ some port := fun hport => by
    rw [(hok.reader port hport).1] at hactive
    cases hactive
  have hsame : t.setStream port { t.streams port with active := false } = t := by
    unfold TaskSdWrite.setStream
    have hstream : ({ t.streams port with active := false } : LogStream) = t.streams port := by rw [← hactive]
    rw [hstream, Function.update_eq_self]
  unfold TaskSdWrite.endStream
  rw [hsame, if_neg (by exact hfree)]
  exact ⟨rfl, rfl, rfl, rfl, rfl⟩

/-! ## What is received -/

/-- A step that has nothing to serve: it leaves all as it is, or takes calls away. -/
def Spares (t t' : TaskSdWrite) : Prop := Stays t t' ∨ t'.callsLeft < t.callsLeft

namespace Spares

variable {t'' : TaskSdWrite}

theorem trans (h₁ : Spares t t') (h₂ : Spares t' t'') : Spares t t'' := by
  rcases h₁ with h₁ | h₁ <;> rcases h₂ with h₂ | h₂
  · exact Or.inl ⟨h₂.files.trans h₁.files, h₂.listings.trans h₁.listings, h₂.streams.trans h₁.streams,
      h₂.readerPort.trans h₁.readerPort, h₂.nextPort.trans h₁.nextPort⟩
  · exact Or.inr (h₁.callsLeft ▸ h₂)
  · exact Or.inr (h₂.callsLeft ▸ h₁)
  · exact Or.inr (h₂.trans h₁)

theorem potential_le (h : Spares t t') : t'.potential ≤ t.potential := by
  rcases h with h | h
  · exact h.potential.le
  · exact (potential_lt_of_callsLeft h).le

theorem endReplaced (t : TaskSdWrite) (after : Nat) (port : Fin 2) : Spares t (t.endReplaced after port) := by
  unfold TaskSdWrite.endReplaced
  dsimp only
  split
  · rename_i hends
    simp only [Bool.and_eq_true] at hends
    have hposted : Spares t (t.postNoData port) := Or.inl ⟨rfl, rfl, rfl, rfl, rfl⟩
    have hended : Takes port (t.postNoData port) ((t.postNoData port).endStream port) := takes_endStream hends.1.1
    exact hposted.trans (Or.inr hended.callsLeft)
  · exact Or.inl ⟨rfl, rfl, rfl, rfl, rfl⟩

/-- A record may end the downloads of the slot it rotates into. -/
theorem writeRecord (t : TaskSdWrite) (incoming : SdRecord) (o : Opening) : Spares t (t.writeRecord incoming o) := by
  unfold TaskSdWrite.writeRecord
  split
  · exact Or.inl ⟨rfl, rfl, rfl, rfl, rfl⟩
  rename_i record _
  have hwritten : Stays t { t with sdData := ((Storage.write (some record) (writeLogPreamble o)).run t.sdData).2 } :=
    ⟨files_write _ _ _, rfl, rfl, rfl, rfl⟩
  dsimp only
  split
  · refine trans (Or.inl hwritten) ?_
    exact (endReplaced _ _ 0).trans (endReplaced _ _ 1)
  · exact Or.inl hwritten

end Spares

theorem spares_receive (hok : TaskOk n none t) {incoming : SdRecord} {o : Opening} (hquiet : Quiet (.received incoming o)) :
    ∃ t', t.receive incoming o = some t' ∧ Spares t t' := by
  cases incoming with
  | logList request => exact hquiet.elim
  | logRead request => exact hquiet.elim
  | logEnd request =>
    have hport : TaskSdWrite.portOf request = some ⟨request.port.toNat, hquiet⟩ := dif_pos hquiet
    refine ⟨t.endStream ⟨request.port.toNat, hquiet⟩, by rw [TaskSdWrite.receive, hport]; rfl, ?_⟩
    cases hactive : (t.streams ⟨request.port.toNat, hquiet⟩).active with
    | false => exact Or.inl (stays_endStream hok hactive)
    | true => exact Or.inr (takes_endStream hactive).callsLeft
  | sys r | pwr r | time r => exact ⟨_, rfl, Spares.writeRecord t _ o⟩

/-! ## What is served -/

/-- A slot of the listing goes by, or the listing ends. -/
theorem takes_serviceListing (hfiles : t.fileCount ≤ 255) {port : Fin 2} {served : TaskSdWrite}
    (hactive : (t.listings port).active = true) (hserved : t.serviceListing port = some served) : Takes port t served := by
  have hother : ∀ (listing : LogListing) (q : Fin 2), q ≠ port →
      (t.setListing port listing).listings q = t.listings q ∧ (t.setListing port listing).streams q = t.streams q :=
    fun _ q hq => ⟨Function.update_of_ne hq _ _, rfl⟩
  have hless : ∀ listing : LogListing,
      (listing.active = true → listing.nextSlot.toNat ≤ t.fileCount ∧ (t.listings port).nextSlot.toNat < listing.nextSlot.toNat) →
        (t.setListing port listing).listingLeft port + (t.setListing port listing).streamLeft port <
          t.listingLeft port + t.streamLeft port := by
    intro listing hlisting
    have hnew : (t.setListing port listing).listingLeft port =
        if listing.active then t.fileCount - listing.nextSlot.toNat + 1 else 0 := by
      unfold TaskSdWrite.listingLeft
      rw [TaskSdWrite.listings_setListing]
      rfl
    have hold : t.listingLeft port = t.fileCount - (t.listings port).nextSlot.toNat + 1 := if_pos hactive
    have hstream : (t.setListing port listing).streamLeft port = t.streamLeft port := rfl
    rw [hnew, hold, hstream]
    split
    · obtain ⟨hle, hlt⟩ := hlisting ‹_›
      omega
    · omega
  let request : SdLogRequestPayload :=
    { ofs := 0, count := 0, start := (t.listings port).start, «end» := (t.listings port).end, port := 0 }
  obtain ⟨slot, hnext, rfl⟩ | ⟨-, listing, rfl⟩ := @serviceListing_next _ request hfiles _ _ rfl rfl hserved
  · obtain ⟨hle, hlt, -⟩ := Cursor.next_eq_some.1 hnext
    have hbyte : (UInt8.ofNat (slot + 1)).toNat = slot + 1 := by
      rw [UInt8.toNat_ofNat']
      omega
    have hpassed := hless { t.listings port with nextSlot := UInt8.ofNat (slot + 1) } fun _ => by
      dsimp only
      rw [hbyte]
      omega
    exact Takes.of_left rfl (hother _) hpassed
  · have hended := hless { listing with active := false } fun h => by cases h
    exact Takes.of_left rfl (hother _) hended

/-- A chunk goes out: all that is left of the range, or 90 bytes of it. -/
theorem takes_readChunk {port : Fin 2} {f : Named} {slot : Nat} {r : Handle} (hactive : (t.streams port).active = true)
    (hpresent : (t.streams port).absent = false) (hserves : Serves n none t.card (t.streams port) f slot)
    (hpos : 0 ≤ (t.streams port).slot.toInt) (hr : t.reader = some r) (hslot : r.slot = slot) (hborn : r.born = f.born)
    (hat : r.pos = (t.streams port).pos.toNat) (hsize : f.image.length ≤ r.size)
    (hmore : (t.streams port).pos < (t.streams port).end) (noise : List UInt8) : Takes port t (t.readChunk port noise) := by
  have hlt : (t.streams port).pos.toNat < (t.streams port).end.toNat := hmore
  have hend := hserves.end_le
  have hbound := (t.streams port).end.toNat_lt
  have hasked : ((t.streams port).end - (t.streams port).pos).toNat = (t.streams port).end.toNat - (t.streams port).pos.toNat :=
    UInt32.toNat_sub_of_le _ _ (UInt32.le_of_lt hmore)
  obtain ⟨g, hg, hgborn, hpre⟩ := hserves.held hpos (by simp)
  generalize hwant : min ((t.streams port).end - (t.streams port).pos).toNat kLogDataChunk = want
  have hread := read_eq (hslot ▸ hg) (hgborn.trans hborn.symm) hpre (show r.pos + want ≤ f.image.length by omega) noise
  have hdata : ((f.image.drop r.pos).take (min want (r.size - r.pos))).length = want := by
    rw [List.length_take, List.length_drop]
    omega
  have hwanted : 0 < want ∧ want ≤ 90 ∧ (want = 90 ∨ want = (t.streams port).end.toNat - (t.streams port).pos.toNat) := by
    have hchunk : kLogDataChunk = 90 := rfl
    omega
  have hsome : ((f.image.drop r.pos).take (min want (r.size - r.pos))).isEmpty = false := by
    rw [List.isEmpty_eq_false_iff, ← List.length_pos_iff, hdata]
    exact hwanted.1
  have hnext : ((t.streams port).pos + UInt32.ofNat want).toNat = (t.streams port).pos.toNat + want := by
    rw [UInt32.toNat_add, UInt32.toNat_ofNat']
    omega
  unfold TaskSdWrite.readChunk
  rw [hr]
  simp only [hwant, hread, hsome, hdata, Bool.false_eq_true, if_false]
  refine Takes.of_left rfl (fun q hq => ⟨rfl, Function.update_of_ne hq _ _⟩) (Nat.add_lt_add_left ?_ _)
  unfold TaskSdWrite.streamLeft
  dsimp only
  rw [TaskSdWrite.streams_setStream, if_pos hactive, if_neg (by simp [hpresent]), if_pos hactive, if_neg (by simp [hpresent]), hnext]
  dsimp only
  unfold chunkCount
  omega

/-- A call of `serviceStream` that does not wait for the handle. -/
theorem takes_serviceStream (hok : TaskOk n none t) (hn : n ≤ 256) {port : Fin 2} (hactive : (t.streams port).active = true)
    (hwaits : t.waitsForHandle port = false) (noise : List UInt8) : Takes port t (t.serviceStream port noise) := by
  have hends : ∀ {t₁ : TaskSdWrite}, t₁.fileCount = t.fileCount → t₁.listings = t.listings → t₁.streams = t.streams →
      Takes port t (t₁.endStream port) := by
    intro t₁ hfiles hlistings hstreams
    have hactive₁ : (t₁.streams port).active = true := by rw [hstreams]; exact hactive
    obtain ⟨hless, hother⟩ := takes_endStream hactive₁
    have hsame : ∀ q, t₁.listingLeft q = t.listingLeft q ∧ t₁.streamLeft q = t.streamLeft q := fun q =>
      left_of_same hfiles (congrFun hlistings q) (congrFun hstreams q)
    constructor
    · rwa [(hsame port).1, (hsame port).2] at hless
    · intro q hq
      have hle := hother q hq
      rwa [(hsame q).1, (hsame q).2] at hle
  unfold TaskSdWrite.serviceStream
  dsimp only
  split
  · -- absent: the one call that says so
    rename_i habsent
    refine Takes.of_left rfl (fun q hq => ⟨rfl, Function.update_of_ne hq _ _⟩) (Nat.add_lt_add_left ?_ _)
    unfold TaskSdWrite.streamLeft
    rw [TaskSdWrite.streams_setStream, if_pos hactive, if_pos habsent, if_neg (by simp)]
    exact Nat.one_pos
  rename_i hpresent
  rw [Bool.not_eq_true] at hpresent
  split
  · split
    · exact hends rfl rfl rfl
    · exact hends rfl rfl rfl
  rename_i hmore
  have hmore : (t.streams port).pos < (t.streams port).end := UInt32.not_le.1 hmore
  obtain ⟨f, slot, hnamed, hserves⟩ := hok.streams port hactive hpresent
  split
  · rename_i hport
    obtain ⟨-, -, r, f', hr, hnamed', hpos, hslot, hborn, hat, hsize⟩ := hok.reader port hport
    obtain rfl : f = f' := Option.some.inj (hnamed.symm.trans hnamed')
    have hvalue := slot_toInt (by have := hserves.lt; omega) hserves.slot_eq hpos
    exact takes_readChunk hactive hpresent hserves hpos hr (by rw [hslot, hvalue]; rfl) hborn hat hsize hmore noise
  rename_i hnot
  split
  · rename_i hheld
    simp [TaskSdWrite.waitsForHandle, hpresent, hmore, hnot, hheld] at hwaits
  split
  · exact hends rfl rfl rfl
  · -- the handle opens on the file of the slot, at the stream's position
    rename_i g hg
    obtain ⟨hpos, hvalue, hborn, hpre⟩ := hserves.opened (by omega) hg
    have hsize := hpre.length_le
    have hend := hserves.end_le
    have hmore' : (t.streams port).pos.toNat < (t.streams port).end.toNat := hmore
    have htakes := takes_readChunk (t := { t with
        reader := some ⟨(t.streams port).slot.toInt.toNat, g.born, g.image.length,
          if (t.streams port).pos.toNat ≤ g.image.length then (t.streams port).pos.toNat else 0⟩
        readerPort := some port }) hactive hpresent hserves hpos rfl (by rw [hvalue]; rfl) hborn (if_pos (by omega)) hsize hmore noise
    exact ⟨htakes.less, htakes.other⟩

theorem eq_next_of_ne : ∀ {port q : Fin 2}, q ≠ port → q = port + 1 := by decide

theorem mem_turns : ∀ next q : Fin 2, q ∈ [next, next + 1] := by decide

/-- The port at the handle has its turn once the other has waited. -/
theorem wouldWait_after (hok : TaskOk n none t) {port : Fin 2} (hwaits : t.waitsForHandle port = true) :
    ({ t with nextPort := port + 1 } : TaskSdWrite).wouldWait = false := by
  simp only [TaskSdWrite.waitsForHandle, Bool.and_eq_true, decide_eq_true_eq] at hwaits
  obtain ⟨⟨-, hnot⟩, hheld⟩ := hwaits
  obtain ⟨q, hq⟩ := Option.isSome_iff_exists.1 hheld
  obtain rfl : q = port + 1 := eq_next_of_ne fun heq => hnot (heq ▸ hq)
  have hactive := (hok.reader _ hq).1
  have hserved : ({ t with nextPort := port + 1 } : TaskSdWrite).servedPort (fun _ => true) = some (port + 1) := by
    simp [TaskSdWrite.servedPort, List.find?, hactive]
  unfold TaskSdWrite.wouldWait
  rw [hserved]
  simp [TaskSdWrite.waitsForHandle, hq]

/-- Whatever room there is, and at a turn with room on both ports, if anything is left. -/
theorem potential_serve (hok : TaskOk n none t) (hn : n ≤ 255) (room : Fin 2 → Bool) (noise : List UInt8) :
    ∃ t', t.serve room noise = some t' ∧ t'.potential ≤ t.potential ∧
      (room 0 = true → room 1 = true → 0 < t.callsLeft → t'.potential < t.potential) := by
  have hfiles : t.fileCount ≤ 255 := hok.files.trans_le hn
  have hsome : (t.serve room noise).isSome = true := by
    unfold TaskSdWrite.serve
    split
    · rfl
    · rw [Option.isSome_map]
      split
      · exact TaskSdWrite.serviceListing_isSome hfiles _
      · rfl
  obtain ⟨t', hserve⟩ := Option.isSome_iff_exists.1 hsome
  refine ⟨t', hserve, ?_⟩
  obtain ⟨hnone, hsame⟩ | ⟨port, served, hport, -, rfl, hpiece⟩ := serve_cases hserve
  · rw [hsame]
    refine ⟨Nat.le_refl _, fun h0 h1 hleft => ?_⟩
    -- with room on both ports, only a task that has nothing left serves none
    have hroom : ∀ q, room q = true := by
      intro q
      fin_cases q
      · exact h0
      · exact h1
    have hidle : ∀ q, t.listingLeft q = 0 ∧ t.streamLeft q = 0 := by
      intro q
      have hnot := List.find?_eq_none.1 hnone q (mem_turns t.nextPort q)
      rw [hroom q, Bool.and_true, Bool.or_eq_true, not_or] at hnot
      exact ⟨if_neg hnot.1, if_neg hnot.2⟩
    unfold TaskSdWrite.callsLeft at hleft
    rw [(hidle _).1, (hidle _).2, (hidle _).1, (hidle _).2] at hleft
    exact absurd hleft (Nat.lt_irrefl 0)
  have htaken : Takes port t served → ({ served with nextPort := port + 1 } : TaskSdWrite).potential < t.potential := by
    intro htakes
    apply potential_lt_of_callsLeft
    exact htakes.callsLeft
  obtain ⟨hlisting, hserved⟩ | ⟨hlisting, hactive, rfl⟩ := hpiece
  · have hlt := htaken (takes_serviceListing hfiles hlisting hserved)
    exact ⟨hlt.le, fun _ _ _ => hlt⟩
  cases hwaits : t.waitsForHandle port with
  | false =>
    have hlt := htaken (takes_serviceStream hok (by omega) hactive hwaits noise)
    exact ⟨hlt.le, fun _ _ _ => hlt⟩
  | true =>
    rw [serviceStream_waits hwaits]
    have hafter : ({ t with nextPort := port + 1 } : TaskSdWrite).potential = 2 * t.callsLeft := by
      have hleft : ({ t with nextPort := port + 1 } : TaskSdWrite).callsLeft = t.callsLeft := rfl
      unfold TaskSdWrite.potential
      rw [wouldWait_after hok hwaits, hleft]
      rfl
    rw [hafter]
    refine ⟨Nat.le_add_right _ _, fun h0 h1 _ => ?_⟩
    have hboth : room = fun _ => true := by
      funext q
      fin_cases q
      · exact h0
      · exact h1
    have hwould : t.wouldWait = true := by
      unfold TaskSdWrite.wouldWait
      rw [← hboth, hport]
      simp [hlisting, hwaits]
    unfold TaskSdWrite.potential
    rw [if_pos hwould]
    omega

/-- A turn that would wait is one of a port with something left. -/
theorem callsLeft_pos (h : 0 < t.potential) : 0 < t.callsLeft := by
  rcases Nat.eq_zero_or_pos t.callsLeft with hzero | hpos
  swap
  · exact hpos
  exfalso
  have hidle : ∀ q, (t.listings q).active = false ∧ (t.streams q).active = false := by
    unfold TaskSdWrite.callsLeft at hzero
    intro q
    fin_cases q
    · exact ⟨active_of_listingLeft (show t.listingLeft linkChanUart = 0 by omega), active_of_streamLeft (show t.streamLeft linkChanUart = 0 by omega)⟩
    · exact ⟨active_of_listingLeft (show t.listingLeft linkChanUsb = 0 by omega), active_of_streamLeft (show t.streamLeft linkChanUsb = 0 by omega)⟩
  have hnone : (t.servedPort fun _ => true) = none :=
    List.find?_eq_none.2 fun q _ => by simp [(hidle q).1, (hidle q).2]
  unfold TaskSdWrite.potential TaskSdWrite.wouldWait at h
  rw [hzero, hnone] at h
  exact Nat.lt_irrefl 0 h

/-! ## Downloads end -/

theorem potential_step (hok : TaskOk n none t) (hn : n ≤ 255) {e : TaskEv} (hquiet : Quiet e) :
    ∃ t', t.step e = some t' ∧ t'.potential ≤ t.potential ∧
      (servesBoth e = true → 0 < t.potential → t'.potential < t.potential) := by
  cases e with
  | received incoming o =>
    obtain ⟨t', hstep, hspares⟩ := spares_receive hok hquiet
    exact ⟨t', hstep, hspares.potential_le, fun h => by cases h⟩
  | served room noise =>
    obtain ⟨t', hstep, hle, hlt⟩ := potential_serve hok hn room noise
    refine ⟨t', hstep, hle, fun hboth hpos => ?_⟩
    obtain ⟨h0, h1⟩ := Bool.and_eq_true_iff.1 hboth
    exact hlt h0 h1 (callsLeft_pos hpos)

/-- From any state a run of the task reaches, on any card, with nothing more asked for: whatever is logged
and however the turns fall, after twice as many turns with room on both ports as calls were left, every
listing and every download has ended and the handle is free. -/
theorem downloads_end (files size : Nat) (h2 : 2 ≤ files) (hmax : files ≤ 255) (c : Storage.Card LogPiece) (o : Opening)
    (es₀ : List TaskEv) (t : TaskSdWrite) (hrun : run TaskSdWrite.step (.boot files size c o) es₀ = some t)
    (es : List TaskEv) (hquiet : ∀ e ∈ es, Quiet e) (hturns : 2 * t.callsLeft ≤ es.countP servesBoth) :
    ∃ t', run TaskSdWrite.step t es = some t' ∧ t'.Idle := by
  have hok : TaskOk files none t :=
    Runs.inv (fun _ _ _ h hstep => h.step h2 (by omega) hstep) (taskOk_boot (by omega) size c o) hrun
  have hkeeps : ∀ (s : TaskSdWrite) (e : TaskEv) (s' : TaskSdWrite), TaskOk files none s → s.step e = some s' → TaskOk files none s' :=
    fun _ _ _ h hstep => h.step h2 (by omega) hstep
  have hstep : ∀ (s : TaskSdWrite) (e : TaskEv), TaskOk files none s → Quiet e → ∃ s', s.step e = some s' ∧
      s'.potential ≤ s.potential ∧ (servesBoth e = true → 0 < s.potential → s'.potential < s.potential) :=
    fun _ _ h hquiet => potential_step h hmax hquiet
  obtain ⟨t', hrun', hok', hspent⟩ := Runs.spent hkeeps hstep hok hquiet
  refine ⟨t', hrun', idle_of_callsLeft hok' ?_⟩
  unfold TaskSdWrite.potential at hspent
  split at hspent <;> split at hspent <;> omega

/-- Both ports ask for the whole of a file, and one for the listing; a record is logged in between. -/
def bothAsk : List TaskEv :=
  let read (port : UInt8) : TaskEv :=
    .received (.logRead { ofs := 0, count := 0xFFFFFFFF, start := 2, «end» := 2, port }) opening
  [read 0, read 1, .received (.logList listAll) opening]

def fortyTurns : List TaskEv :=
  .received (.pwr { timeUs := 5000, millivolts := 3700, remaining := 80 }) opening ::
    List.replicate 40 (.served (fun _ => true) [])

theorem downloads_end_bothAsk : ∃ t, run TaskSdWrite.step (.boot 4 373 (comeRound 4) opening) bothAsk = some t ∧
    ∃ t', run TaskSdWrite.step t fortyTurns = some t' ∧ t'.Idle := by
  have hleft : (run TaskSdWrite.step (.boot 4 373 (comeRound 4) opening) bothAsk).map
      (fun t => decide (2 * t.callsLeft ≤ fortyTurns.countP servesBoth)) = some true := by decide +kernel
  obtain ⟨t, hrun, hleft⟩ := Option.map_eq_some_iff.1 hleft
  refine ⟨t, hrun, downloads_end 4 373 (by decide) (by decide) _ _ bothAsk t hrun fortyTurns ?_ (of_decide_eq_true hleft)⟩
  intro e he
  rcases List.mem_cons.1 he with rfl | he
  · trivial
  · rw [(List.mem_replicate.1 he).2]
    trivial

end BoredomOS.Log
