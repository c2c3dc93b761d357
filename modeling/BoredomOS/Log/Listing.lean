/-
What one request for the list of logs is answered with. The listing is a cursor over the slots: each call of
`serviceListing` reports the first slot from there on that is in the range and has bytes, as the card is at
that call, and the call that finds none ends it. Records, rotations, downloads and the other port's listing
come in between and leave the cursor where it is.
-/
import BoredomOS.Lib.Cursor
import BoredomOS.Lib.Runs
import BoredomOS.Log.Unmixed
import BoredomOS.Storage.Generations

namespace BoredomOS.Log

open Runs

/-! ## What is posted -/

def Post.entry (x : Post) : Option LogEntry :=
  match x.msg with
  | .logEntry m => some m
  | .logData _ => none

/-- The LOG_ENTRY for a port. -/
def entriesTo (port : Fin 2) (posts : List Post) : List LogEntry :=
  posts.filterMap fun x => if x.port = port then x.entry else none

theorem entriesTo_append (port : Fin 2) (xs ys : List Post) :
    entriesTo port (xs ++ ys) = entriesTo port xs ++ entriesTo port ys := List.filterMap_append

namespace TaskSdWrite

/-- The slot's id is in the range, and its file has bytes. -/
def lists (request : SdLogRequestPayload) (t : TaskSdWrite) (slot : Nat) : Bool :=
  decide (request.start ≤ UInt16.ofNat (slot + 1) ∧ UInt16.ofNat (slot + 1) ≤ request.end ∧ slotSize t.card slot ≠ 0)

def entryOf (t : TaskSdWrite) (slot : Nat) : LogEntry where
  id := UInt16.ofNat (slot + 1)
  numLogs := t.numLogs
  lastLogNum := t.lastLogNum
  timeUtc := slotTimeUtc t.card slot
  size := slotSize t.card slot

/-- The port's listing is served. -/
def servesListing (t : TaskSdWrite) (port : Fin 2) : TaskEv → Bool
  | .received _ _ => false
  | .served room _ => decide (t.servedPort room = some port) && (t.listings port).active

/-- The states in which a run calls `serviceListing` for the port. -/
def listingCalls (port : Fin 2) : TaskSdWrite → List TaskEv → List TaskSdWrite
  | _, [] => []
  | t, e :: es => (if t.servesListing port e then [t] else []) ++
    match t.step e with
    | some t' => listingCalls port t' es
    | none => []

end TaskSdWrite

theorem lists_iff {request : SdLogRequestPayload} {t : TaskSdWrite} {slot : Nat} : t.lists request slot = true ↔
    request.start ≤ UInt16.ofNat (slot + 1) ∧ UInt16.ofNat (slot + 1) ≤ request.end ∧ slotSize t.card slot ≠ 0 :=
  decide_eq_true_iff

/-! ## The loop -/

section

variable {t : TaskSdWrite} {request : SdLogRequestPayload}

/-- One round of the loop: the slot at the cursor is listed, or passed over. -/
theorem nextListed_succ (fuel : Nat) {listing : LogListing} (hstart : listing.start = request.start)
    (hend : listing.end = request.end) : t.nextListed (fuel + 1) listing =
      if listing.nextSlot.toNat < t.fileCount then
        if t.lists request listing.nextSlot.toNat = true then
          some ({ listing with nextSlot := listing.nextSlot + 1 },
            some (listing.nextSlot.toNat, slotSize t.card listing.nextSlot.toNat))
        else t.nextListed fuel { listing with nextSlot := listing.nextSlot + 1 }
      else some (listing, none) := by
  have hlists : t.lists request listing.nextSlot.toNat = true ↔ listing.start ≤ UInt16.ofNat (listing.nextSlot.toNat + 1) ∧
      UInt16.ofNat (listing.nextSlot.toNat + 1) ≤ listing.end ∧ slotSize t.card listing.nextSlot.toNat ≠ 0 := by
    rw [lists_iff, hstart, hend]
  rw [TaskSdWrite.nextListed]
  refine if_congr Iff.rfl ?_ rfl
  dsimp only
  by_cases hrange : UInt16.ofNat (listing.nextSlot.toNat + 1) < listing.start ∨ UInt16.ofNat (listing.nextSlot.toNat + 1) > listing.end
  · rw [if_pos hrange, if_neg]
    rw [hlists]
    rintro ⟨hfrom, hto, -⟩
    rcases hrange with hbelow | habove
    · exact absurd hbelow (UInt16.not_lt.2 hfrom)
    · exact absurd habove (UInt16.not_lt.2 hto)
  rw [if_neg hrange]
  rw [not_or, UInt16.not_lt, gt_iff_lt, UInt16.not_lt] at hrange
  by_cases hempty : slotSize t.card listing.nextSlot.toNat = 0
  · rw [if_pos hempty, if_neg fun h => (hlists.1 h).2.2 hempty]
  · rw [if_neg hempty, if_pos (hlists.2 ⟨hrange.1, hrange.2, hempty⟩)]

/-- The loop is the cursor's: it ends at the first slot that is listed, behind it, or at the end of the ring. -/
theorem nextListed_next (hfiles : t.fileCount ≤ 255) : ∀ {fuel : Nat} {listing listing' : LogListing}
    {found : Option (Nat × UInt32)}, listing.start = request.start → listing.end = request.end →
    t.nextListed fuel listing = some (listing', found) →
    found = (Cursor.next (TaskSdWrite.lists request) t.fileCount t listing.nextSlot.toNat).map
        (fun slot : Nat => (slot, slotSize t.card slot)) ∧
      ∀ x ∈ found, listing' = { listing with nextSlot := UInt8.ofNat (x.1 + 1) }
  | 0, _, _, _, _, _, h => by cases h
  | fuel + 1, listing, listing', found, hstart, hend, h => by
    rw [nextListed_succ fuel hstart hend] at h
    split at h
    · rename_i hlt
      split at h
      · rename_i hlists
        cases h
        constructor
        · rw [Cursor.next_here hlt hlists]
          rfl
        · rintro x ⟨⟩
          simp
      · rename_i hnot
        -- a ring of 255 files has no slot behind which the byte wraps
        have hnext : (listing.nextSlot + 1).toNat = listing.nextSlot.toNat + 1 := by
          rw [UInt8.toNat_add, UInt8.toNat_one]
          omega
        have hrest := @nextListed_next hfiles fuel { listing with nextSlot := listing.nextSlot + 1 } listing' found hstart hend h
        rw [Cursor.next_skip hlt (Bool.eq_false_iff.2 hnot), ← hnext]
        exact hrest
    · rename_i hge
      cases h
      have hnone : Cursor.next (TaskSdWrite.lists request) t.fileCount t listing.nextSlot.toNat = none :=
        Cursor.next_eq_none.2 fun k hk hlt => by omega
      refine ⟨?_, fun x hx => by cases hx⟩
      rw [hnone]
      rfl

/-- One call: the next slot is reported and the cursor is behind it, or there is none and the listing ends. -/
theorem serviceListing_next (hfiles : t.fileCount ≤ 255) {port : Fin 2} {served : TaskSdWrite}
    (hstart : (t.listings port).start = request.start) (hend : (t.listings port).end = request.end)
    (h : t.serviceListing port = some served) :
    (∃ slot, Cursor.next (TaskSdWrite.lists request) t.fileCount t (t.listings port).nextSlot.toNat = some slot ∧
        served = (t.setListing port { t.listings port with nextSlot := UInt8.ofNat (slot + 1) }).send port
          (.logEntry (t.entryOf slot)) none) ∨
      Cursor.next (TaskSdWrite.lists request) t.fileCount t (t.listings port).nextSlot.toNat = none ∧
        ∃ listing : LogListing, served = t.setListing port { listing with active := false } := by
  obtain ⟨⟨listing, found⟩, hnext, hserved⟩ := Option.map_eq_some_iff.1 h
  obtain ⟨hfound, hlisting⟩ := nextListed_next hfiles hstart hend hnext
  rcases hcursor : Cursor.next (TaskSdWrite.lists request) t.fileCount t (t.listings port).nextSlot.toNat with _ | slot
  · rw [hcursor] at hfound
    cases hfound
    exact Or.inr ⟨rfl, listing, hserved.symm⟩
  · rw [hcursor] at hfound
    cases hfound
    rw [hlisting _ rfl] at hserved
    exact Or.inl ⟨slot, rfl, hserved.symm⟩

end

/-! ## What else the task does -/

/-- No listing moves, the card stays as it is, and what is posted is no LOG_ENTRY. -/
structure Beside (t t' : TaskSdWrite) : Prop where
  listings : t'.listings = t.listings
  sdData : t'.sdData = t.sdData
  posted : ∃ xs, t'.posted = t.posted ++ xs ∧ ∀ x ∈ xs, Post.entry x = none

namespace Beside

variable {t t' t'' : TaskSdWrite} {p : Fin 2}

theorem trans (h₁ : Beside t t') (h₂ : Beside t' t'') : Beside t t'' := by
  obtain ⟨xs, hxs, hnone⟩ := h₁.posted
  obtain ⟨ys, hys, hnone'⟩ := h₂.posted
  refine ⟨h₂.listings.trans h₁.listings, h₂.sdData.trans h₁.sdData, xs ++ ys, by rw [hys, hxs, List.append_assoc], ?_⟩
  intro x hx
  rcases List.mem_append.1 hx with hx | hx
  · exact hnone x hx
  · exact hnone' x hx

theorem of_same (hlistings : t'.listings = t.listings) (hsdData : t'.sdData = t.sdData) (hposted : t'.posted = t.posted) :
    Beside t t' := ⟨hlistings, hsdData, [], by rw [hposted, List.append_nil], by simp⟩

theorem sendData (t : TaskSdWrite) (p : Fin 2) (m : LogData) (source : Option (Nat × Nat)) :
    Beside t (t.send p (.logData m) source) := by
  refine ⟨rfl, rfl, _, rfl, ?_⟩
  intro x hx
  rw [List.mem_singleton.1 hx]
  rfl

theorem endStream (t : TaskSdWrite) (p : Fin 2) : Beside t (t.endStream p) := by
  unfold TaskSdWrite.endStream
  dsimp only
  split <;> exact of_same rfl rfl rfl

theorem startStream (t : TaskSdWrite) (p : Fin 2) (request : SdLogRequestPayload) : Beside t (t.startStream p request) :=
  (endStream t p).trans (of_same rfl rfl rfl)

theorem readChunk (t : TaskSdWrite) (p : Fin 2) (noise : List UInt8) : Beside t (t.readChunk p noise) := by
  unfold TaskSdWrite.readChunk
  dsimp only
  split
  · exact endStream t p
  · split
    · exact endStream t p
    · exact (sendData t p _ _).trans (of_same rfl rfl rfl)

theorem serviceStream (t : TaskSdWrite) (p : Fin 2) (noise : List UInt8) : Beside t (t.serviceStream p noise) := by
  have hnoData : Beside t (t.postNoData p) := sendData t p _ _
  unfold TaskSdWrite.serviceStream
  dsimp only
  split
  · exact hnoData.trans (of_same rfl rfl rfl)
  split
  · split
    · exact hnoData.trans (endStream _ p)
    · exact endStream t p
  split
  · exact readChunk t p noise
  split
  · exact of_same rfl rfl rfl
  split
  · refine trans ?_ (endStream _ p)
    exact of_same rfl rfl rfl
  · refine trans ?_ (readChunk _ p noise)
    exact of_same rfl rfl rfl

theorem endReplaced (t : TaskSdWrite) (after : Nat) (p : Fin 2) : Beside t (t.endReplaced after p) := by
  unfold TaskSdWrite.endReplaced
  dsimp only
  split
  · exact (sendData t p _ _).trans (endStream _ p)
  · exact of_same rfl rfl rfl

/-- Once the record is on the card. -/
theorem writeRecord (t : TaskSdWrite) (incoming : SdRecord) (o : Opening) :
    Beside { t with sdData := ((Storage.write (Log.writeRecord incoming) (writeLogPreamble o)).run t.sdData).2 }
      (t.writeRecord incoming o) := by
  unfold TaskSdWrite.writeRecord
  cases Log.writeRecord incoming with
  | none =>
    have hsame : ((Storage.write none (writeLogPreamble o)).run t.sdData).2 = t.sdData := by
      simp only [Storage.write, Steps.Prog.run_bind, Steps.Prog.run_get]
      rfl
    exact of_same rfl hsame.symm rfl
  | some record =>
    dsimp only
    split
    · exact (endReplaced _ _ 0).trans (endReplaced _ _ 1)
    · exact of_same rfl rfl rfl

end Beside

/-! ## What the task does to the card -/

/-- A record is written; a request leaves the card alone, as a write of nothing does. -/
theorem sdData_receive {t t' : TaskSdWrite} {incoming : SdRecord} {o : Opening} (h : t.receive incoming o = some t') :
    t'.sdData = ((Storage.write (writeRecord incoming) (writeLogPreamble o)).run t.sdData).2 := by
  have hnothing : ((Storage.write none (writeLogPreamble o)).run t.sdData).2 = t.sdData := by
    simp only [Storage.write, Steps.Prog.run_bind, Steps.Prog.run_get]
    rfl
  cases incoming with
  | logList request =>
    obtain ⟨q, -, rfl⟩ := Option.map_eq_some_iff.1 h
    exact hnothing.symm
  | logRead request =>
    obtain ⟨q, -, rfl⟩ := Option.map_eq_some_iff.1 h
    exact (Beside.startStream t q request).sdData.trans hnothing.symm
  | logEnd request =>
    obtain ⟨q, -, rfl⟩ := Option.map_eq_some_iff.1 h
    exact (Beside.endStream t q).sdData.trans hnothing.symm
  | sys p | pwr p | time p =>
    cases h
    exact (Beside.writeRecord t _ o).sdData

theorem sdData_serve {t t' : TaskSdWrite} {room : Fin 2 → Bool} {noise : List UInt8} (h : t.serve room noise = some t') :
    t'.sdData = t.sdData := by
  obtain ⟨-, rfl⟩ | ⟨q, served, -, -, rfl, ⟨-, hserved⟩ | ⟨-, -, rfl⟩⟩ := serve_cases h
  · rfl
  · obtain ⟨⟨listing, found⟩, -, rfl⟩ := Option.map_eq_some_iff.1 hserved
    cases found <;> rfl
  · exact (Beside.serviceStream t q noise).sdData

/-! ## The steps of a listing -/

/-- The port's listing stays where it is. -/
structure Apart (port : Fin 2) (t t' : TaskSdWrite) : Prop where
  listing : t'.listings port = t.listings port
  files : t'.fileCount = t.fileCount
  posted : ∃ xs, t'.posted = t.posted ++ xs ∧ entriesTo port xs = []

theorem Beside.apart {t t' : TaskSdWrite} (h : Beside t t') (port : Fin 2) : Apart port t t' := by
  obtain ⟨xs, hxs, hnone⟩ := h.posted
  refine ⟨congrFun h.listings port, congrArg (·.data.files) h.sdData, xs, hxs, List.filterMap_eq_nil_iff.2 fun x hx => ?_⟩
  split
  · exact hnone x hx
  · rfl

/-- The other port's listing is another cursor. -/
theorem apart_serviceListing {port q : Fin 2} {t served : TaskSdWrite} (hq : port ≠ q)
    (h : t.serviceListing q = some served) : Apart port t served := by
  obtain ⟨⟨listing, found⟩, -, hserved⟩ := Option.map_eq_some_iff.1 h
  cases found with
  | none =>
    rw [← hserved]
    exact ⟨Function.update_of_ne hq _ _, rfl, [], (List.append_nil _).symm, rfl⟩
  | some found =>
    rw [← hserved]
    refine ⟨Function.update_of_ne hq _ _, rfl, _, rfl, ?_⟩
    simp [entriesTo, Ne.symm hq]

theorem files_write (data : Option LogPiece) (onOpen : List (Option LogPiece)) (s : Storage.Sys LogPiece) :
    ((Storage.write data onOpen).run s).2.data.files = s.data.files := by
  rcases Storage.onward_or_rotated_write data onOpen s with ⟨-, h⟩ | ⟨-, h⟩
  · exact h.files
  · exact h.files

theorem apart_writeRecord (port : Fin 2) (t : TaskSdWrite) (incoming : SdRecord) (o : Opening) :
    Apart port t (t.writeRecord incoming o) := by
  have h := (Beside.writeRecord t incoming o).apart port
  exact ⟨h.listing, h.files.trans (files_write _ _ _), h.posted⟩

/-- The task takes no request for another listing on the port. -/
def KeepsListing (port : Fin 2) (e : TaskEv) : Prop :=
  ∀ request o, e = .received (.logList request) o → TaskSdWrite.portOf request ≠ some port

/-- A step is apart from the port's listing, or serves it. -/
theorem listing_step {port : Fin 2} {t t' : TaskSdWrite} {e : TaskEv} (hkeeps : KeepsListing port e) (hstep : t.step e = some t') :
    t.servesListing port e = false ∧ Apart port t t' ∨
      t.servesListing port e = true ∧ (t.listings port).active = true ∧ ∃ served, t.serviceListing port = some served ∧
        t'.listings = served.listings ∧ t'.posted = served.posted ∧ t'.fileCount = served.fileCount := by
  cases e with
  | received incoming o =>
    refine Or.inl ⟨rfl, ?_⟩
    cases incoming with
    | logList request =>
      obtain ⟨q, hq, rfl⟩ := Option.map_eq_some_iff.1 hstep
      have hne : port ≠ q := by
        rintro rfl
        exact hkeeps request o rfl hq
      exact ⟨Function.update_of_ne hne _ _, rfl, [], (List.append_nil _).symm, rfl⟩
    | logRead request =>
      obtain ⟨q, -, rfl⟩ := Option.map_eq_some_iff.1 hstep
      exact (Beside.startStream t q request).apart port
    | logEnd request =>
      obtain ⟨q, -, rfl⟩ := Option.map_eq_some_iff.1 hstep
      exact (Beside.endStream t q).apart port
    | sys p | pwr p | time p =>
      cases hstep
      exact apart_writeRecord port t _ o
  | served room noise =>
    have hnext : ∀ {served : TaskSdWrite} (q : Fin 2), Apart port t served → Apart port t { served with nextPort := q } :=
      fun _ h => ⟨h.listing, h.files, h.posted⟩
    unfold TaskSdWrite.servesListing
    obtain ⟨hnone, rfl⟩ | ⟨q, served, hport, -, rfl, ⟨hactive, hserved⟩ | ⟨hinactive, -, rfl⟩⟩ := serve_cases hstep
    · exact Or.inl ⟨by simp [hnone], rfl, rfl, [], (List.append_nil _).symm, rfl⟩
    · by_cases hq : port = q
      · subst hq
        exact Or.inr ⟨by simp [hport, hactive], hactive, served, hserved, rfl, rfl, rfl⟩
      · exact Or.inl ⟨by simp [hport, Ne.symm hq], hnext _ (apart_serviceListing hq hserved)⟩
    · refine Or.inl ⟨?_, hnext _ ((Beside.serviceStream t q noise).apart port)⟩
      by_cases hq : q = port
      · subst hq
        simp [hinactive]
      · simp [hport, hq]

/-! ## The runs of a listing -/

section

variable {port : Fin 2} {request : SdLogRequestPayload}

/-- A listing under way to this request. -/
structure Underway (port : Fin 2) (request : SdLogRequestPayload) (files : Nat) (t : TaskSdWrite) : Prop where
  files : t.fileCount = files
  start : (t.listings port).start = request.start
  end_eq : (t.listings port).end = request.end

theorem Underway.apart {files : Nat} {t t' : TaskSdWrite} (h : Underway port request files t) (hapart : Apart port t t') :
    Underway port request files t' :=
  ⟨hapart.files.trans h.files, by rw [hapart.listing, h.start], by rw [hapart.listing, h.end_eq]⟩

theorem listingCalls_cons {t s : TaskSdWrite} {e : TaskEv} (hs : t.step e = some s) (es : List TaskEv) :
    t.listingCalls port (e :: es) = (if t.servesListing port e then [t] else []) ++ s.listingCalls port es := by
  rw [TaskSdWrite.listingCalls, hs]

/-- A listing that has ended is not served. -/
theorem listing_ended : ∀ {es : List TaskEv} {t t' : TaskSdWrite}, (∀ e ∈ es, KeepsListing port e) →
    run TaskSdWrite.step t es = some t' → (t.listings port).active = false →
      t.listingCalls port es = [] ∧ (t'.listings port).active = false ∧
        ∃ xs, t'.posted = t.posted ++ xs ∧ entriesTo port xs = []
  | [], t, _, _, hrun, hended => by
    cases hrun
    exact ⟨rfl, hended, [], (List.append_nil _).symm, rfl⟩
  | e :: es, t, t', hkeeps, hrun, hended => by
    obtain ⟨s, hs, hrun⟩ := Option.bind_eq_some_iff.1 hrun
    rcases listing_step (hkeeps e List.mem_cons_self) hs with ⟨hnot, hapart⟩ | ⟨-, hactive, -⟩
    · obtain ⟨hcalls, hended', ys, hys, hnone'⟩ := listing_ended (fun e' he' => hkeeps e' (List.mem_cons_of_mem e he')) hrun
        (by rw [hapart.listing, hended])
      obtain ⟨xs, hxs, hnone⟩ := hapart.posted
      refine ⟨?_, hended', xs ++ ys, by rw [hys, hxs, List.append_assoc], ?_⟩
      · rw [listingCalls_cons hs, hnot, hcalls]
        rfl
      · rw [entriesTo_append, hnone, hnone', List.append_nil]
    · rw [hended] at hactive
      cases hactive

/-- A call that reports a slot leaves the cursor behind it. -/
theorem Underway.reported {files slot : Nat} {s : TaskSdWrite} (h : Underway port request files t) (hslot : slot < 255)
    (hcount : s.fileCount = t.fileCount) (hlisting : s.listings port = { t.listings port with nextSlot := UInt8.ofNat (slot + 1) }) :
    Underway port request files s ∧ (s.listings port).nextSlot.toNat = slot + 1 := by
  constructor
  · exact ⟨hcount.trans h.files, by rw [hlisting, ← h.start], by rw [hlisting, ← h.end_eq]⟩
  · rw [hlisting]
    show (UInt8.ofNat (slot + 1)).toNat = slot + 1
    rw [UInt8.toNat_ofNat']
    omega

/-- The entries are the places the cursor visits, each as its call finds the card, and the call that finds none is
the last. -/
theorem listing_run {files : Nat} (hfiles : files ≤ 255) : ∀ {es : List TaskEv} {t t' : TaskSdWrite},
    (∀ e ∈ es, KeepsListing port e) → run TaskSdWrite.step t es = some t' → Underway port request files t →
      (t.listings port).active = true →
      let calls := t.listingCalls port es
      let visits := Cursor.visits (TaskSdWrite.lists request) files calls (t.listings port).nextSlot.toNat
      calls.length = visits.length + (if (t'.listings port).active then 0 else 1) ∧
        ∃ xs, t'.posted = t.posted ++ xs ∧ entriesTo port xs = visits.map fun x => x.1.entryOf x.2
  | [], t, _, _, hrun, _, hactive => by
    cases hrun
    exact ⟨by rw [if_pos hactive]; rfl, [], (List.append_nil _).symm, rfl⟩
  | e :: es, t, t', hkeeps, hrun, hunder, hactive => by
    obtain ⟨s, hs, hrun⟩ := Option.bind_eq_some_iff.1 hrun
    have hrest : ∀ e' ∈ es, KeepsListing port e' := fun e' he' => hkeeps e' (List.mem_cons_of_mem e he')
    dsimp only
    rw [listingCalls_cons hs]
    rcases listing_step (hkeeps e List.mem_cons_self) hs with ⟨hnot, hapart⟩ |
      ⟨hserves, -, served, hserved, hlistings, hposted, hcount⟩
    · have ih := listing_run hfiles hrest hrun (hunder.apart hapart) (by rw [hapart.listing, hactive])
      obtain ⟨hends, ys, hys, hentries⟩ := ih
      obtain ⟨xs, hxs, hnone⟩ := hapart.posted
      rw [hapart.listing] at hends hentries
      rw [hnot]
      refine ⟨hends, xs ++ ys, by rw [hys, hxs, List.append_assoc], ?_⟩
      rw [entriesTo_append, hnone, hentries]
      rfl
    rw [if_pos hserves, List.singleton_append]
    have hnext := serviceListing_next (hunder.files ▸ hfiles) hunder.start hunder.end_eq hserved
    rw [hunder.files] at hnext
    rcases hnext with ⟨slot, hslot, rfl⟩ | ⟨hnone, listing, rfl⟩
    · -- the slot is reported, and the cursor is behind it
      have hlisting : s.listings port = { t.listings port with nextSlot := UInt8.ofNat (slot + 1) } :=
        (congrFun hlistings port).trans (t.listings_setListing port _)
      obtain ⟨-, hlt, -⟩ := Cursor.next_eq_some.1 hslot
      obtain ⟨hunder', hcursor⟩ := hunder.reported (by omega) hcount hlisting
      obtain ⟨hends, ys, hys, hentries⟩ := listing_run hfiles hrest hrun hunder' (by rw [hlisting, ← hactive])
      rw [hcursor] at hends hentries
      rw [Cursor.visits_of_some hslot, List.length_cons, List.length_cons, Nat.succ_add, Nat.succ_inj]
      refine ⟨hends, _ :: ys, by rw [hys, hposted, List.append_cons]; rfl, ?_⟩
      rw [← List.singleton_append, entriesTo_append, hentries]
      simp [entriesTo, Post.entry]
    · -- there is none, and the listing ends
      have hended : (s.listings port).active = false := by
        rw [hlistings, TaskSdWrite.listings_setListing]
      obtain ⟨hcalls, hended', ys, hys, hnothing⟩ := listing_ended hrest hrun hended
      rw [hcalls, Cursor.visits_of_none hnone, hended']
      exact ⟨rfl, ys, by rw [hys, hposted]; rfl, hnothing⟩

theorem underway_startListing (t : TaskSdWrite) (port : Fin 2) (request : SdLogRequestPayload) :
    Underway port request t.fileCount (t.startListing port request) ∧
      (t.startListing port request).listings port = { active := true, start := request.start, «end» := request.end } := by
  have hlisting : (t.startListing port request).listings port = { active := true, start := request.start, «end» := request.end } :=
    TaskSdWrite.listings_setListing ..
  exact ⟨⟨rfl, by rw [hlisting], by rw [hlisting]⟩, hlisting⟩

/-- What every step keeps and relates holds of the calls, in their order. -/
theorem listingCalls_pairwise {P : TaskSdWrite → Prop} {R : TaskSdWrite → TaskSdWrite → Prop} (hrefl : ∀ s, R s s)
    (htrans : ∀ s s' s'', R s s' → R s' s'' → R s s'') (hstep : ∀ s e s', P s → s.step e = some s' → P s' ∧ R s s') :
    ∀ {es : List TaskEv} {t : TaskSdWrite}, P t →
      (∀ s ∈ t.listingCalls port es, P s ∧ R t s) ∧ (t.listingCalls port es).Pairwise R
  | [], _, _ => ⟨by simp [TaskSdWrite.listingCalls], List.Pairwise.nil⟩
  | e :: es, t, ht => by
    rcases hs : t.step e with _ | s
    · have hcalls : t.listingCalls port (e :: es) = if t.servesListing port e then [t] else [] := by
        rw [TaskSdWrite.listingCalls, hs, List.append_nil]
      rw [hcalls]
      split
      · exact ⟨fun s hs => by rw [List.mem_singleton.1 hs]; exact ⟨ht, hrefl t⟩, List.pairwise_singleton _ _⟩
      · exact ⟨by simp, List.Pairwise.nil⟩
    obtain ⟨hP, hR⟩ := hstep t e s ht hs
    obtain ⟨hall, hpairs⟩ := @listingCalls_pairwise P R hrefl htrans hstep es s hP
    have hlater : ∀ s' ∈ s.listingCalls port es, P s' ∧ R t s' := fun s' hs' =>
      ⟨(hall s' hs').1, htrans t s s' hR (hall s' hs').2⟩
    rw [listingCalls_cons hs]
    split
    · refine ⟨fun s' hs' => ?_, List.pairwise_cons.2 ⟨fun s' hs' => (hlater s' hs').2, hpairs⟩⟩
      rcases List.mem_cons.1 hs' with rfl | hs'
      · exact ⟨ht, hrefl s'⟩
      · exact hlater s' hs'
    · exact ⟨hlater, hpairs⟩

end

/-- The entry is of a slot of the ring in the range, whose file had those bytes then. -/
def Reports (request : SdLogRequestPayload) (files : Nat) (t : TaskSdWrite) (m : LogEntry) : Prop :=
  ∃ slot < files, m.id.toNat = slot + 1 ∧ request.start ≤ m.id ∧ m.id ≤ request.end ∧ m.size ≠ 0 ∧ m.size = slotSize t.card slot

/-- What a port is sent behind its request is what the cursor visits, from the first slot on. -/
theorem listing_sent {t t' : TaskSdWrite} (hfiles : t.fileCount ≤ 255) {port : Fin 2} {request : SdLogRequestPayload}
    {es : List TaskEv} (hkeeps : ∀ e ∈ es, KeepsListing port e)
    (hrun : run TaskSdWrite.step (t.startListing port request) es = some t') :
    let calls := (t.startListing port request).listingCalls port es
    let visits := Cursor.visits (TaskSdWrite.lists request) t.fileCount calls 0
    entriesTo port (t'.posted.drop t.posted.length) = visits.map (fun x => x.1.entryOf x.2) ∧
      calls.length = visits.length + (if (t'.listings port).active then 0 else 1) := by
  obtain ⟨hunder, hlisting⟩ := underway_startListing t port request
  obtain ⟨hends, xs, hxs, hentries⟩ := listing_run hfiles hkeeps hrun hunder (by rw [hlisting])
  have hcursor : ((t.startListing port request).listings port).nextSlot.toNat = 0 := by
    rw [hlisting]
    rfl
  rw [hcursor] at hends hentries
  refine ⟨?_, hends⟩
  rw [hxs, ← hentries]
  exact congrArg _ (@List.drop_left _ t.posted xs)

section

variable {request : SdLogRequestPayload} {files : Nat} {calls : List TaskSdWrite} {x : TaskSdWrite × Nat}

/-- The entry of a visit is of its slot, as its call finds the card. -/
theorem visit_reports (hfiles : files ≤ 255) (hx : x ∈ Cursor.visits (TaskSdWrite.lists request) files calls 0) :
    (x.1.entryOf x.2).id.toNat = x.2 + 1 ∧ Reports request files x.1 (x.1.entryOf x.2) := by
  obtain ⟨-, hlt, hlists⟩ := Cursor.visits_spec hx
  obtain ⟨hfrom, hto, hbytes⟩ := lists_iff.1 hlists
  have hid : (UInt16.ofNat (x.2 + 1)).toNat = x.2 + 1 := by
    rw [UInt16.toNat_ofNat']
    omega
  exact ⟨hid, x.2, hlt, hid, hfrom, hto, hbytes, rfl⟩

/-- Each call that visits reports what it visits. -/
theorem visits_report (hfiles : files ≤ 255) : List.Forall₂ (Reports request files)
    (calls.take (Cursor.visits (TaskSdWrite.lists request) files calls 0).length)
    ((Cursor.visits (TaskSdWrite.lists request) files calls 0).map fun x => x.1.entryOf x.2) := by
  have hfront : (Cursor.visits (TaskSdWrite.lists request) files calls 0).map Prod.fst <+: calls := Cursor.visits_front calls 0
  have hcalls := List.prefix_iff_eq_take.1 hfront
  rw [List.length_map] at hcalls
  rw [← hcalls, List.forall₂_map_left_iff, List.forall₂_map_right_iff, List.forall₂_same]
  exact fun x hx => (visit_reports hfiles hx).2

/-- Once a call has found nothing, a slot that every call lists has been reported once. -/
theorem visits_count (hfiles : files ≤ 255) {slot : Nat} (hlt : slot < files)
    (hended : (Cursor.visits (TaskSdWrite.lists request) files calls 0).length < calls.length)
    (hlists : ∀ s ∈ calls, s.lists request slot = true) :
    (((Cursor.visits (TaskSdWrite.lists request) files calls 0).map fun x => x.1.entryOf x.2).map
      fun m => m.id.toNat).count (slot + 1) = 1 := by
  have hids : ((Cursor.visits (TaskSdWrite.lists request) files calls 0).map fun x => x.1.entryOf x.2).map
      (fun m => m.id.toNat) = ((Cursor.visits (TaskSdWrite.lists request) files calls 0).map Prod.snd).map (· + 1) := by
    rw [List.map_map, List.map_map]
    exact List.map_congr_left fun x hx => (visit_reports hfiles hx).1
  rw [hids, List.count_map_of_injective _ _ Nat.succ_injective]
  exact List.count_eq_one_of_mem ((Cursor.visits_pairwise calls 0).imp Nat.ne_of_lt)
    (Cursor.mem_visits hended (Nat.zero_le _) hlt hlists)

end

/-- A request handled in any state of the task, on a ring whose slots fit the byte a listing counts them with,
and no other request for a listing on the port behind it. The ids grow, each call reports what it finds, a slot of
the range that every call finds with bytes is reported once by the time the listing has ended, and that takes one
call more than there are slots at most. -/
theorem listing_reports_once (t : TaskSdWrite) (hfiles : t.fileCount ≤ 255) (port : Fin 2) (request : SdLogRequestPayload)
    (es : List TaskEv) (hkeeps : ∀ e ∈ es, KeepsListing port e) (t' : TaskSdWrite)
    (hrun : run TaskSdWrite.step (t.startListing port request) es = some t') :
    let calls := (t.startListing port request).listingCalls port es
    let sent := entriesTo port (t'.posted.drop t.posted.length)
    (sent.map LogEntry.id).Pairwise (· < ·) ∧
      List.Forall₂ (Reports request t.fileCount) (calls.take sent.length) sent ∧
      ((t'.listings port).active = false → ∀ slot < t.fileCount, request.start.toNat ≤ slot + 1 →
        slot + 1 ≤ request.end.toNat → (∀ s ∈ calls, slotSize s.card slot ≠ 0) →
          (sent.map fun m => m.id.toNat).count (slot + 1) = 1) ∧
      calls.length ≤ t.fileCount + 1 ∧ (calls.length = t.fileCount + 1 → (t'.listings port).active = false) := by
  obtain ⟨hsent, hends⟩ := listing_sent hfiles hkeeps hrun
  dsimp only at hends ⊢
  rw [hsent, List.length_map]
  generalize (t.startListing port request).listingCalls port es = calls at hends ⊢
  have hmost : (Cursor.visits (TaskSdWrite.lists request) t.fileCount calls 0).length ≤ t.fileCount - 0 :=
    Cursor.length_visits_le calls 0
  refine ⟨?_, visits_report hfiles, fun hended slot hlt hfrom hto hbytes => ?_, ?_, fun hcount => ?_⟩
  · rw [List.map_map, List.pairwise_map]
    refine (List.pairwise_map.1 (Cursor.visits_pairwise calls 0)).imp_of_mem fun hx hy hlt => ?_
    show LogEntry.id _ < LogEntry.id _
    rw [UInt16.lt_iff_toNat_lt, (visit_reports hfiles hx).1, (visit_reports hfiles hy).1]
    omega
  · rw [hended] at hends
    have hid : (UInt16.ofNat (slot + 1)).toNat = slot + 1 := by
      rw [UInt16.toNat_ofNat']
      omega
    refine visits_count hfiles hlt (hends ▸ Nat.lt_succ_self _) fun s hs => lists_iff.2 ⟨?_, ?_, hbytes s hs⟩
    · rwa [UInt16.le_iff_toNat_le, hid]
    · rwa [UInt16.le_iff_toNat_le, hid]
  · split at hends <;> omega
  · by_contra hactive
    rw [Bool.not_eq_false] at hactive
    rw [if_pos hactive] at hends
    omega

/-- All of the ring, and a record that rotates into slot 1 behind the first entry. -/
def listAll : SdLogRequestPayload := { ofs := 0, count := 0, start := 0, «end» := 0xFFFF, port := 0 }

def listedTask : TaskSdWrite := .boot 4 373 (comeRound 4) opening

def serveAll : TaskEv := .served (fun _ => true) []

def rotatedListing : List TaskEv :=
  [serveAll, .received (.pwr { timeUs := 5000, millivolts := 3700, remaining := 80 }) opening, serveAll, serveAll, serveAll, serveAll]

theorem keepsListing_rotated : ∀ e ∈ rotatedListing, KeepsListing 0 e := by
  intro e he request o heq
  subst heq
  simp [rotatedListing, serveAll] at he

theorem listing_reports_once_rotated : ∃ t', run TaskSdWrite.step (listedTask.startListing 0 listAll) rotatedListing = some t' ∧
    ∀ slot < 4, ((entriesTo 0 (t'.posted.drop listedTask.posted.length)).map fun m => m.id.toNat).count (slot + 1) = 1 := by
  have hended : (run TaskSdWrite.step (listedTask.startListing 0 listAll) rotatedListing).map
      (fun t => (t.listings 0).active) = some false := by decide +kernel
  obtain ⟨t', hrun, hended⟩ := Option.map_eq_some_iff.1 hended
  have hbytes : ∀ s ∈ (listedTask.startListing 0 listAll).listingCalls 0 rotatedListing, ∀ slot : Nat, slot < 4 →
      slotSize s.card slot ≠ 0 := by decide +kernel
  refine ⟨t', hrun, fun slot hlt => ?_⟩
  have hfiles : listedTask.fileCount = 4 := by decide +kernel
  exact (listing_reports_once listedTask (by rw [hfiles]; decide) 0 listAll rotatedListing keepsListing_rotated t' hrun).2.2.1 hended slot
    (hfiles ▸ hlt) (Nat.zero_le _) (by show slot + 1 ≤ 65535; omega) fun s hs => hbytes s hs slot hlt

end BoredomOS.Log
