/-
The totals of a listing. Every call counts the files there are, and what the listing has posted at its end are the
files it found with bytes, one a call. The two agree as long as no file appears while the listing posts: on the
first lap a record that rotates gives the ring one more file, and the entries before and behind it differ.
-/
import BoredomOS.Log.Listing

namespace BoredomOS.Log

open Runs

/-! ## What is counted -/

/-- All entries of a listing give the same totals: how many there are, and the highest id among them. -/
def OneStory (sent : List LogEntry) : Prop :=
  ∀ m ∈ sent, m.numLogs.toNat = sent.length ∧ (∃ m' ∈ sent, m'.id = m.lastLogNum) ∧ ∀ m' ∈ sent, m'.id ≤ m.lastLogNum

instance (sent : List LogEntry) : Decidable (OneStory sent) :=
  inferInstanceAs (Decidable (∀ m ∈ sent, m.numLogs.toNat = sent.length ∧ (∃ m' ∈ sent, m'.id = m.lastLogNum) ∧
    ∀ m' ∈ sent, m'.id ≤ m.lastLogNum))

/-- The slots of the ring that hold a file. -/
def TaskSdWrite.held (t : TaskSdWrite) : List Nat :=
  (List.range t.fileCount).filter fun slot => (t.card.slots slot).isSome

section

variable {t : TaskSdWrite}

theorem held_pairwise (t : TaskSdWrite) : t.held.Pairwise (· < ·) := List.pairwise_lt_range.filter _

theorem mem_held {slot : Nat} : slot ∈ t.held ↔ slot < t.fileCount ∧ (t.card.slots slot).isSome = true := by
  rw [TaskSdWrite.held, List.mem_filter, List.mem_range]

theorem length_held_le (t : TaskSdWrite) : t.held.length ≤ t.fileCount :=
  (List.length_filter_le _ _).trans (List.length_range).le

theorem numLogs_eq (hfiles : t.fileCount ≤ 255) : t.numLogs.toNat = t.held.length := by
  have hle := length_held_le t
  unfold TaskSdWrite.numLogs
  rw [List.countP_eq_length_filter, UInt16.toNat_ofNat']
  exact Nat.mod_eq_of_lt (by show t.held.length < _; omega)

/-- The highest id is that of the last of them. -/
theorem lastLogNum_eq {slots : List Nat} {last : Nat} (h : t.held = slots ++ [last]) :
    t.lastLogNum = UInt16.ofNat (last + 1) := by
  have hlast : ((List.range t.fileCount).filter fun slot => (t.card.slots slot).isSome).getLast? = some last := by
    show t.held.getLast? = some last
    rw [h, List.getLast?_concat]
  unfold TaskSdWrite.lastLogNum
  rw [hlast]

/-- A slot with bytes holds a file. -/
theorem isSome_of_slotSize {slot : Nat} (h : slotSize t.card slot ≠ 0) : (t.card.slots slot).isSome = true := by
  unfold slotSize at h
  split at h
  · exact absurd rfl h
  · rename_i f hf
    unfold fileAt at hf
    split at hf
    · cases hf
    · rw [Int.toNat_natCast] at hf
      rw [hf]
      rfl

end

/-! ## No slot loses its file -/

/-- The ring has as many slots, and each that held a file holds one. -/
structure Kept (t t' : TaskSdWrite) : Prop where
  files : t'.fileCount = t.fileCount
  held : ∀ slot, (t.card.slots slot).isSome = true → (t'.card.slots slot).isSome = true

theorem Kept.refl (t : TaskSdWrite) : Kept t t := ⟨rfl, fun _ h => h⟩

theorem Kept.trans {t t' t'' : TaskSdWrite} (h₁ : Kept t t') (h₂ : Kept t' t'') : Kept t t'' :=
  ⟨h₂.files.trans h₁.files, fun slot h => h₂.held slot (h₁.held slot h)⟩

/-- If no slot loses its file and none gains one, they are the same. -/
theorem Kept.held_eq {t t' : TaskSdWrite} (h : Kept t t') (hlength : t.held.length = t'.held.length) : t.held = t'.held := by
  unfold TaskSdWrite.held at hlength ⊢
  rw [h.files] at hlength ⊢
  exact (List.monotone_filter_right _ fun slot hslot => h.held slot hslot).eq_of_length hlength

/-- Only a record moves the card, and a write of it is all that happens to it. -/
theorem sdData_step {t t' : TaskSdWrite} {e : TaskEv} (hstep : t.step e = some t') :
    t'.sdData = t.sdData ∨ ∃ data onOpen, t'.sdData = ((Storage.write data onOpen).run t.sdData).2 := by
  cases e with
  | received incoming o =>
    cases incoming with
    | logList request =>
      obtain ⟨q, -, rfl⟩ := Option.map_eq_some_iff.1 hstep
      exact Or.inl rfl
    | logRead request =>
      obtain ⟨q, -, rfl⟩ := Option.map_eq_some_iff.1 hstep
      exact Or.inl (Beside.startStream t q request).sdData
    | logEnd request =>
      obtain ⟨q, -, rfl⟩ := Option.map_eq_some_iff.1 hstep
      exact Or.inl (Beside.endStream t q).sdData
    | sys p | pwr p | time p =>
      cases hstep
      exact Or.inr ⟨_, _, (Beside.writeRecord t _ o).sdData⟩
  | served room noise =>
    obtain ⟨-, rfl⟩ | ⟨q, served, -, -, rfl, ⟨-, hserved⟩ | ⟨-, -, rfl⟩⟩ := serve_cases hstep
    · exact Or.inl rfl
    · obtain ⟨⟨listing, found⟩, -, rfl⟩ := Option.map_eq_some_iff.1 hserved
      cases found <;> exact Or.inl rfl
    · exact Or.inl (Beside.serviceStream t q noise).sdData

theorem kept_step {t t' : TaskSdWrite} {e : TaskEv} (h : t.sdData.OpensWritable) (hstep : t.step e = some t') :
    t'.sdData.OpensWritable ∧ Kept t t' := by
  rcases sdData_step hstep with hsame | ⟨data, onOpen, hwritten⟩
  · exact ⟨hsame ▸ h, congrArg (·.data.files) hsame, fun slot hslot => by
      rwa [TaskSdWrite.card, hsame]⟩
  · refine ⟨hwritten ▸ Storage.opensWritable_write data onOpen h, ?_, fun slot hslot => ?_⟩
    · rw [TaskSdWrite.fileCount, hwritten]
      exact files_write data onOpen t.sdData
    · rw [TaskSdWrite.card, hwritten]
      exact Storage.held_write data onOpen h hslot

/-! ## When the totals agree -/

/-- The first call finds no slot with bytes. -/
def NothingListed (calls : List TaskSdWrite) : Prop :=
  ∀ first ∈ calls.head?, ∀ slot : Nat, slot < first.fileCount → slotSize first.card slot = 0

/-- The calls before the last one find files in the same slots, and each call finds bytes in the file that is its
turn. -/
structure Steady (calls : List TaskSdWrite) : Prop where
  same : ∀ s ∈ calls.dropLast, ∀ s' ∈ calls.dropLast, s.held = s'.held
  bytes : ∀ first ∈ calls.head?, ∀ (i slot : Nat) (s : TaskSdWrite), first.held[i]? = some slot → calls[i]? = some s →
    slotSize s.card slot ≠ 0

/-- Entries of all the files there are, each of a call that finds these files. -/
theorem one_story_of_held {visits : List (TaskSdWrite × Nat)} {held : List Nat} (hfiles : ∀ x ∈ visits, x.1.fileCount ≤ 255)
    (hheld : ∀ x ∈ visits, x.1.held = held) (hslots : visits.map Prod.snd = held) :
    OneStory (visits.map fun x => x.1.entryOf x.2) := by
  intro m hm
  obtain ⟨x, hx, rfl⟩ := List.mem_map.1 hm
  have hlength : held.length = visits.length := by rw [← hslots, List.length_map]
  have hsome : x.2 ∈ held := hslots ▸ List.mem_map_of_mem hx
  obtain ⟨slots, last, hlast⟩ := (List.eq_nil_or_concat' held).resolve_left (List.ne_nil_of_mem hsome)
  have hlastLogNum : x.1.lastLogNum = UInt16.ofNat (last + 1) := lastLogNum_eq ((hheld x hx).trans hlast)
  refine ⟨?_, ?_, ?_⟩
  · rw [List.length_map]
    show x.1.numLogs.toNat = visits.length
    rw [numLogs_eq (hfiles x hx), hheld x hx, hlength]
  · have hmem : last ∈ visits.map Prod.snd := by
      rw [hslots, hlast]
      exact List.mem_append_right _ (List.mem_singleton_self _)
    obtain ⟨y, hy, rfl⟩ := List.mem_map.1 hmem
    exact ⟨_, List.mem_map_of_mem hy, hlastLogNum.symm⟩
  · intro m' hm'
    obtain ⟨y, hy, rfl⟩ := List.mem_map.1 hm'
    have hle : y.2 ≤ last := by
      have hmem : y.2 ∈ slots ++ [last] := hlast ▸ hslots ▸ List.mem_map_of_mem hy
      have hsorted : (slots ++ [last]).Pairwise (· < ·) := hlast ▸ hheld x hx ▸ held_pairwise x.1
      rcases List.mem_append.1 hmem with hmem | hmem
      · exact Nat.le_of_lt ((List.pairwise_append.1 hsorted).2.2 _ hmem _ (List.mem_singleton_self _))
      · exact (List.mem_singleton.1 hmem).le
    have hlt : last < x.1.fileCount := by
      have hmem : last ∈ x.1.held := by
        rw [hheld x hx, hlast]
        exact List.mem_append_right _ (List.mem_singleton_self _)
      exact (mem_held.1 hmem).1
    have hmost := hfiles x hx
    show UInt16.ofNat (y.2 + 1) ≤ x.1.lastLogNum
    rw [hlastLogNum, UInt16.le_iff_toNat_le, UInt16.toNat_ofNat', UInt16.toNat_ofNat']
    omega

/-- Entries that give the same totals are of all the files there are. -/
theorem held_of_one_story {visits : List (TaskSdWrite × Nat)} (hfiles : ∀ x ∈ visits, x.1.fileCount ≤ 255)
    (hslots : ∀ x ∈ visits, x.2 ∈ x.1.held) (hpairs : (visits.map Prod.snd).Pairwise (· < ·)) {first : TaskSdWrite}
    (hkept : ∀ x ∈ visits, Kept first x.1) (hfirst : first ∈ visits.map Prod.fst)
    (hstory : OneStory (visits.map fun x => x.1.entryOf x.2)) :
    (∀ x ∈ visits, x.1.held = first.held) ∧ visits.map Prod.snd = first.held := by
  have hlength : ∀ x ∈ visits, x.1.held.length = visits.length := by
    intro x hx
    have hnum := (hstory _ (List.mem_map_of_mem hx)).1
    rw [List.length_map] at hnum
    rw [← hnum]
    exact (numLogs_eq (hfiles x hx)).symm
  obtain ⟨x₁, hx₁, rfl⟩ := List.mem_map.1 hfirst
  have hsame : ∀ x ∈ visits, x.1.held = x₁.1.held := fun x hx =>
    ((hkept x hx).held_eq ((hlength x₁ hx₁).trans (hlength x hx).symm)).symm
  refine ⟨hsame, ?_⟩
  have hsub : visits.map Prod.snd ⊆ x₁.1.held := by
    intro slot hslot
    obtain ⟨x, hx, rfl⟩ := List.mem_map.1 hslot
    exact hsame x hx ▸ hslots x hx
  have hperm := (List.subperm_of_subset (hpairs.imp Nat.ne_of_lt) hsub).perm_of_length_le
    (by rw [List.length_map, hlength x₁ hx₁])
  exact List.Perm.eq_of_pairwise (fun _ _ _ _ h h' => absurd h (Nat.lt_asymm h')) hpairs (held_pairwise _) hperm

section

variable {request : SdLogRequestPayload} {files : Nat} {calls : List TaskSdWrite}

/-- In a listing of everything a slot is listed by its bytes alone. -/
theorem lists_everything (hstart : request.start = 0) (hend : request.end = 0xFFFF) (s : TaskSdWrite) (slot : Nat) :
    s.lists request slot = true ↔ slotSize s.card slot ≠ 0 := by
  have hfrom : (0 : UInt16) ≤ UInt16.ofNat (slot + 1) := UInt16.le_iff_toNat_le.2 (Nat.zero_le _)
  have hto : UInt16.ofNat (slot + 1) ≤ 0xFFFF := UInt16.le_iff_toNat_le.2 (Nat.le_of_lt_succ (UInt16.toNat_lt _))
  rw [lists_iff, hstart, hend]
  exact ⟨fun h => h.2.2, fun h => ⟨hfrom, hto, h⟩⟩

theorem nothingListed_cons (hstart : request.start = 0) (hend : request.end = 0xFFFF) {first : TaskSdWrite} {rest : List TaskSdWrite}
    (hcount : first.fileCount = files) :
    NothingListed (first :: rest) ↔ Cursor.next (TaskSdWrite.lists request) files first 0 = none := by
  have hlists := lists_everything hstart hend first
  rw [Cursor.next_eq_none]
  constructor
  · intro hnothing slot _ hlt
    rw [← Bool.not_eq_true, hlists, not_not]
    exact hnothing first rfl slot (hcount ▸ hlt)
  · rintro hnone s ⟨⟩ slot hlt
    by_contra hbytes
    have hnot := hnone slot (Nat.zero_le _) (hcount ▸ hlt)
    rw [(hlists slot).2 hbytes] at hnot
    cases hnot

/-- The calls that post are those before the last one, each of a file it holds. -/
theorem visit_held (hcount : ∀ s ∈ calls, s.fileCount = files)
    (hended : calls.length = (Cursor.visits (TaskSdWrite.lists request) files calls 0).length + 1) :
    ∀ x ∈ Cursor.visits (TaskSdWrite.lists request) files calls 0, x.1 ∈ calls.dropLast ∧ x.2 ∈ x.1.held ∧ x.1.fileCount = files := by
  intro x hx
  have hcall : x.1 ∈ calls.dropLast := Cursor.visits_dropLast hended ▸ List.mem_map_of_mem hx
  have hfiles := hcount _ (List.mem_of_mem_dropLast hcall)
  obtain ⟨-, hlt, hlists⟩ := Cursor.visits_spec hx
  exact ⟨hcall, mem_held.2 ⟨hfiles.symm ▸ hlt, isSome_of_slotSize (lists_iff.1 hlists).2.2⟩, hfiles⟩

/-- The entries of a listing of everything, in terms of its calls. -/
theorem one_story_calls (hfiles : files ≤ 255) (hstart : request.start = 0) (hend : request.end = 0xFFFF)
    (hcount : ∀ s ∈ calls, s.fileCount = files) (hkept : calls.Pairwise Kept)
    (hended : calls.length = (Cursor.visits (TaskSdWrite.lists request) files calls 0).length + 1) :
    OneStory ((Cursor.visits (TaskSdWrite.lists request) files calls 0).map fun x => x.1.entryOf x.2) ↔
      NothingListed calls ∨ Steady calls := by
  have hlists := lists_everything hstart hend
  rcases calls with _ | ⟨first, rest⟩
  · cases hended
  have hnothing := @nothingListed_cons request files hstart hend first rest (hcount first List.mem_cons_self)
  rcases hnext : Cursor.next (TaskSdWrite.lists request) files first 0 with _ | found
  · -- nothing is posted
    rw [Cursor.visits_of_none hnext]
    exact ⟨fun _ => Or.inl (hnothing.2 hnext), fun _ m hm => by cases hm⟩
  have hvisit := visit_held hcount hended
  have hring : ∀ x ∈ Cursor.visits (TaskSdWrite.lists request) files (first :: rest) 0, x.1.fileCount ≤ 255 :=
    fun x hx => (hvisit x hx).2.2.trans_le hfiles
  have hfront := Cursor.visits_dropLast hended
  have hfirst : first ∈ (first :: rest).dropLast := by
    rw [← hfront, Cursor.visits_of_some hnext]
    exact List.mem_cons_self
  constructor
  · intro hstory
    have hlater : ∀ s ∈ first :: rest, Kept first s := by
      intro s hs
      rcases List.mem_cons.1 hs with rfl | hs
      · exact Kept.refl s
      · exact (List.pairwise_cons.1 hkept).1 s hs
    obtain ⟨hsame, hslots⟩ := held_of_one_story hring (fun x hx => (hvisit x hx).2.1) (Cursor.visits_pairwise _ _)
      (fun x hx => hlater _ (List.mem_of_mem_dropLast (hvisit x hx).1)) (hfront ▸ hfirst) hstory
    have hheld : ∀ s ∈ (first :: rest).dropLast, s.held = first.held := by
      rw [← hfront]
      rintro s hs
      obtain ⟨x, hx, rfl⟩ := List.mem_map.1 hs
      exact hsame x hx
    refine Or.inr ⟨fun s hs s' hs' => (hheld s hs).trans (hheld s' hs').symm, ?_⟩
    rintro s ⟨⟩ i slot s' hslot hs'
    exact (hlists s' slot).1 (Cursor.wanted_of_getElem (hslots ▸ hslot) hs')
  · rintro (hnone | hsteady)
    · -- but the first call posts
      rw [hnothing.1 hnone] at hnext
      cases hnext
    · have hheld : ∀ x ∈ Cursor.visits (TaskSdWrite.lists request) files (first :: rest) 0, x.1.held = first.held :=
        fun x hx => hsteady.same _ (hvisit x hx).1 _ hfirst
      apply one_story_of_held hring hheld
      apply Cursor.visits_through (held_pairwise first)
      · intro slot hslot
        exact ⟨Nat.zero_le _, hcount first List.mem_cons_self ▸ (mem_held.1 hslot).1⟩
      · exact fun x hx => hheld x hx ▸ (hvisit x hx).2.1
      · exact fun i slot s hslot hs => (hlists s slot).2 (hsteady.bytes first rfl i slot s hslot hs)
      · omega

end

/-- From boot on, whatever is logged and asked for: a listing of everything gives one story if and only if it finds
nothing to post, or no file appears between its first and its last entry and each call finds bytes in the file that
is its turn. -/
theorem one_story_iff (files size : Nat) (c : Storage.Card LogPiece) (o : Opening) (es₀ : List TaskEv) (t : TaskSdWrite)
    (hboot : run TaskSdWrite.step (.boot files size c o) es₀ = some t) (hfiles : t.fileCount ≤ 255) (port : Fin 2)
    (request : SdLogRequestPayload) (hstart : request.start = 0) (hend : request.end = 0xFFFF) (es : List TaskEv)
    (hkeeps : ∀ e ∈ es, KeepsListing port e) (t' : TaskSdWrite)
    (hrun : run TaskSdWrite.step (t.startListing port request) es = some t') (hended : (t'.listings port).active = false) :
    let calls := (t.startListing port request).listingCalls port es
    OneStory (entriesTo port (t'.posted.drop t.posted.length)) ↔ NothingListed calls ∨ Steady calls := by
  obtain ⟨hsent, hends⟩ := listing_sent hfiles hkeeps hrun
  rw [hended] at hends
  have hopens : t.sdData.OpensWritable :=
    inv (P := fun s : TaskSdWrite => s.sdData.OpensWritable) (fun s e s' hs hstep => (kept_step hs hstep).1)
      (Storage.opensWritable_begin _ _) hboot
  obtain ⟨hcalls, hkept⟩ := @listingCalls_pairwise port (fun s => s.sdData.OpensWritable) Kept Kept.refl
    (fun _ _ _ => Kept.trans) (fun s e s' hs hstep => kept_step hs hstep) es (t.startListing port request) hopens
  dsimp only
  rw [hsent]
  exact one_story_calls hfiles hstart hend (fun s hs => (hcalls s hs).2.files) hkept hends

/-- A ring that has come round takes no new slot when a record rotates. -/
theorem one_story_iff_rotated : ∃ t', run TaskSdWrite.step (listedTask.startListing 0 listAll) rotatedListing = some t' ∧
    Steady ((listedTask.startListing 0 listAll).listingCalls 0 rotatedListing) := by
  have hlisted : (run TaskSdWrite.step (listedTask.startListing 0 listAll) rotatedListing).map (fun t =>
      ((t.listings 0).active, decide (OneStory (entriesTo 0 (t.posted.drop listedTask.posted.length))))) = some (false, true) := by
    decide +kernel
  obtain ⟨t', hrun, hlisted⟩ := Option.map_eq_some_iff.1 hlisted
  obtain ⟨hended, hstory⟩ := Prod.mk.inj hlisted
  have hiff := one_story_iff 4 373 (comeRound 4) opening [] listedTask rfl (by decide +kernel) 0 listAll rfl rfl rotatedListing
    keepsListing_rotated t' hrun hended
  refine ⟨t', hrun, (hiff.1 (of_decide_eq_true hstory)).resolve_left fun hnothing => ?_⟩
  have hbytes : ∃ first, ((listedTask.startListing 0 listAll).listingCalls 0 rotatedListing).head? = some first ∧
      0 < first.fileCount ∧ slotSize first.card (0 : Nat) ≠ 0 := ⟨_, rfl, by decide +kernel, by decide +kernel⟩
  obtain ⟨first, hfirst, hfiles, hbytes⟩ := hbytes
  exact hbytes (hnothing first hfirst 0 hfiles)

/-- The first lap: slot 0 holds the ring's one file, and the record behind the first entry rotates into slot 1. -/
def firstLap : TaskSdWrite := .boot 4 373 {} opening

theorem two_stories : ∃ t', run TaskSdWrite.step (firstLap.startListing 0 listAll) rotatedListing = some t' ∧
    (∀ e ∈ rotatedListing, KeepsListing 0 e) ∧ (t'.listings 0).active = false ∧
    (entriesTo 0 (t'.posted.drop firstLap.posted.length)).map (fun m => (m.id, m.numLogs, m.lastLogNum)) =
      [(1, 1, 1), (2, 2, 2)] ∧ ¬ OneStory (entriesTo 0 (t'.posted.drop firstLap.posted.length)) := by
  have hlisted : (run TaskSdWrite.step (firstLap.startListing 0 listAll) rotatedListing).map (fun t =>
      ((t.listings 0).active, (entriesTo 0 (t.posted.drop firstLap.posted.length)).map (fun m => (m.id, m.numLogs, m.lastLogNum)),
        decide (OneStory (entriesTo 0 (t.posted.drop firstLap.posted.length))))) =
      some (false, [(1, 1, 1), (2, 2, 2)], false) := by decide +kernel
  obtain ⟨t', hrun, hlisted⟩ := Option.map_eq_some_iff.1 hlisted
  obtain ⟨hended, hlisted⟩ := Prod.mk.inj hlisted
  obtain ⟨hentries, hstory⟩ := Prod.mk.inj hlisted
  exact ⟨t', hrun, keepsListing_rotated, hended, hentries, of_decide_eq_false hstory⟩

end BoredomOS.Log
