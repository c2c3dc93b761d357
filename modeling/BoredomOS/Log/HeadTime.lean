/-
The time a listing gives a file. Every file is a row of sessions, one for each time it was opened: as much of
that opening's preamble as reached the card, and the records behind it if it is whole. `slotTimeUtc` looks at
one offset, and there stands the TIME of the first opening that left anything, or a FMT of a later one, or
nothing.
-/
import BoredomOS.Log.Decode
import BoredomOS.Log.Download

namespace BoredomOS.Log

open Storage (Payload Rig File Card Discipline)

/-! ## Sessions -/

/-- What one opening left in a file: the first pieces of its preamble, and the records of the time the file
stayed open, which come behind a whole preamble only. -/
structure Session where
  opening : Opening
  kept : Nat
  records : List SdRecord
  whole : records ≠ [] → (writeLogPreamble opening).length ≤ kept

def Session.pieces (s : Session) : List LogPiece :=
  ((writeLogPreamble s.opening).take s.kept ++ s.records.map writeRecord).flatMap Storage.appended

/-- The sessions of a file, each of one of these openings. -/
def Written (openings : List Opening) (pieces : List LogPiece) (sessions : List Session) : Prop :=
  pieces = sessions.flatMap Session.pieces ∧ ∀ s ∈ sessions, s.opening ∈ openings

/-- The session of an opening whose preamble is whole. -/
def Session.opened (o : Opening) : Session where
  opening := o
  kept := (writeLogPreamble o).length
  records := []
  whole h := absurd rfl h

theorem pieces_opened (o : Opening) : (Session.opened o).pieces = (writeLogPreamble o).flatMap Storage.appended := by
  simp [Session.pieces, Session.opened]

/-- One more record. -/
def Session.record (s : Session) (r : SdRecord) (h : (writeLogPreamble s.opening).length ≤ s.kept) : Session where
  opening := s.opening
  kept := s.kept
  records := s.records ++ [r]
  whole _ := h

theorem pieces_record (s : Session) (r : SdRecord) (h : (writeLogPreamble s.opening).length ≤ s.kept) :
    (s.record r h).pieces = s.pieces ++ Storage.appended (writeRecord r) := by
  simp [Session.pieces, Session.record]

/-- Each piece is handed over alone, so what is left of a file is left of what was handed over. -/
theorem take_flatMap_appended (data : List (Option LogPiece)) (n : Nat) :
    ∃ m, (data.flatMap Storage.appended).take n = (data.take m).flatMap Storage.appended := by
  induction data generalizing n with
  | nil => exact ⟨0, by simp⟩
  | cons d data ih =>
    cases n with
    | zero => exact ⟨0, rfl⟩
    | succ n =>
      cases d with
      | none =>
        obtain ⟨m, hm⟩ := ih (n + 1)
        exact ⟨m + 1, hm⟩
      | some p =>
        obtain ⟨m, hm⟩ := ih n
        refine ⟨m + 1, ?_⟩
        rw [List.take_succ_cons, List.flatMap_cons, List.flatMap_cons, appended_piece, ← hm]
        rfl

/-- What is left of a session is one. -/
theorem take_pieces (s : Session) (n : Nat) : ∃ s', Session.pieces s' = s.pieces.take n ∧ s'.opening = s.opening := by
  obtain ⟨m, hm⟩ := take_flatMap_appended ((writeLogPreamble s.opening).take s.kept ++ s.records.map writeRecord) n
  rw [Session.pieces, hm, List.take_append, List.take_take, ← List.map_take, List.length_take]
  by_cases hkept : (writeLogPreamble s.opening).length ≤ min m s.kept
  · refine ⟨⟨s.opening, min m s.kept, s.records.take (m - min s.kept (writeLogPreamble s.opening).length), fun _ => hkept⟩, ?_, rfl⟩
    rfl
  · -- the cut is in the preamble, and no record is left
    refine ⟨⟨s.opening, min m s.kept, [], fun h => absurd rfl h⟩, ?_, rfl⟩
    have hnone : s.records.take (m - min s.kept (writeLogPreamble s.opening).length) = [] := by
      by_cases hrecords : s.records = []
      · rw [hrecords, List.take_nil]
      · have hwhole := s.whole hrecords
        rw [show m - min s.kept (writeLogPreamble s.opening).length = 0 by omega, List.take_zero]
    rw [hnone]
    rfl

theorem written_left {openings : List Opening} {sessions : List Session} : ∀ {pieces more : List LogPiece},
    Written openings (pieces ++ more) sessions → ∃ sessions', Written openings pieces sessions' := by
  induction sessions with
  | nil =>
    intro pieces more h
    obtain ⟨hnil, -⟩ := List.append_eq_nil_iff.1 h.1
    exact ⟨[], hnil, by simp⟩
  | cons s sessions ih =>
    rintro pieces more ⟨hpieces, hopenings⟩
    rw [List.flatMap_cons, List.append_eq_append_iff] at hpieces
    have hopening := hopenings s List.mem_cons_self
    rcases hpieces with ⟨rest, hs, -⟩ | ⟨rest, hpieces, hrest⟩
    · -- the cut is in this session
      obtain ⟨s', hs', hsame⟩ := take_pieces s pieces.length
      refine ⟨[s'], ?_, ?_⟩
      · rw [List.flatMap_cons, List.flatMap_nil, List.append_nil, hs', hs, List.take_left]
      · simpa [hsame] using hopening
    · obtain ⟨sessions', hwritten, hall⟩ := ih ⟨hrest.symm, fun s' hs' => hopenings s' (List.mem_cons_of_mem s hs')⟩
      refine ⟨s :: sessions', ?_, ?_⟩
      · rw [hpieces, hwritten, List.flatMap_cons]
      · rintro s' hs'
        rcases List.mem_cons.1 hs' with rfl | hs'
        · exact hopening
        · exact hall s' hs'

/-! ## Runs -/

/-- The sessions as a discipline: a record goes to the last one, and that one is whole. -/
def sessionFormat (openings : List Opening) : Discipline LogPiece where
  good pieces := ∃ sessions, Written openings pieces sessions
  ready pieces := ∃ sessions s, Written openings pieces (sessions ++ [s]) ∧ (writeLogPreamble s.opening).length ≤ s.kept
  good_nil := ⟨[], rfl, by simp⟩
  good_left := by
    rintro pieces more ⟨sessions, h⟩
    exact written_left h

variable {openings : List Opening}

theorem written_concat {pieces : List LogPiece} {sessions : List Session} {s : Session} :
    Written openings pieces (sessions ++ [s]) ↔
      pieces = sessions.flatMap Session.pieces ++ s.pieces ∧ (∀ s ∈ sessions, s.opening ∈ openings) ∧ s.opening ∈ openings := by
  unfold Written
  simp only [List.flatMap_append, List.flatMap_cons, List.flatMap_nil, List.append_nil, List.forall_mem_append,
    List.forall_mem_singleton]

theorem opens_session {o : Opening} (ho : o ∈ openings) : (sessionFormat openings).Opens (writeLogPreamble o) := by
  rintro pieces ⟨sessions, hpieces, hall⟩
  have hopened : Written openings (pieces ++ (writeLogPreamble o).flatMap Storage.appended)
      (sessions ++ [Session.opened o]) := by
    rw [written_concat, pieces_opened, hpieces]
    exact ⟨rfl, hall, ho⟩
  exact ⟨⟨_, hopened⟩, _, _, hopened, Nat.le_refl _⟩

theorem takes_session (r : SdRecord) : (sessionFormat openings).Takes (writeRecord r) := by
  rintro pieces - ⟨sessions, s, hwritten, hwhole⟩
  obtain ⟨hpieces, hall, ho⟩ := written_concat.1 hwritten
  have hrecorded : Written openings (pieces ++ Storage.appended (writeRecord r)) (sessions ++ [s.record r hwhole]) := by
    rw [written_concat, pieces_record, hpieces, List.append_assoc]
    exact ⟨rfl, hall, ho⟩
  exact ⟨⟨_, hrecorded⟩, _, _, hrecorded, hwhole⟩

/-- What an operation's opening would read. -/
def LogOp.opening : LogOp → Opening
  | .begin o | .record _ o => o

def LogEv.opening : LogEv → Option Opening
  | .op o | .cutIn o _ => some o.opening
  | .cut => none

theorem fits_session {e : LogEv} {ev : Storage.Ev LogPiece} (h : e.toEv = some ev)
    (hopening : ∀ o, e.opening = some o → o ∈ openings) : (sessionFormat openings).EvFits ev := by
  have hop : ∀ {o : LogOp} {op : Storage.Op LogPiece}, o.toOp = some op → o.opening ∈ openings →
      (sessionFormat openings).OpFits op := by
    intro o op h ho
    cases o with
    | begin o =>
      cases h
      exact opens_session ho
    | record r o =>
      obtain ⟨p, hp, rfl⟩ := Option.map_eq_some_iff.1 h
      refine ⟨?_, opens_session ho⟩
      rw [← hp]
      exact takes_session r
  cases e with
  | op o =>
    obtain ⟨op, hto, rfl⟩ := Option.map_eq_some_iff.1 h
    exact hop hto (hopening _ rfl)
  | cutIn o point =>
    obtain ⟨op, hto, rfl⟩ := Option.map_eq_some_iff.1 h
    exact hop hto (hopening _ rfl)
  | cut =>
    cases h
    trivial

/-! ## The record at the fixed offset -/

/-- The time of the first opening that left anything: that of its TIME, if it reached the card and had a source. -/
def headTime : List Session → UInt32
  | [] => 0
  | s :: rest =>
    if s.kept = 0 then headTime rest
    else if 2 ≤ s.kept ∧ s.opening.source ≠ sourceNone then s.opening.unixTime.toUInt32 else 0

/-- What `slotTimeUtc` makes of the bytes of a file. -/
def timeAt (image : List UInt8) : UInt32 :=
  let head := (image.drop kHeadTimeOffset).take sizeofLogTime
  if head.length < sizeofLogTime ∨ head.take 3 ≠ header kMsgTime ∨ head.getD 15 0 = sourceNone then 0
  else UInt32.ofNat (LittleEndian.toNat ((head.drop 11).take 4))

def imageOf (pieces : List LogPiece) : List UInt8 := pieces.flatMap Payload.bytes

def preambleBytes : List UInt8 := kPreamble.flatMap LogFormat.bytes

theorem length_preambleBytes : preambleBytes.length = kHeadTimeOffset := by decide +kernel

/-- The TIME of an opening. -/
def Opening.time (o : Opening) : LogTime := { timeUs := o.timeUs, unixtime := o.unixTime.toUInt32, source := o.source }

theorem records_nil {s : Session} (hkept : s.kept < 4) : s.records = [] := by
  by_contra hrecords
  exact absurd (s.whole hrecords) (Nat.not_le.2 hkept)

theorem pieces_nothing {s : Session} (hkept : s.kept = 0) : s.pieces = [] := by
  simp [Session.pieces, hkept, records_nil (s := s) (by omega)]

theorem image_alone {s : Session} (hkept : s.kept = 1) : imageOf s.pieces = preambleBytes := by
  simp [imageOf, Session.pieces, hkept, records_nil (s := s) (by omega), writeLogPreamble, appended_piece, preambleBytes,
    Payload.bytes]

theorem image_time {s : Session} (hkept : 2 ≤ s.kept) :
    ∃ more, imageOf s.pieces = preambleBytes ++ (s.opening.time.bytes ++ more) := by
  obtain ⟨k, hk⟩ := Nat.exists_eq_add_of_le' hkept
  have hpieces : ∃ more, s.pieces = .preamble :: .time s.opening.time :: more := by
    unfold Session.pieces writeLogPreamble
    rw [hk, List.take_succ_cons, List.take_succ_cons, List.cons_append, List.cons_append, List.flatMap_cons, List.flatMap_cons,
      appended_piece, appended_piece]
    exact ⟨_, rfl⟩
  obtain ⟨more, hmore⟩ := hpieces
  exact ⟨imageOf more, by rw [hmore]; rfl⟩

theorem image_cons (s : Session) (rest : List Session) : imageOf ((s :: rest).flatMap Session.pieces) =
    imageOf s.pieces ++ imageOf (rest.flatMap Session.pieces) := List.flatMap_append

/-- Whatever the sessions left begins with the constant preamble, or it is nothing. -/
theorem image_sessions : ∀ sessions : List Session, imageOf (sessions.flatMap Session.pieces) = [] ∨
    ∃ more, imageOf (sessions.flatMap Session.pieces) = preambleBytes ++ more
  | [] => Or.inl rfl
  | s :: rest => by
    rw [image_cons]
    obtain hkept | hkept | hkept : s.kept = 0 ∨ s.kept = 1 ∨ 2 ≤ s.kept := by omega
    · rw [pieces_nothing hkept]
      exact image_sessions rest
    · rw [image_alone hkept]
      exact Or.inr ⟨_, rfl⟩
    · obtain ⟨more, hmore⟩ := image_time hkept
      rw [hmore, List.append_assoc]
      exact Or.inr ⟨_, rfl⟩

theorem timeAt_short {image : List UInt8} (h : image.length < kHeadTimeOffset + sizeofLogTime) : timeAt image = 0 := by
  unfold timeAt
  have hsome : 0 < sizeofLogTime := by decide
  rw [if_pos (Or.inl _)]
  rw [List.length_take, List.length_drop]
  exact lt_of_le_of_lt (Nat.min_le_right _ _) (by omega)

/-- A FMT stands there: the preamble of another opening. -/
theorem timeAt_preamble (more : List UInt8) : timeAt (preambleBytes ++ (preambleBytes ++ more)) = 0 := by
  unfold timeAt
  rw [if_pos (Or.inr (Or.inl _))]
  rw [← length_preambleBytes, List.drop_left]
  have hhead : ((preambleBytes ++ more).take sizeofLogTime).take 3 = header kMsgFmt := by
    rw [List.take_take, List.take_append_of_le_length (by rw [length_preambleBytes]; decide)]
    decide +kernel
  rw [hhead]
  decide

theorem timeAt_time (r : LogTime) (more : List UInt8) :
    timeAt (preambleBytes ++ (r.bytes ++ more)) = if r.source = sourceNone then 0 else r.unixtime := by
  have hhead : ((preambleBytes ++ (r.bytes ++ more)).drop kHeadTimeOffset).take sizeofLogTime = r.bytes := by
    rw [← length_preambleBytes, List.drop_left, ← r.length_bytes, List.take_left]
  have hsource : r.bytes.getD 15 0 = r.source := by
    simp [LogTime.bytes, header]
  have htime : (r.bytes.drop 11).take 4 = LittleEndian.ofNat 4 r.unixtime.toNat := by
    simp [LogTime.bytes, header]
  have hvalue : UInt32.ofNat (LittleEndian.toNat (LittleEndian.ofNat 4 r.unixtime.toNat)) = r.unixtime := by
    rw [LittleEndian.toNat_ofNat (by have := r.unixtime.toNat_lt; omega), UInt32.ofNat_toNat]
  have hfound : ¬ r.bytes.length < sizeofLogTime ∧ r.bytes.take 3 = header kMsgTime := by
    refine ⟨by rw [r.length_bytes]; exact Nat.lt_irrefl _, ?_⟩
    simp [LogTime.bytes, header]
  unfold timeAt
  rw [hhead]
  simp only [hsource, htime, hvalue, hfound, ne_eq, not_true_eq_false, false_or]

/-- The time of a file is that of its sessions. -/
theorem timeAt_sessions : ∀ sessions : List Session, timeAt (imageOf (sessions.flatMap Session.pieces)) = headTime sessions
  | [] => by decide +kernel
  | s :: rest => by
    rw [image_cons, headTime]
    obtain hkept | hkept | hkept : s.kept = 0 ∨ s.kept = 1 ∨ 2 ≤ s.kept := by omega
    · rw [if_pos hkept, pieces_nothing hkept]
      exact timeAt_sessions rest
    · -- the constant preamble alone, and behind it nothing or the next opening's
      rw [if_neg (by omega), if_neg (by omega), image_alone hkept]
      rcases image_sessions rest with hnil | ⟨more, hmore⟩
      · rw [hnil, List.append_nil]
        apply timeAt_short
        rw [length_preambleBytes]
        decide
      · rw [hmore]
        exact timeAt_preamble more
    · obtain ⟨more, hmore⟩ := image_time hkept
      rw [if_neg (by omega), hmore, List.append_assoc, List.append_assoc, timeAt_time]
      by_cases hnone : s.opening.source = sourceNone <;> simp [Opening.time, hkept, hnone]

theorem slotTimeUtc_eq {c : Card LogPiece} {i : Nat} {f : File LogPiece} (hf : c.slots i = some f) :
    slotTimeUtc c i = timeAt (imageOf f.cut.payloads) := by
  have hat : fileAt c i = some f := by
    rw [fileAt, if_neg (by omega)]
    exact hf
  have himage : f.image = imageOf f.cut.payloads := by
    rw [imageOf, File.payloads, List.flatMap_map]
    rfl
  unfold slotTimeUtc
  rw [hat, ← himage]
  rfl

/-- From an empty card, whatever is logged, wherever the ring rotates and power is lost: what a file holds up to
the last sync are the sessions of openings of the run, and the time of the file is that of the first of them that
left anything, or none. -/
theorem slotTimeUtc_first_opening (files size : Nat) (es : List LogEv) (r : Rig LogPiece)
    (hrun : Runs.run (Rig.step files size) { card := {} } (es.filterMap LogEv.toEv) = some r) (i : Nat) (f : File LogPiece)
    (hf : r.card.slots i = some f) :
    (∃ sessions, Written (es.filterMap LogEv.opening) f.cut.payloads sessions) ∧
      ∀ sessions, Written (es.filterMap LogEv.opening) f.cut.payloads sessions →
        slotTimeUtc r.card i = headTime sessions := by
  have hfit : (sessionFormat (es.filterMap LogEv.opening)).RigFit r := by
    refine Storage.rigFit_run Storage.rigFit_empty (fun ev hev => ?_) hrun
    obtain ⟨e, he, hto⟩ := List.mem_filterMap.1 hev
    exact fits_session hto fun o ho => List.mem_filterMap.2 ⟨e, he, ho⟩
  constructor
  · exact Storage.allGood_cut hfit.all i f.cut (by simp [Card.cut, hf])
  · rintro sessions ⟨hpieces, -⟩
    rw [slotTimeUtc_eq hf, hpieces, timeAt_sessions]

def headOpening : Opening where
  timeUs := 1000
  unixTime := 1700000000
  source := 1
  resetTimeUs := 1200
  boot := {
    previousBootPhase := .schedulerStarted, previousFaultTask := [], previousResetReason := .powerOn
    reducedConfiguration := false, bootConsecutiveCount := 1, bootCumulativeCount := 1 }

/-- Power lost once the constant part of the first preamble is on the card: the file of the next boot holds two
preambles, and at the offset of TIME stands the second one's FMT. -/
def tornHead : List LogEv := [.cutIn (.begin headOpening) 9, .op (.begin headOpening)]

theorem slotTimeUtc_first_opening_tornHead : ∃ r, Runs.run (Rig.step 4 (1024 * 1024)) { card := {} }
    (tornHead.filterMap LogEv.toEv) = some r ∧ slotTimeUtc r.card 0 = 0 := by
  let sessions : List Session := [⟨headOpening, 1, [], fun h => absurd rfl h⟩, .opened headOpening]
  have hpieces : (Runs.run (Rig.step 4 (1024 * 1024)) { card := {} } (tornHead.filterMap LogEv.toEv)).map
      (fun r => (r.card.slots 0).map fun f => f.cut.payloads) = some (some (sessions.flatMap Session.pieces)) := by
    decide +kernel
  obtain ⟨r, hrun, hslot⟩ := Option.map_eq_some_iff.1 hpieces
  obtain ⟨f, hf, hcut⟩ := Option.map_eq_some_iff.1 hslot
  refine ⟨r, hrun, ?_⟩
  exact (slotTimeUtc_first_opening 4 (1024 * 1024) tornHead r hrun 0 f hf).2 sessions ⟨hcut, by simp [sessions, tornHead,
    LogEv.opening, LogOp.opening, Session.opened]⟩

end BoredomOS.Log
