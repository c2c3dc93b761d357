/-
The flight log from the producers to the card. Whatever the tasks do in between, each record `sdWriteQueue` took
is appended to the log once, in the order of the queue, or still waits in it; between them stands the preamble of
each file that was opened, and nothing else. What earlier lives left on the card stays in front of it.
-/
import BoredomOS.Log.Listing
import BoredomOS.Log.Logged
import BoredomOS.Log.Tasks

namespace BoredomOS.Log

open Runs
open Storage (Card Rig Live Writing)

/-! ## What is accepted and what is logged -/

/-- What a use of `sdWriteQueue` adds to it. -/
def Tasks.accepts (s : Tasks) : TasksEv → List SdRecord
  | .use (.forwardLogRequest kind p) => if Fifo.spaces sdWriteQueueDepth s.sdWriteQueue < 2 then [] else [kind.record p]
  | .use u => if s.sdWriteQueue.length < sdWriteQueueDepth then u.record.toList else []
  | _ => []

/-- The records and requests the queue took. -/
def Tasks.accepted (s : Tasks) (es : List TasksEv) : List SdRecord := collect Tasks.step Tasks.accepts s es

/-- The record or request a step of `TaskSdWrite` takes. -/
def Tasks.receives (s : Tasks) : TasksEv → List SdRecord
  | .xQueueReceive _ => (s.sdWriteQueue.head?.map Prod.fst).toList
  | _ => []

/-- Those that were taken. -/
def Tasks.received (s : Tasks) (es : List TasksEv) : List SdRecord := collect Tasks.step Tasks.receives s es

/-- What the step adds to the log: the record it takes and, if that fills its file, the next opening. -/
def Tasks.writes (s : Tasks) (e : TasksEv) : List DataFlash.Record :=
  match e, s.sdWriteQueue with
  | .xQueueReceive o, (incoming, _) :: _ => Log.written s.sdWrite.sdData incoming o
  | _, _ => []

/-- What the steps added. -/
def Tasks.written (s : Tasks) (es : List TasksEv) : List DataFlash.Record := collect Tasks.step Tasks.writes s es

theorem use_accepts {s s' : Tasks} {u : Use} (h : s.use u = some s') :
    s'.sdWriteQueue.map Prod.fst = s.sdWriteQueue.map Prod.fst ++ s.accepts (.use u) ∧ s'.sdWrite = s.sdWrite := by
  have hsend : ∀ x : SdRecord, ((Fifo.send sdWriteQueueDepth s.sdWriteQueue (x, s.offered + 1)).2).map Prod.fst =
      s.sdWriteQueue.map Prod.fst ++ if s.sdWriteQueue.length < sdWriteQueueDepth then [x] else [] := by
    intro x
    by_cases hroom : s.sdWriteQueue.length < sdWriteQueueDepth
    · rw [Fifo.send_room hroom, if_pos hroom, List.map_append]
      rfl
    · rw [Fifo.send_full hroom, if_neg hroom, List.append_nil]
  have hrecord : (u.record.elim (some s) fun r => some { s with
        sdWriteQueue := (Fifo.send sdWriteQueueDepth s.sdWriteQueue (r, s.offered + 1)).2, offered := s.offered + 1 }) = some s' →
      s'.sdWriteQueue.map Prod.fst = s.sdWriteQueue.map Prod.fst ++
        (if s.sdWriteQueue.length < sdWriteQueueDepth then u.record.toList else []) ∧ s'.sdWrite = s.sdWrite := by
    intro h
    cases hr : u.record with
    | none =>
      rw [hr] at h
      cases h
      simp
    | some r =>
      rw [hr] at h
      cases h
      exact ⟨hsend r, rfl⟩
  cases u with
  | xQueueReceive => cases h
  | forwardLogRequest kind p =>
    simp only [Tasks.use] at h
    split at h
    swap
    · cases h
    cases h
    refine ⟨?_, rfl⟩
    dsimp only [Tasks.accepts]
    split
    · rw [List.append_nil]
    · rename_i hspaces
      have hroom : s.sdWriteQueue.length < sdWriteQueueDepth := by
        unfold Fifo.spaces at hspaces
        omega
      rw [hsend, if_pos hroom]
  | taskLogger us heap marks => exact hrecord h
  | logBattery writer mv us rem =>
    refine hrecord (Eq.trans ?_ h)
    simp only [Tasks.use]
    cases (Use.logBattery writer mv us rem).record <;> rfl
  | logClock writer us unix src =>
    refine hrecord (Eq.trans ?_ h)
    simp only [Tasks.use]
    cases (Use.logClock writer us unix src).record <;> rfl

/-! ## The invariant -/

/-- The log is what was there and what was written since, and what was received is the front of what was accepted. -/
structure LogKept (files size : Nat) (safe : List LogPiece) (base : List DataFlash.Record) (accepted received : List SdRecord)
    (written : List DataFlash.Record) (s : Tasks) : Prop where
  accepted : accepted = received ++ s.sdWriteQueue.map Prod.fst
  live : Live True files size s.sdWrite.sdData s.sdWrite.currentFile
  logged : (s.sdWrite.card.logged files s.sdWrite.currentFile).flatMap LogPiece.records = base ++ written
  safe : safe <+: s.sdWrite.card.cut.logged files s.sdWrite.currentFile

variable {files size : Nat} {safe : List LogPiece} {base written : List DataFlash.Record} {accepted received : List SdRecord}

/-- A step that leaves the card alone and receives nothing. -/
theorem LogKept.of_same {s s' : Tasks} {more : List SdRecord} (h : LogKept files size safe base accepted received written s)
    (hsdData : s'.sdWrite.sdData = s.sdWrite.sdData)
    (hqueue : s'.sdWriteQueue.map Prod.fst = s.sdWriteQueue.map Prod.fst ++ more) :
    LogKept files size safe base (accepted ++ more) received written s' := by
  obtain ⟨haccepted, hlive, hlogged, hsafe⟩ := h
  have hcard : s'.sdWrite.card = s.sdWrite.card := congrArg Storage.Sys.card hsdData
  have hcurrent : s'.sdWrite.currentFile = s.sdWrite.currentFile := congrArg (·.data.fileIdx) hsdData
  refine ⟨?_, ?_, ?_, ?_⟩
  · rw [haccepted, hqueue, List.append_assoc]
  · rw [hsdData, hcurrent]
    exact hlive
  · rw [hcard, hcurrent]
    exact hlogged
  · rw [hcard, hcurrent]
    exact hsafe

/-- The record in front of the queue brings its file to the limit. -/
def Tasks.fills (s : Tasks) : Bool := s.sdWriteQueue.head?.any fun x => fillsFile s.sdWrite.sdData x.1

/-- The record at the front of the queue goes to the end of the log, and the log to the next file if it filled its own. -/
theorem logKept_receive (hmax : files < 2 ^ 31) {s s' : Tasks} {o : Opening}
    (h : LogKept files size safe base accepted received written s) (hs : s.step (.xQueueReceive o) = some s') :
    LogKept files size safe base accepted (received ++ s.receives (.xQueueReceive o)) (written ++ s.writes (.xQueueReceive o)) s' ∧
      s'.sdWrite.currentFile = if s.fills then (s.sdWrite.currentFile + 1) % files else s.sdWrite.currentFile := by
  simp only [Tasks.step] at hs
  split at hs
  swap
  · cases hs
  rename_i incoming rest hstage hqueue
  obtain ⟨t, ht, rfl⟩ := Option.map_eq_some_iff.1 hs
  have hsdData := sdData_receive ht
  have hinv := h.live.inv
  have hw : Writing files size s.sdWrite.card s.sdWrite.currentFile [] s.sdWrite.sdData s.sdWrite.currentFile :=
    ⟨h.live, .refl⟩
  have hwritten := ((Steps.Prog.wp_iff _ _).1 (Storage.way_write hmax (writeRecord incoming.1) (writeLogPreamble o) hw)).2
  rw [← hsdData, List.nil_append, fills_writeRecord h.live.dataFile h.live.slot] at hwritten
  have hcurrent := hwritten.live.fileIdx
  have hfills : s.fills = fillsFile s.sdWrite.sdData incoming.1 := by rw [Tasks.fills, hqueue]; rfl
  have hwrites : s.writes (.xQueueReceive o) = Log.written s.sdWrite.sdData incoming.1 o := by simp only [Tasks.writes, hqueue]
  refine ⟨⟨?_, ?_, ?_, ?_⟩, hfills ▸ hcurrent⟩
  · rw [h.accepted, Tasks.receives, hqueue]
    simp [Tasks.worked]
  · rw [← hcurrent] at hwritten
    exact hwritten.live
  · have hlogged := hwritten.traced.logged hinv
    rw [← hcurrent] at hlogged
    rw [hwrites, ← List.append_assoc, ← h.logged, ← records_hands h.live.dataFile h.live.slot, ← List.flatMap_append]
    exact congrArg (List.flatMap LogPiece.records) hlogged
  · rw [← hcurrent] at hwritten
    exact h.safe.trans (hwritten.traced.cut hinv)

theorem logKept_step (hmax : files < 2 ^ 31) {s s' : Tasks} {e : TasksEv}
    (h : LogKept files size safe base accepted received written s) (hs : s.step e = some s') :
    LogKept files size safe base (accepted ++ s.accepts e) (received ++ s.receives e) (written ++ s.writes e) s' := by
  have hkept : ∀ {s' : Tasks}, s.receives e = [] → s.writes e = [] → s'.sdWrite.sdData = s.sdWrite.sdData →
      s'.sdWriteQueue.map Prod.fst = s.sdWriteQueue.map Prod.fst ++ s.accepts e →
        LogKept files size safe base (accepted ++ s.accepts e) (received ++ s.receives e) (written ++ s.writes e) s' := by
    intro s' hreceives hwrites hsdData hqueue
    rw [hreceives, hwrites, List.append_nil, List.append_nil]
    exact h.of_same hsdData hqueue
  have hsame : ∀ {s' : Tasks}, s.receives e = [] → s.writes e = [] → s.accepts e = [] → s'.sdWrite.sdData = s.sdWrite.sdData →
      s'.sdWriteQueue = s.sdWriteQueue →
        LogKept files size safe base (accepted ++ s.accepts e) (received ++ s.receives e) (written ++ s.writes e) s' := by
    intro s' hreceives hwrites hnone hsdData hqueue
    exact hkept hreceives hwrites hsdData (by rw [hqueue, hnone, List.append_nil])
  cases e with
  | use u =>
    obtain ⟨hqueue, hsdWrite⟩ := use_accepts hs
    exact hkept rfl rfl (by rw [hsdWrite]) hqueue
  | enqueueWrite port intent =>
    cases hs
    exact hsame rfl rfl rfl rfl rfl
  | linkWrite port =>
    cases hs
    exact hsame rfl rfl rfl rfl rfl
  | xQueueReceive o =>
    have hnone : s.accepts (.xQueueReceive o) = [] := rfl
    rw [hnone, List.append_nil]
    exact (logKept_receive hmax h hs).1
  | drained =>
    rw [drained_cases hs]
    exact hsame rfl rfl rfl rfl rfl
  | portHasRoom =>
    obtain ⟨stage, rfl, -⟩ := portHasRoom_cases hs
    exact hsame rfl rfl rfl rfl rfl
  | service noise =>
    simp only [Tasks.step] at hs
    split at hs
    swap
    · cases hs
    obtain ⟨t, ht, rfl⟩ := Option.map_eq_some_iff.1 hs
    exact hsame rfl rfl rfl (sdData_serve ht) rfl

/-- On a card as any earlier lives left it: what was there, the opening of the file that `begin()` opens, and then
the records received, field by field, each once and in the order the queue took them, with an opening behind each
record that filled its file and nowhere else. What is accepted and not received still waits, and a cut takes
nothing of the earlier lives. -/
theorem accepted_logged (files size : Nat) (hfiles : 0 < files) (hmax : files < 2 ^ 31) (before : List (Storage.Ev LogPiece))
    (c : Card LogPiece) (hbefore : ∀ e ∈ before, e.isDamage = false)
    (hc : run (Rig.step files size) { card := {} } before = some { card := c }) (o : Opening) (es : List TasksEv) (s : Tasks)
    (hrun : run Tasks.step (.boot files size c o) es = some s) :
    (Tasks.boot files size c o).accepted es = (Tasks.boot files size c o).received es ++ s.sdWriteQueue.map Prod.fst ∧
      (∀ es₁ o' es₂ s₁ s₂, es = es₁ ++ .xQueueReceive o' :: es₂ → run Tasks.step (.boot files size c o) es₁ = some s₁ →
        s₁.step (.xQueueReceive o') = some s₂ →
          s₂.sdWrite.currentFile = if s₁.fills then (s₁.sdWrite.currentFile + 1) % files else s₁.sdWrite.currentFile) ∧
      ∃ h, (s.sdWrite.card.logged files s.sdWrite.currentFile).flatMap LogPiece.records =
          (c.logged files h).flatMap LogPiece.records ++ o.records ++ (Tasks.boot files size c o).written es ∧
        c.logged files h <+: s.sdWrite.card.cut.logged files s.sdWrite.currentFile := by
  obtain ⟨h₀, hempty⟩ : ∃ h₀, Storage.Journaled files size ({ card := {} } : Rig LogPiece) h₀ {} :=
    Storage.journaled_empty hfiles
  obtain ⟨h, j, -, hj⟩ := Storage.journaled_run hmax hempty hbefore hc
  have hinv := hj.at_.inv
  have hsynced : c.cut.logged files h = c.logged files h :=
    Storage.logged_cut_of_synced hinv.at_ (hj.at_.2 h)
  -- `begin()` appends the preamble of the file it opens
  have hbegun : LogKept files size (c.logged files h) ((c.logged files h).flatMap LogPiece.records ++ o.records) [] [] []
      (.boot files size c o) := by
    have hstart : Rig.start files size { card := c } (.begin (writeLogPreamble o)) = some ⟨c, { files, size }⟩ := rfl
    obtain ⟨d, hd⟩ := ((Steps.Prog.wp_iff _ _).1 (Storage.way_op hmax hj.at_ hstart)).2
    have hcurrent := hd.live.fileIdx
    rw [← hcurrent] at hd
    refine ⟨rfl, hd.live, ?_, ?_⟩
    · rw [List.append_nil, ← records_writeLogPreamble, ← List.flatMap_append]
      exact congrArg (List.flatMap LogPiece.records) (hd.traced.logged hinv)
    · rw [← hsynced]
      exact hd.traced.cut hinv
  have hkept : ∀ {es : List TasksEv} {s : Tasks}, run Tasks.step (.boot files size c o) es = some s →
      LogKept files size (c.logged files h) ((c.logged files h).flatMap LogPiece.records ++ o.records)
        ((Tasks.boot files size c o).accepted es) ((Tasks.boot files size c o).received es)
        ((Tasks.boot files size c o).written es) s :=
    inv_history (P := fun es s => LogKept files size (c.logged files h) ((c.logged files h).flatMap LogPiece.records ++ o.records)
        ((Tasks.boot files size c o).accepted es) ((Tasks.boot files size c o).received es)
        ((Tasks.boot files size c o).written es) s) hbegun fun es s e s' hrun hs hstep => by
      rw [Tasks.accepted, Tasks.received, Tasks.written, collect_concat hrun hstep, collect_concat hrun hstep,
        collect_concat hrun hstep]
      exact logKept_step hmax hs hstep
  have hend := hkept hrun
  refine ⟨hend.accepted, ?_, h, hend.logged, hend.safe⟩
  intro es₁ o' es₂ s₁ s₂ _ hrun₁ hstep
  exact (logKept_receive hmax (hkept hrun₁) hstep).2

/-- A life that gets as far as its first preamble, and a second one with two records, each of which fills a file,
and a request. -/
def cutEarly : List (Storage.Ev LogPiece) := [.op (.begin (writeLogPreamble opening)), .cut]

def fillsTwice : List TasksEv :=
  [.use (.taskLogger 7000 100 (Vector.replicate 7 40)), .use (.logBattery true 3700 8000 80), .xQueueReceive opening,
    .use (.forwardLogRequest .logEnd { ofs := 0, count := 0, start := 1, «end» := 1, port := 0 }), .xQueueReceive opening]

theorem accepted_logged_fillsTwice : ∃ (c : Card LogPiece) (s : Tasks), run (Rig.step 2 500) { card := {} } cutEarly = some { card := c } ∧
    run Tasks.step (.boot 2 500 c opening) fillsTwice = some s ∧ s.sdWriteQueue.length = 1 ∧ s.sdWrite.currentFile = 0 ∧
      (Tasks.boot 2 500 c opening).written fillsTwice = [⟨kMsgSys, 27, [.num 7000, .num 100, .num 40, .num 40, .num 40,
        .num 40, .num 40, .num 40, .num 40]⟩] ++ opening.records ++ [⟨kMsgPwr, 14, [.num 8000, .num 3700, .num 80]⟩] ++ opening.records ∧
      ∃ h, (s.sdWrite.card.logged 2 s.sdWrite.currentFile).flatMap LogPiece.records =
          (c.logged 2 h).flatMap LogPiece.records ++ opening.records ++ (Tasks.boot 2 500 c opening).written fillsTwice ∧
        c.logged 2 h <+: s.sdWrite.card.cut.logged 2 s.sdWrite.currentFile := by
  have hrun : ((run (Rig.step 2 500) ({ card := {} } : Rig LogPiece) cutEarly).bind fun r =>
      if r.data = none then (run Tasks.step (.boot 2 500 r.card opening) fillsTwice).map fun s =>
        (s.sdWriteQueue.length, s.sdWrite.currentFile, (Tasks.boot 2 500 r.card opening).written fillsTwice) else none) =
      some (1, 0, [⟨kMsgSys, 27, [.num 7000, .num 100, .num 40, .num 40, .num 40, .num 40, .num 40, .num 40, .num 40]⟩] ++
        opening.records ++ [⟨kMsgPwr, 14, [.num 8000, .num 3700, .num 80]⟩] ++ opening.records) := by decide +kernel
  obtain ⟨⟨c, d⟩, hc, hs⟩ := Option.bind_eq_some_iff.1 hrun
  split at hs
  swap
  · cases hs
  rename_i hoff
  dsimp only at hoff
  subst hoff
  obtain ⟨s, hs, hseen⟩ := Option.map_eq_some_iff.1 hs
  obtain ⟨hqueue, hseen⟩ := Prod.mk.inj hseen
  obtain ⟨hfile, hwritten⟩ := Prod.mk.inj hseen
  refine ⟨c, s, hc, hs, hqueue, hfile, hwritten, ?_⟩
  exact (accepted_logged 2 500 (by decide) (by decide) cutEarly c (by decide) hc opening fillsTwice s hs).2.2

end BoredomOS.Log
