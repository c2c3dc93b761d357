/-
TimeUS in the log. `TaskLogger` stamps its record and sends it some steps later, `TaskMavlink`, which
may run in between, stamps and sends at once, and `TaskSdWrite` stamps TIME and RST where it opens a
file. The order of the records is that of the queue, with an opening ahead of all that waits there. So
TimeUS goes back in two ways: a record is overtaken between its stamp and its send, or it waits while a
file is opened.
-/
import BoredomOS.Lib.Runs
import BoredomOS.Log.Format
import BoredomOS.Log.Queue

namespace BoredomOS.Log

open Recovery (BootInfo)
open Runs
open Steps
open Storage (Card Discipline File Rig Sys appended)

/-! ## Time in a file -/

def LogPiece.timeUs : LogPiece → Option UInt64
  | .preamble | .rstFormat => none
  | .time r => some r.timeUs
  | .sys r => some r.timeUs
  | .pwr r => some r.timeUs
  | .rst r => some r.timeUs

/-- The TimeUS of the last record of the boot that appends: it has opened the file once, with a
preamble, for what a rotation opens is new. -/
def LogPiece.lastTime (before : Option UInt64) : LogPiece → Option UInt64
  | .preamble => none
  | p => p.timeUs.or before

def lastTime (pieces : List LogPiece) : Option UInt64 := pieces.foldl LogPiece.lastTime none

/-- No record is earlier than the one before it in the same boot. -/
def TimeOrdered (pieces : List LogPiece) : Prop :=
  ∀ l p m, pieces = l ++ p :: m → ∀ t u, lastTime l = some t → p.timeUs = some u → t ≤ u

theorem lastTime_concat (l : List LogPiece) (p : LogPiece) : lastTime (l ++ [p]) = p.lastTime (lastTime l) := by
  rw [lastTime, List.foldl_append]
  rfl

theorem TimeOrdered.left {l m : List LogPiece} (h : TimeOrdered (l ++ m)) : TimeOrdered l :=
  fun l₁ p l₂ hl => h l₁ p (l₂ ++ m) (by rw [hl, List.append_assoc]; rfl)

theorem TimeOrdered.concat {l : List LogPiece} {p : LogPiece} (h : TimeOrdered l)
    (hp : ∀ t u, lastTime l = some t → p.timeUs = some u → t ≤ u) : TimeOrdered (l ++ [p]) := by
  intro l₁ q l₂ hl
  rcases List.eq_nil_or_concat l₂ with rfl | ⟨l₃, r, rfl⟩
  · obtain ⟨rfl, hq⟩ := List.append_inj' hl rfl
    cases hq
    exact hp
  · rw [List.concat_eq_append, ← List.cons_append, ← List.append_assoc] at hl
    exact h l₁ q l₃ (List.append_inj' hl rfl).1

/-- Ready for what is stamped at `bound` or later. -/
def byTime (bound : UInt64) : Discipline LogPiece where
  good := TimeOrdered
  ready l := ∀ t, lastTime l = some t → t ≤ bound
  good_nil l p m h := by simp at h
  good_left := TimeOrdered.left

theorem writeLogPreamble_pieces (o : Opening) : ∃ (record : LogTime) (reset : LogRst),
    (writeLogPreamble o).flatMap appended = [.preamble, .time record, .rstFormat, .rst reset] ∧
      record.timeUs = o.timeUs ∧ reset.timeUs = o.resetTimeUs :=
  ⟨_, _, by simp only [writeLogPreamble, List.flatMap_cons, appended_piece]; rfl, rfl, rfl⟩

/-- An opening begins anew and leaves the TimeUS of its RST. -/
theorem opens_byTime {o : Opening} (h : o.timeUs ≤ o.resetTimeUs) : (byTime o.resetTimeUs).Opens (writeLogPreamble o) := by
  intro l hl
  obtain ⟨record, reset, hpieces, hrecord, hreset⟩ := writeLogPreamble_pieces o
  have hsplit : l ++ [LogPiece.preamble, LogPiece.time record, LogPiece.rstFormat, LogPiece.rst reset] =
      l ++ [LogPiece.preamble] ++ [LogPiece.time record] ++ [LogPiece.rstFormat] ++ [LogPiece.rst reset] := by simp
  have htime : lastTime (l ++ [LogPiece.preamble] ++ [LogPiece.time record] ++ [LogPiece.rstFormat]) = some o.timeUs := by
    rw [lastTime_concat, lastTime_concat, ← hrecord]
    rfl
  rw [hpieces, hsplit]
  constructor
  · refine TimeOrdered.concat (TimeOrdered.concat (TimeOrdered.concat (TimeOrdered.concat hl ?_) ?_) ?_) ?_
    · rintro t u - ⟨⟩
    · rintro t u ht -
      rw [lastTime_concat] at ht
      cases ht
    · rintro t u - ⟨⟩
    · rintro t u ht hu
      rw [htime] at ht
      cases ht
      cases hu
      rw [hreset]
      exact h
  · intro t ht
    rw [lastTime_concat] at ht
    cases ht
    rw [hreset]
    exact UInt64.le_refl _

def SdRecord.timeUs : SdRecord → Option UInt64
  | .sys p => some p.timeUs
  | .pwr p => some p.timeUs
  | .time p => some p.timeUs
  | .logList _ | .logRead _ | .logEnd _ => none

/-- A record that is no request becomes a piece with its TimeUS. -/
theorem writeRecord_timeUs {r : SdRecord} (h : r.isRequest = false) :
    ∃ p t, writeRecord r = some p ∧ r.timeUs = some t ∧ p.timeUs = some t ∧ ∀ before, p.lastTime before = some t := by
  cases r with
  | sys p => exact ⟨_, _, rfl, rfl, rfl, fun _ => rfl⟩
  | pwr p => exact ⟨_, _, rfl, rfl, rfl, fun _ => rfl⟩
  | time p => exact ⟨_, _, rfl, rfl, rfl, fun _ => rfl⟩
  | logList p => cases h
  | logRead p => cases h
  | logEnd p => cases h

/-! ## The tasks that stamp -/

/-- Where `TaskSdWrite` is: at the queue, or in `begin()` (`none`) or the `write()` of a record, with
what it has read so far for the file that opens. -/
inductive SdWriteStage
  | xQueueReceive
  | working (incoming : Option SdRecord) (time : Option (UInt64 × UInt64 × UInt8)) (reset : Option UInt64)

/-- A boot and the card it runs with. `logger` is the stamp `TaskLogger` holds. For the record: the last
reading of `sinceBootUsec()`, and the TimeUS that has the last place in the log so far, of the last record
accepted or of the last RST. -/
structure Logging where
  rig : Rig LogPiece
  info : BootInfo
  sdWriteQueue : SdWriteQueue := []
  logger : Option UInt64 := none
  stage : SdWriteStage := .working none none none
  clock : UInt64 := 0
  newest : UInt64 := 0

inductive LoggingEv
  | taskLoggerStamps (now : UInt64)
  | taskLoggerSends (freeHeapSize : UInt16) (stackMarks : Vector UInt16 7)
  | logBattery (now : UInt64) (millivolts : UInt16) (remaining : Int8)
  | logClock (now unixTime : UInt64) (source : UInt8)
  | forwardLogRequest (kind : LogRequestKind) (p : SdLogRequestPayload)
  | xQueueReceive
  /-- `writeLogPreamble()` reads the clock for TIME -/
  | stampTime (now unixTime : UInt64) (source : UInt8)
  /-- and again for RST -/
  | stampReset (now : UInt64)
  /-- `begin()` or `write()` returns -/
  | returns
  /-- power is lost before the operation's step of that number -/
  | cutIn (point : Nat) (info : BootInfo)
  /-- power is lost, or the board reset, with no operation under way -/
  | cut (info : BootInfo)

namespace Logging

def boot (c : Card LogPiece) (info : BootInfo) : Logging := { rig := { card := c }, info }

/-- `xQueueSend` of a record that was stamped at `timeUs`. -/
def send (s : Logging) (timeUs : UInt64) (r : SdRecord) : Logging :=
  let (accepted, queue) := Log.xQueueSend s.sdWriteQueue r
  { s with sdWriteQueue := queue, newest := if accepted then timeUs else s.newest }

/-- `TaskMavlink` reads the clock and sends. -/
def stampAndSend (s : Logging) (now : UInt64) (r : SdRecord) : Option Logging :=
  if s.clock ≤ now then some ({ s with clock := now }.send now r) else none

/-- The operation opens a file: `begin()`, or the write that fills the one before. -/
def opens (s : Logging) (incoming : Option SdRecord) : Bool :=
  s.rig.card.writable && match incoming, s.rig.data with
    | none, _ => true
    | some r, some d => Sys.fills ⟨s.rig.card, d⟩ (writeRecord r)
    | some _, none => false

def opening (s : Logging) (time : Option (UInt64 × UInt64 × UInt8)) (reset : Option UInt64) : Opening :=
  let (timeUs, unixTime, source) := time.getD (0, 0, 0)
  { timeUs, unixTime, source, resetTimeUs := reset.getD 0, boot := s.info }

/-- The preamble as far as the clock has been read for it: its last step is the reading to come. -/
def begun (s : Logging) (time : Option (UInt64 × UInt64 × UInt8)) (reset : Option UInt64) : List (Option LogPiece) :=
  let onOpen := writeLogPreamble (s.opening time reset)
  match time, reset with
  | some _, some _ => onOpen
  | some _, none => onOpen.take 3 ++ [none]
  | none, _ => onOpen.take 1 ++ [none]

def op (onOpen : List (Option LogPiece)) : Option SdRecord → Storage.Op LogPiece
  | none => .begin onOpen
  | some r => .write (writeRecord r) onOpen

def step (files size : Nat) (s : Logging) : LoggingEv → Option Logging
  | .taskLoggerStamps now =>
    if s.logger.isNone ∧ s.clock ≤ now then some { s with logger := some now, clock := now } else none
  | .taskLoggerSends heap marks =>
    s.logger.map fun timeUs => { s with logger := none }.send timeUs (taskLogger timeUs heap marks)
  | .logBattery now millivolts remaining =>
    match Log.logBattery true millivolts now remaining with
    | none => some s
    | some r => s.stampAndSend now r
  | .logClock now unixTime source =>
    match Log.logClock true now unixTime source with
    | none => some s
    | some r => s.stampAndSend now r
  | .forwardLogRequest kind p => some { s with sdWriteQueue := Log.forwardLogRequest kind p s.sdWriteQueue }
  | .xQueueReceive =>
    match s.stage, s.sdWriteQueue with
    | .xQueueReceive, r :: rest =>
      some { s with sdWriteQueue := rest, stage := if r.isRequest then .xQueueReceive else .working (some r) none none }
    | _, _ => none
  | .stampTime now unixTime source =>
    match s.stage with
    | .working incoming none none =>
      if s.opens incoming ∧ s.clock ≤ now then
        some { s with stage := .working incoming (some (now, unixTime, source)) none, clock := now }
      else none
    | _ => none
  | .stampReset now =>
    match s.stage with
    | .working incoming (some time) none =>
      if s.clock ≤ now then
        some { s with stage := .working incoming (some time) (some now), clock := now, newest := now }
      else none
    | _ => none
  | .returns =>
    match s.stage with
    | .working incoming time reset =>
      if s.opens incoming = reset.isSome then
        (s.rig.step files size (.op (op (writeLogPreamble (s.opening time reset)) incoming))).map fun rig =>
          { s with rig, stage := .xQueueReceive }
      else none
    | _ => none
  | .cutIn point info =>
    match s.stage with
    | .working incoming time reset =>
      (s.rig.step files size (.cutIn (op (s.begun time reset) incoming) point)).map fun rig => boot rig.card info
    | _ => none
  | .cut info => some (boot s.rig.card.cut info)

end Logging

/-! ## What keeps the order -/

/-- A record of `TaskLogger` that is accepted was not overtaken, by a later record of `TaskMavlink` or by
an opening, and at an opening nothing that waits is older than its RST. -/
def InTurn (s : Logging) : LoggingEv → Prop
  | .taskLoggerSends _ _ =>
    s.sdWriteQueue.length < sdWriteQueueDepth → ∀ timeUs, s.logger = some timeUs → s.newest ≤ timeUs
  | .stampReset now => ∀ r ∈ s.sdWriteQueue, ∀ t, r.timeUs = some t → now ≤ t
  | _ => True

/-- Every step of the run keeps the order. -/
def AllInTurn (files size : Nat) (b : Logging) (es : List LoggingEv) : Prop :=
  ∀ es₁ e es₂ s, es = es₁ ++ e :: es₂ → run (Logging.step files size) b es₁ = some s → InTurn s e

/-- A preamble that power cuts short is a part of one whose RST was stamped with its TIME. -/
theorem timeOrdered_begun {s : Logging} {time : Option (UInt64 × UInt64 × UInt8)} {reset : Option UInt64} {l : List LogPiece}
    (hl : TimeOrdered l) (h : ∀ stamped t, time = some stamped → reset = some t → stamped.1 ≤ t) :
    TimeOrdered (l ++ (s.begun time reset).flatMap appended) := by
  have hpart : ∀ k reset', (∀ stamped, time = some stamped → stamped.1 ≤ reset') → TimeOrdered (l ++
      ((writeLogPreamble (s.opening time (some reset'))).take k).flatMap appended) := by
    intro k reset' hle
    have hopens := opens_byTime (o := s.opening time (some reset')) ?_
    · have hwhole := (hopens l hl).1
      rw [← List.take_append_drop k (writeLogPreamble _), List.flatMap_append, ← List.append_assoc] at hwhole
      exact TimeOrdered.left hwhole
    · cases time with
      | none => exact UInt64.zero_le
      | some stamped => exact hle stamped rfl
  have hnone : ([none] : List (Option LogPiece)).flatMap appended = [] := rfl
  cases time with
  | none =>
    simp only [Logging.begun, List.flatMap_append, hnone, List.append_nil]
    exact hpart 1 0 (by simp)
  | some stamped =>
    cases reset with
    | none =>
      simp only [Logging.begun, List.flatMap_append, hnone, List.append_nil]
      exact hpart 3 stamped.1 (by rintro _ ⟨⟩; exact UInt64.le_refl _)
    | some t =>
      exact hpart 4 t (by rintro _ ⟨⟩; exact h stamped t rfl rfl)

/-- `t` is no later than what is stamped. -/
def SdRecord.From (t : UInt64) (r : SdRecord) : Prop := ∀ u, r.timeUs = some u → t ≤ u

/-- The records on their way to the card, in their order: in the order of their stamps, none later than the
newest one. An operation that read the clock for RST has only younger ones behind it. -/
structure InTime (s : Logging) : Prop where
  good : (byTime 0).AllGood s.rig.card
  fit : ∀ d, s.rig.data = some d → ∃ m, (byTime m).Fit ⟨s.rig.card, d⟩ ∧ m ≤ s.newest ∧
    (∀ r ∈ s.sdWriteQueue, r.From m) ∧ ∀ r time reset, s.stage = .working (some r) time reset → r.From m
  rising : s.sdWriteQueue.Pairwise fun r r' => ∀ t, r.timeUs = some t → r'.From t
  held : ∀ r time reset, s.stage = .working (some r) time reset →
    r.isRequest = false ∧ ∀ t, r.timeUs = some t → t ≤ s.newest ∧ ∀ r' ∈ s.sdWriteQueue, r'.From t
  newest : ∀ r ∈ s.sdWriteQueue, ∀ t, r.timeUs = some t → t ≤ s.newest
  clock : s.newest ≤ s.clock
  logger : ∀ t, s.logger = some t → t ≤ s.clock
  time : ∀ incoming time reset, s.stage = .working incoming (some time) reset →
    time.1 ≤ s.clock ∧ ∀ t, reset = some t → time.1 ≤ t
  reset : ∀ incoming time t, s.stage = .working incoming time (some t) →
    time.isSome ∧ t ≤ s.newest ∧ ∀ r ∈ s.sdWriteQueue, r.From t

theorem inTime_boot {c : Card LogPiece} (hgood : (byTime 0).AllGood c) (info : BootInfo) : InTime (.boot c info) where
  good := hgood
  fit := by rintro d ⟨⟩
  rising := List.Pairwise.nil
  held := by rintro r time reset ⟨⟩
  newest := by rintro r ⟨⟩
  clock := UInt64.le_refl _
  logger := by rintro t ⟨⟩
  time := by rintro incoming time reset ⟨⟩
  reset := by rintro incoming time t ⟨⟩

namespace InTime

variable {s : Logging}

/-! ## Stamps and sends -/

theorem tick (h : InTime s) {now : UInt64} (hnow : s.clock ≤ now) : InTime { s with clock := now } where
  good := h.good
  fit := h.fit
  rising := h.rising
  held := h.held
  newest := h.newest
  clock := UInt64.le_trans h.clock hnow
  logger t ht := UInt64.le_trans (h.logger t ht) hnow
  time incoming time reset hstage :=
    ⟨UInt64.le_trans (h.time incoming time reset hstage).1 hnow, (h.time incoming time reset hstage).2⟩
  reset := h.reset

/-- An item at the back of the queue, stamped no earlier than the newest one, or not stamped. -/
theorem enqueue (h : InTime s) {r : SdRecord} {newest : UInt64} (hle : s.newest ≤ newest) (hclock : newest ≤ s.clock)
    (hr : ∀ t, r.timeUs = some t → s.newest ≤ t ∧ t ≤ newest) :
    InTime { s with sdWriteQueue := s.sdWriteQueue ++ [r], newest } := by
  have hfrom : ∀ m, m ≤ s.newest → r.From m := fun m hm t ht => UInt64.le_trans hm (hr t ht).1
  have hmem : ∀ {P : SdRecord → Prop}, (∀ x ∈ s.sdWriteQueue, P x) → P r → ∀ x ∈ s.sdWriteQueue ++ [r], P x := by
    intro P hold hnew x hx
    rcases List.mem_append.1 hx with hx | hx
    · exact hold x hx
    · rw [List.mem_singleton.1 hx]
      exact hnew
  refine ⟨h.good, fun d hd => ?_, ?_, fun r' time reset hstage => ?_, ?_, hclock, h.logger, h.time,
    fun incoming time t hstage => ?_⟩
  · obtain ⟨m, hfit, hm, hqueue, hheld⟩ := h.fit d hd
    exact ⟨m, hfit, UInt64.le_trans hm hle, hmem hqueue (hfrom m hm), hheld⟩
  · rw [List.pairwise_append]
    refine ⟨h.rising, List.pairwise_singleton .., fun x hx y hy t ht => ?_⟩
    rw [List.mem_singleton.1 hy]
    exact hfrom t (h.newest x hx t ht)
  · obtain ⟨hlogged, hheld⟩ := h.held r' time reset hstage
    refine ⟨hlogged, fun t ht => ?_⟩
    obtain ⟨hnewest, hqueue⟩ := hheld t ht
    exact ⟨UInt64.le_trans hnewest hle, hmem hqueue (hfrom t hnewest)⟩
  · exact hmem (fun x hx t ht => UInt64.le_trans (h.newest x hx t ht) hle) fun t ht => (hr t ht).2
  · obtain ⟨htime, hnewest, hqueue⟩ := h.reset incoming time t hstage
    exact ⟨htime, UInt64.le_trans hnewest hle, hmem hqueue (hfrom t hnewest)⟩

theorem send (h : InTime s) {r : SdRecord} {timeUs : UInt64} (hr : r.timeUs = some timeUs) (hclock : timeUs ≤ s.clock)
    (hturn : s.sdWriteQueue.length < sdWriteQueueDepth → s.newest ≤ timeUs) : InTime (s.send timeUs r) := by
  unfold Logging.send xQueueSend Fifo.send
  split
  · rename_i q hroom
    split at hroom
    · cases hroom
      have hnewest := hturn ‹_›
      refine h.enqueue hnewest hclock fun t ht => ?_
      obtain rfl : timeUs = t := Option.some.inj (hr.symm.trans ht)
      exact ⟨hnewest, UInt64.le_refl _⟩
    · cases hroom
      exact h

theorem stampAndSend {s' : Logging} (h : InTime s) {now : UInt64} {r : SdRecord} (hr : r.timeUs = some now)
    (hs : s.stampAndSend now r = some s') : InTime s' := by
  unfold Logging.stampAndSend at hs
  split at hs
  · rename_i hnow
    cases hs
    exact (h.tick hnow).send hr (UInt64.le_refl _) fun _ => UInt64.le_trans h.clock hnow
  · cases hs

/-! ## Operations -/

/-- Whatever the operation appends, every file stays in order, and the open one is ready for `m`. -/
theorem wp_op (h : InTime s) {incoming : Option SdRecord} {time : Option (UInt64 × UInt64 × UInt8)} {reset : Option UInt64}
    (hstage : s.stage = .working incoming time reset) {onOpen : List (Option LogPiece)} {m : UInt64}
    (hopens : s.opens incoming = true → (byTime m).Opens onOpen)
    (hstays : s.opens incoming = false → ∀ r, incoming = some r → ∀ t, r.timeUs = some t → t ≤ m) {files size : Nat}
    {st : Sys LogPiece} (hst : s.rig.start files size (Logging.op onOpen incoming) = some st) :
    Prog.wp (fun p => (byTime m).AllGood p.card) (Logging.op onOpen incoming).prog (fun _ s' => (byTime m).Fit s') st := by
  cases incoming with
  | none =>
    cases hst
    refine Storage.fit_begin (D := byTime m) h.good fun hw => hopens ?_
    rw [Logging.opens, Bool.and_true]
    exact hw
  | some r =>
    obtain ⟨d, hd, rfl⟩ := Option.map_eq_some_iff.1 hst
    obtain ⟨bound, hfit, -, -, hhand⟩ := h.fit d hd
    obtain ⟨p, t, hpiece, ht, hp, hlast⟩ := writeRecord_timeUs (h.held r time reset hstage).1
    have hfrom : bound ≤ t := hhand r time reset hstage t ht
    have hfills : s.opens (some r) = (s.rig.card.writable && Sys.fills ⟨s.rig.card, d⟩ (some p)) := by
      simp only [Logging.opens, hd, hpiece]
    rw [Logging.op, hpiece]
    refine Storage.fit_write_into (D := byTime bound) (fun _ hl => hl) hfit ?_ ?_ ?_
    · intro l hl hready
      rw [appended_piece]
      refine TimeOrdered.concat hl fun u v hu hv => ?_
      obtain rfl : t = v := Option.some.inj (hp.symm.trans hv)
      exact UInt64.le_trans (hready u hu) hfrom
    · intro hroom l _ _ u hu
      rw [appended_piece, lastTime_concat, hlast] at hu
      cases hu
      exact hstays (by rw [hfills, hroom, Bool.and_false]) r rfl t ht
    · intro hfull hw
      have hopen : s.opens (some r) = true := by
        rw [hfills, hfull, Bool.and_true]
        exact hw
      exact hopens hopen [] (byTime m).good_nil

/-- Back at the queue, with what the operation left. -/
theorem returns (h : InTime s) {incoming : Option SdRecord} {time : Option (UInt64 × UInt64 × UInt8)} {reset : Option UInt64}
    (hstage : s.stage = .working incoming time reset) (hread : s.opens incoming = reset.isSome) {files size : Nat}
    {rig : Rig LogPiece}
    (hrig : s.rig.step files size (.op (Logging.op (writeLogPreamble (s.opening time reset)) incoming)) = some rig) :
    InTime { s with rig, stage := .xQueueReceive } := by
  obtain ⟨st, hst, rfl⟩ := Option.map_eq_some_iff.1 hrig
  -- the last TimeUS in the open file is that of the RST, or of the record where no file opened
  obtain ⟨m, hm, hqueue, hopens, hstays⟩ : ∃ m, m ≤ s.newest ∧ (∀ r ∈ s.sdWriteQueue, r.From m) ∧
      (s.opens incoming = true → (byTime m).Opens (writeLogPreamble (s.opening time reset))) ∧
      (s.opens incoming = false → ∀ r, incoming = some r → ∀ t, r.timeUs = some t → t ≤ m) := by
    cases hopen : s.opens incoming with
    | true =>
      obtain ⟨t, rfl⟩ := Option.isSome_iff_exists.1 (hread.symm.trans hopen)
      obtain ⟨htime, hnewest, hqueue⟩ := h.reset incoming time t hstage
      obtain ⟨stamped, rfl⟩ := Option.isSome_iff_exists.1 htime
      have hrising := (h.time incoming stamped (some t) hstage).2 t rfl
      exact ⟨t, hnewest, hqueue, fun _ => opens_byTime (o := s.opening (some stamped) (some t)) hrising, by simp⟩
    | false =>
      cases incoming with
      | none => exact ⟨0, UInt64.zero_le, fun _ _ _ _ => UInt64.zero_le, by simp, by simp⟩
      | some r =>
        obtain ⟨hlogged, hheld⟩ := h.held r time reset hstage
        obtain ⟨-, t, -, ht, -⟩ := writeRecord_timeUs hlogged
        obtain ⟨hnewest, hqueue⟩ := hheld t ht
        refine ⟨t, hnewest, hqueue, by simp, ?_⟩
        rintro - r ⟨⟩ u hu
        obtain rfl : t = u := Option.some.inj (ht.symm.trans hu)
        exact UInt64.le_refl _
  have hfit := ((Prog.wp_iff _ _).1 (h.wp_op hstage hopens hstays hst)).2
  refine ⟨hfit.all, ?_, h.rising, ?_, h.newest, h.clock, h.logger, ?_, ?_⟩
  · rintro d ⟨⟩
    exact ⟨m, hfit, hm, hqueue, by rintro r time reset ⟨⟩⟩
  · rintro r time reset ⟨⟩
  · rintro incoming time reset ⟨⟩
  · rintro incoming time t ⟨⟩

theorem cutIn (h : InTime s) {incoming : Option SdRecord} {time : Option (UInt64 × UInt64 × UInt8)} {reset : Option UInt64}
    (hstage : s.stage = .working incoming time reset) {files size point : Nat} {rig : Rig LogPiece}
    (hrig : s.rig.step files size (.cutIn (Logging.op (s.begun time reset) incoming) point) = some rig) (info : BootInfo) :
    InTime (.boot rig.card info) := by
  obtain ⟨st, hst, hrig⟩ := Option.bind_eq_some_iff.1 hrig
  obtain ⟨p, hp, rfl⟩ := Option.map_eq_some_iff.1 hrig
  have hmax : ∀ t : UInt64, t ≤ 0xFFFFFFFFFFFFFFFF := fun t => Nat.le_of_lt_succ t.toNat_lt
  have hopens : (byTime 0xFFFFFFFFFFFFFFFF).Opens (s.begun time reset) :=
    fun l hl => ⟨timeOrdered_begun hl fun stamped t htime ht => (h.time incoming stamped reset (htime ▸ hstage)).2 t ht,
      fun t _ => hmax t⟩
  have hwp := h.wp_op hstage (fun _ => hopens) (fun _ _ _ t _ => hmax t) hst
  exact inTime_boot (Storage.allGood_cut (((Prog.wp_iff _ _).1 hwp).1 p (List.mem_of_getElem? hp))) info

/-- The front of the queue is now under way, or it was a request and is answered. -/
theorem receive (h : InTime s) {r : SdRecord} {rest : List SdRecord} (hqueue : s.sdWriteQueue = r :: rest) :
    InTime { s with
      sdWriteQueue := rest
      stage := if r.isRequest then .xQueueReceive else .working (some r) none none } := by
  have hrest : ∀ x ∈ rest, x ∈ s.sdWriteQueue := fun x hx => hqueue ▸ List.mem_cons_of_mem r hx
  have hmem : r ∈ s.sdWriteQueue := hqueue ▸ List.mem_cons_self ..
  have hrising := h.rising
  rw [hqueue, List.pairwise_cons] at hrising
  refine ⟨h.good, fun d hd => ?_, hrising.2, ?_, fun x hx => h.newest x (hrest x hx), h.clock, h.logger, ?_, ?_⟩
  · obtain ⟨m, hfit, hm, hfrom, -⟩ := h.fit d hd
    refine ⟨m, hfit, hm, fun x hx => hfrom x (hrest x hx), fun r' time reset hworking => ?_⟩
    split at hworking
    · cases hworking
    · cases hworking
      exact hfrom r hmem
  · intro r' time reset hworking
    split at hworking
    · cases hworking
    · rename_i hlogged
      cases hworking
      exact ⟨by simpa using hlogged, fun t ht => ⟨h.newest r hmem t ht, fun x hx => hrising.1 x hx t ht⟩⟩
  · intro incoming time reset hworking
    split at hworking <;> cases hworking
  · intro incoming time t hworking
    split at hworking <;> cases hworking

/-! ## The file that opens -/

theorem stampTime (h : InTime s) {incoming : Option SdRecord} (hstage : s.stage = .working incoming none none)
    {now unixTime : UInt64} {source : UInt8} (hnow : s.clock ≤ now) :
    InTime { s with stage := .working incoming (some (now, unixTime, source)) none, clock := now } := by
  refine ⟨h.good, fun d hd => ?_, h.rising, ?_, h.newest, UInt64.le_trans h.clock hnow,
    fun t ht => UInt64.le_trans (h.logger t ht) hnow, ?_, ?_⟩
  · obtain ⟨m, hfit, hm, hqueue, hheld⟩ := h.fit d hd
    refine ⟨m, hfit, hm, hqueue, ?_⟩
    rintro r time reset ⟨⟩
    exact hheld r none none hstage
  · rintro r time reset ⟨⟩
    exact h.held r none none hstage
  · rintro incoming time reset ⟨⟩
    exact ⟨UInt64.le_refl _, by rintro t ⟨⟩⟩
  · rintro incoming time t ⟨⟩

theorem stampReset (h : InTime s) {incoming : Option SdRecord} {time : UInt64 × UInt64 × UInt8}
    (hstage : s.stage = .working incoming (some time) none) {now : UInt64} (hnow : s.clock ≤ now)
    (hturn : ∀ r ∈ s.sdWriteQueue, r.From now) (hheld : s.newest ≤ now) :
    InTime { s with stage := .working incoming (some time) (some now), clock := now, newest := now } := by
  refine ⟨h.good, fun d hd => ?_, h.rising, ?_, ?_, UInt64.le_refl _, fun t ht => UInt64.le_trans (h.logger t ht) hnow,
    ?_, ?_⟩
  · obtain ⟨m, hfit, hm, hqueue, hhand⟩ := h.fit d hd
    refine ⟨m, hfit, UInt64.le_trans hm hheld, hqueue, ?_⟩
    rintro r time reset ⟨⟩
    exact hhand r (some time) none hstage
  · rintro r time reset ⟨⟩
    obtain ⟨hlogged, hfront⟩ := h.held r (some time) none hstage
    exact ⟨hlogged, fun t ht => ⟨UInt64.le_trans (hfront t ht).1 hheld, (hfront t ht).2⟩⟩
  · exact fun r hr t ht => UInt64.le_trans (h.newest r hr t ht) hheld
  · rintro incoming time reset ⟨⟩
    obtain ⟨htime, -⟩ := h.time incoming time none hstage
    refine ⟨UInt64.le_trans htime hnow, ?_⟩
    rintro t ⟨⟩
    exact UInt64.le_trans htime hnow
  · rintro incoming time t ⟨⟩
    exact ⟨rfl, UInt64.le_refl _, hturn⟩

end InTime

/-! ## Runs -/

/-- One step of any task, or the loss of power. -/
theorem inTime_step {files size : Nat} {s s' : Logging} {e : LoggingEv} (h : InTime s) (hturn : InTurn s e)
    (hs : s.step files size e = some s') : InTime s' := by
  cases e with
  | taskLoggerStamps now =>
    obtain ⟨⟨-, hnow⟩, hs⟩ := Option.ite_none_right_eq_some.1 hs
    cases hs
    exact { h.tick hnow with logger := by rintro t ⟨⟩; exact UInt64.le_refl _ }
  | taskLoggerSends heap marks =>
    obtain ⟨timeUs, hlogger, rfl⟩ := Option.map_eq_some_iff.1 hs
    have hsent : InTime { s with logger := none } := { h with logger := by rintro t ⟨⟩ }
    exact hsent.send rfl (h.logger timeUs hlogger) fun hroom => hturn hroom timeUs hlogger
  | logBattery now millivolts remaining =>
    simp only [Logging.step, logBattery] at hs
    split at hs
    · cases hs
      exact h
    · rename_i r hr
      refine h.stampAndSend ?_ hs
      split at hr
      · cases hr
      · split at hr <;> cases hr
        rfl
  | logClock now unixTime source => exact h.stampAndSend rfl hs
  | forwardLogRequest kind p =>
    cases hs
    unfold forwardLogRequest xQueueSend Fifo.send
    have hnone : (kind.record p).timeUs = none := by cases kind <;> rfl
    split
    · exact h
    · split
      · exact h.enqueue (UInt64.le_refl _) h.clock fun t ht => by rw [hnone] at ht; cases ht
      · exact h
  | xQueueReceive =>
    simp only [Logging.step] at hs
    split at hs
    · rename_i r rest _ hqueue
      cases hs
      exact h.receive hqueue
    · cases hs
  | stampTime now unixTime source =>
    simp only [Logging.step] at hs
    split at hs
    · rename_i incoming hstage
      obtain ⟨⟨-, hnow⟩, hs⟩ := Option.ite_none_right_eq_some.1 hs
      cases hs
      exact h.stampTime hstage hnow
    · cases hs
  | stampReset now =>
    simp only [Logging.step] at hs
    split at hs
    · rename_i incoming time hstage
      obtain ⟨hnow, hs⟩ := Option.ite_none_right_eq_some.1 hs
      cases hs
      exact h.stampReset hstage hnow hturn (UInt64.le_trans h.clock hnow)
    · cases hs
  | returns =>
    simp only [Logging.step] at hs
    split at hs
    · rename_i incoming time reset hstage
      obtain ⟨hopens, hs⟩ := Option.ite_none_right_eq_some.1 hs
      obtain ⟨rig, hrig, rfl⟩ := Option.map_eq_some_iff.1 hs
      exact h.returns hstage hopens hrig
    · cases hs
  | cutIn point info =>
    simp only [Logging.step] at hs
    split at hs
    · rename_i incoming time reset hstage
      obtain ⟨rig, hrig, rfl⟩ := Option.map_eq_some_iff.1 hs
      exact h.cutIn hstage hrig info
    · cases hs
  | cut info =>
    cases hs
    exact inTime_boot (Storage.allGood_cut h.good) info

/-- From boot on, over power cuts and reboots: where every step keeps the order, TimeUS never goes back
within a boot, in any file. -/
theorem time_ordered (files size : Nat) (c : Card LogPiece) (info : BootInfo) (es : List LoggingEv) (s : Logging)
    (hc : ∀ i f, c.slots i = some f → TimeOrdered f.payloads)
    (hrun : run (Logging.step files size) (.boot c info) es = some s)
    (hturn : AllInTurn files size (.boot c info) es) :
    ∀ i f, s.rig.card.slots i = some f → TimeOrdered f.payloads := by
  have hin : InTime s := by
    refine inv_along (inTime_boot hc info) (fun es₁ e es₂ m m' hes hm hs h => ?_) (List.append_nil es).symm hrun
    exact inTime_step h (hturn es₁ e es₂ m hes hm) hs
  exact hin.good

/-! ## A record that is overtaken -/

def firstBoot : BootInfo where
  previousBootPhase := .schedulerStarted
  previousFaultTask := []
  previousResetReason := .powerOn
  reducedConfiguration := false
  bootConsecutiveCount := 1
  bootCumulativeCount := 1

/-- `begin()` on an empty card. -/
def opened : List LoggingEv := [.stampTime 500 1700000000 1, .stampReset 600, .returns]

def stackMarks : Vector UInt16 7 := Vector.replicate 7 256

/-- `TaskMavlink` runs between the stamp of `TaskLogger` and its send. -/
def overtaken : List LoggingEv :=
  opened ++ [.taskLoggerStamps 1000, .logBattery 2000 3700 80, .taskLoggerSends 2048 stackMarks,
    .xQueueReceive, .returns, .xQueueReceive, .returns]

theorem overtaken_goes_back : ¬ ∀ (files size : Nat) (info : BootInfo) (es : List LoggingEv) (s : Logging),
    run (Logging.step files size) (.boot {} info) es = some s →
      ∀ i f, s.rig.card.slots i = some f → TimeOrdered f.payloads := by
  intro h
  have hfile : ((run (Logging.step 4 4096) (.boot {} firstBoot) overtaken).bind fun s =>
      (s.rig.card.slots 0).map fun f => (lastTime (f.payloads.take 5), f.payloads.drop 5 |>.map LogPiece.timeUs)) =
      some (some 2000, [some 1000]) := by decide +kernel
  obtain ⟨s, hs, hfile⟩ := Option.bind_eq_some_iff.1 hfile
  obtain ⟨f, hf, hfile⟩ := Option.map_eq_some_iff.1 hfile
  obtain ⟨hbefore, hlate⟩ := Prod.mk.inj hfile
  obtain ⟨p, hp, htime⟩ := List.map_eq_singleton_iff.1 hlate
  have hsplit : f.payloads = f.payloads.take 5 ++ p :: [] := by rw [← hp, List.take_append_drop]
  exact absurd (h 4 4096 firstBoot overtaken s hs 0 f hf _ p [] hsplit 2000 1000 hbefore htime) (by decide)

theorem time_ordered_inTurn : ∃ s, run (Logging.step 4 4096) (.boot {} firstBoot)
    (opened ++ [.taskLoggerStamps 1000, .taskLoggerSends 2048 stackMarks, .xQueueReceive, .returns]) = some s ∧
      ∀ i f, s.rig.card.slots i = some f → TimeOrdered f.payloads := by
  have hopened : (run (Logging.step 4 4096) (.boot {} firstBoot) (opened ++ [.taskLoggerStamps 1000])).map
      (fun s => (s.newest, s.logger)) = some (600, some 1000) := by decide +kernel
  have hruns : (run (Logging.step 4 4096) (.boot {} firstBoot)
    (opened ++ [.taskLoggerStamps 1000, .taskLoggerSends 2048 stackMarks, .xQueueReceive, .returns])).isSome = true := by
    decide +kernel
  obtain ⟨s, hs⟩ := Option.isSome_iff_exists.1 hruns
  refine ⟨s, hs, time_ordered 4 4096 {} firstBoot _ s (by rintro i f ⟨⟩) hs ?_⟩
  intro es₁ e es₂ m hes hm
  rcases es₁ with _ | ⟨e₁, _ | ⟨e₂, _ | ⟨e₃, _ | ⟨e₄, _ | ⟨e₅, _ | ⟨e₆, _ | ⟨e₇, es₁⟩⟩⟩⟩⟩⟩⟩ <;>
    simp [opened] at hes
  · rw [← hes.1]; trivial
  · obtain ⟨rfl, rfl, -⟩ := hes
    cases hm
    rintro r ⟨⟩
  · rw [← hes.2.2.1]; trivial
  · rw [← hes.2.2.2.1]; trivial
  · obtain ⟨rfl, rfl, rfl, rfl, rfl, -⟩ := hes
    change run _ _ (opened ++ [.taskLoggerStamps 1000]) = some m at hm
    rw [hm] at hopened
    obtain ⟨hnewest, hlogger⟩ := Prod.mk.inj (Option.some.inj hopened)
    intro _ timeUs ht
    rw [hlogger] at ht
    cases ht
    rw [hnewest]
    decide
  · rw [← hes.2.2.2.2.2.1]; trivial
  · rw [← hes.2.2.2.2.2.2.1]; trivial

end BoredomOS.Log
