/-
The log's on-disk format of `src/sdwrite.cpp`: the packed records as the bytes the processor writes,
the preamble of every opening and the record of every `SdRecord`. Each piece is the bytes of
DataFlash items, so a file that keeps `DataFlash.Described` can be read back from its own bytes; the
preamble makes any file ready for records, whatever was cut off before it.
-/
import BoredomOS.Lib.DataFlash
import BoredomOS.Log.Record
import BoredomOS.Recovery.Boot
import BoredomOS.Storage.Footprint

namespace BoredomOS.Log

open DataFlash (Kind Value Definition Item)

/-! ## Records -/

def kHead1 : UInt8 := 0xA3
def kHead2 : UInt8 := 0x95

def kMsgFmt : UInt8 := 128
def kMsgTime : UInt8 := 129
def kMsgSys : UInt8 := 130
def kMsgPwr : UInt8 := 131
def kMsgRst : UInt8 := 132

/-- `head1`, `head2` and `msgid`, with which every record opens. -/
def header (msgid : UInt8) : List UInt8 := [kHead1, kHead2, msgid]

structure LogFormat where
  type : UInt8
  length : UInt8
  name : Vector UInt8 4
  format : Vector UInt8 16
  labels : Vector UInt8 64
  deriving DecidableEq

structure LogTime where
  timeUs : UInt64
  unixtime : UInt32
  source : UInt8
  deriving DecidableEq

structure LogSys where
  timeUs : UInt64
  heapFree : UInt16
  «stacks» : Vector UInt16 7
  deriving DecidableEq

structure LogPwr where
  timeUs : UInt64
  millivolts : UInt16
  remaining : Int8
  deriving DecidableEq

structure LogRst where
  timeUs : UInt64
  reason : UInt8
  phase : UInt8
  consecutive : UInt8
  cumulative : UInt8
  task : Vector UInt8 16
  deriving DecidableEq

section Bytes

open LittleEndian (ofNat)

def LogFormat.bytes (r : LogFormat) : List UInt8 :=
  header kMsgFmt ++ [r.type, r.length] ++ r.name.toList ++ r.format.toList ++ r.labels.toList

def LogTime.bytes (r : LogTime) : List UInt8 :=
  header kMsgTime ++ ofNat 8 r.timeUs.toNat ++ ofNat 4 r.unixtime.toNat ++ [r.source]

def LogSys.bytes (r : LogSys) : List UInt8 :=
  header kMsgSys ++ ofNat 8 r.timeUs.toNat ++ ofNat 2 r.heapFree.toNat ++
    r.«stacks».toList.flatMap fun mark => ofNat 2 mark.toNat

def LogPwr.bytes (r : LogPwr) : List UInt8 :=
  header kMsgPwr ++ ofNat 8 r.timeUs.toNat ++ ofNat 2 r.millivolts.toNat ++ [r.remaining.toUInt8]

def LogRst.bytes (r : LogRst) : List UInt8 :=
  header kMsgRst ++ ofNat 8 r.timeUs.toNat ++ [r.reason, r.phase, r.consecutive, r.cumulative] ++ r.task.toList

end Bytes

def sizeofLogFormat : Nat := 89
def sizeofLogTime : Nat := 16
def sizeofLogSys : Nat := 27
def sizeofLogPwr : Nat := 14
def sizeofLogRst : Nat := 31

@[simp] theorem LogFormat.length_bytes (r : LogFormat) : r.bytes.length = sizeofLogFormat := by
  simp [LogFormat.bytes, header, sizeofLogFormat]

@[simp] theorem LogTime.length_bytes (r : LogTime) : r.bytes.length = sizeofLogTime := by
  simp [LogTime.bytes, header, sizeofLogTime]

@[simp] theorem LogSys.length_bytes (r : LogSys) : r.bytes.length = sizeofLogSys := by
  simp [LogSys.bytes, header, sizeofLogSys, List.length_flatMap]

@[simp] theorem LogPwr.length_bytes (r : LogPwr) : r.bytes.length = sizeofLogPwr := by
  simp [LogPwr.bytes, header, sizeofLogPwr]

@[simp] theorem LogRst.length_bytes (r : LogRst) : r.bytes.length = sizeofLogRst := by
  simp [LogRst.bytes, header, sizeofLogRst]

/-! ## The preamble -/

def ascii (s : String) : List UInt8 := s.toList.map fun c => UInt8.ofNat c.toNat

/-- A `char[w]`, zeros behind the text. -/
def chars (w : Nat) (text : List UInt8) : Vector UInt8 w :=
  ⟨((text ++ List.replicate w 0).take w).toArray, by simp⟩

/-- `strncpy` into a `char[w]`. -/
def strncpy (w : Nat) (src : List UInt8) : Vector UInt8 w := chars w (src.takeWhile (· ≠ 0))

def fmtFormat : LogFormat where
  type := kMsgFmt
  length := UInt8.ofNat sizeofLogFormat
  name := chars 4 (ascii "FMT")
  format := chars 16 (ascii "BBnNZ")
  labels := chars 64 (ascii "Type,Length,Name,Format,Columns")

def timeFormat : LogFormat where
  type := kMsgTime
  length := UInt8.ofNat sizeofLogTime
  name := chars 4 (ascii "TIME")
  format := chars 16 (ascii "QIB")
  labels := chars 64 (ascii "TimeUS,Unix,Src")

def sysFormat : LogFormat where
  type := kMsgSys
  length := UInt8.ofNat sizeofLogSys
  name := chars 4 (ascii "SYS")
  format := chars 16 (ascii "QHHHHHHHH")
  labels := chars 64 (ascii "TimeUS,Heap,Log,SdW,Mav,SRd,SWr,URd,UWr")

def pwrFormat : LogFormat where
  type := kMsgPwr
  length := UInt8.ofNat sizeofLogPwr
  name := chars 4 (ascii "PWR")
  format := chars 16 (ascii "QHb")
  labels := chars 64 (ascii "TimeUS,mV,Pct")

def kPreamble : List LogFormat := [fmtFormat, timeFormat, sysFormat, pwrFormat]

def kRstFormat : LogFormat where
  type := kMsgRst
  length := UInt8.ofNat sizeofLogRst
  name := chars 4 (ascii "RST")
  format := chars 16 (ascii "QBBBBN")
  labels := chars 64 (ascii "TimeUS,Rsn,Phase,Cons,Cum,Task")

/-- What goes to the card in one write. -/
inductive LogPiece
  | preamble
  | time (r : LogTime)
  | sys (r : LogSys)
  | pwr (r : LogPwr)
  | rstFormat
  | rst (r : LogRst)
  deriving DecidableEq

instance : Storage.Payload LogPiece where
  bytes
    | .preamble => kPreamble.flatMap LogFormat.bytes
    | .time r => r.bytes
    | .sys r => r.bytes
    | .pwr r => r.bytes
    | .rstFormat => kRstFormat.bytes
    | .rst r => r.bytes

theorem appended_piece (p : LogPiece) : Storage.appended (some p) = [p] := by
  have hbytes : (Storage.Payload.bytes p).isEmpty = false := by cases p <;> rfl
  simp [Storage.appended, hbytes]

/-- What `writeLogPreamble` reads at one opening: the clock, for TIME and again for RST, and what
`setup()` captured of the previous boot. -/
structure Opening where
  timeUs : UInt64
  unixTime : UInt64
  source : UInt8
  resetTimeUs : UInt64
  boot : Recovery.BootInfo
  deriving DecidableEq, Repr

/-- `writeLogPreamble()`: the four calls of `writeRaw`. -/
def writeLogPreamble (o : Opening) : List (Option LogPiece) :=
  let record : LogTime := { timeUs := o.timeUs, unixtime := o.unixTime.toUInt32, source := o.source }
  let faulted := o.boot.previousBootPhase = .stackOverflowFault ∨ o.boot.previousBootPhase = .mallocFailedFault
  let reset : LogRst := {
    timeUs := o.resetTimeUs
    reason := o.boot.previousResetReason.toByte
    phase := o.boot.previousBootPhase.toByte
    consecutive := o.boot.bootConsecutiveCount
    cumulative := o.boot.bootCumulativeCount
    task := if faulted then strncpy 16 o.boot.previousFaultTask else chars 16 [] }
  [some .preamble, some (.time record), some .rstFormat, some (.rst reset)]

/-- The record `writeRecord` hands to `sdData.write()`; it returns before that for a request. -/
def writeRecord : SdRecord → Option LogPiece
  | .sys p => some (.sys { timeUs := p.timeUs, heapFree := p.heapFree, «stacks» := p.«stacks» })
  | .pwr p => some (.pwr { timeUs := p.timeUs, millivolts := p.millivolts, remaining := p.remaining })
  | .time p => some (.time { timeUs := p.timeUs, unixtime := p.unixtime, source := p.source })
  | .logList _ | .logRead _ | .logEnd _ => none

/-! ## What they take of the card -/

theorem preambleBytes_writeLogPreamble (o : Opening) : Storage.preambleBytes (writeLogPreamble o) = 492 := by
  simp only [Storage.preambleBytes, writeLogPreamble, List.map_cons, List.map_nil, List.sum_cons, List.sum_nil, Storage.bytesOf,
    Storage.Payload.bytes, LogTime.length_bytes, LogFormat.length_bytes, LogRst.length_bytes, List.length_flatMap, kPreamble]
  rfl

theorem bytesOf_writeRecord (r : SdRecord) : Storage.bytesOf (writeRecord r) ≤ sizeofLogSys := by
  cases r <;> simp [writeRecord, Storage.bytesOf, Storage.Payload.bytes, sizeofLogSys, sizeofLogTime, sizeofLogPwr]

/-- A call of `TaskSdWrite`. -/
def IsTaskCall : Storage.Call LogPiece → Prop
  | .begin onOpen => ∃ o, onOpen = writeLogPreamble o
  | .write data onOpen => (∃ r, data = writeRecord r) ∧ ∃ o, onOpen = writeLogPreamble o
  | .endLog | .writeRaw _ => False

theorem IsTaskCall.keeps : ∀ {c : Storage.Call LogPiece}, IsTaskCall c → c.Keeps 492 sizeofLogSys
  | .begin _, ⟨o, honOpen⟩ => by
    rw [honOpen]
    exact (preambleBytes_writeLogPreamble o).le
  | .write _ _, ⟨⟨r, hdata⟩, o, honOpen⟩ => by
    rw [hdata, honOpen]
    exact ⟨bytesOf_writeRecord r, (preambleBytes_writeLogPreamble o).le⟩

/-- From an empty card, whatever the task logs and however often the board restarts: a ring of `files` files,
none more than 518 bytes past the limit. -/
theorem log_footprint {files size : Nat} (hfiles : 0 < files) (hsize : 0 < size) {p : Storage.Sys LogPiece}
    (hp : Storage.Passes files size IsTaskCall (Storage.powerOn files size {}) p) :
    ∀ i f, p.card.slots i = some f → i < files ∧ f.size ≤ size + 518 := by
  intro i f hf
  have hrest : Storage.Resting files size 492 (fun _ => size - 1 + 492 + sizeofLogSys)
      (Storage.powerOn files size ({} : Storage.Card LogPiece)) :=
    Storage.resting_powerOn hfiles fun i f hf => by cases hf
  obtain ⟨hslot, hle⟩ := Storage.fits_passes hrest (fun _ => Nat.le_refl _) (hp.mono fun _ => IsTaskCall.keeps) i f hf
  refine ⟨hslot, hle.trans ?_⟩
  show size - 1 + 492 + 27 ≤ size + 518
  omega

/-! ## What a reader should find -/

def LogFormat.values (r : LogFormat) : List Value :=
  [.num r.type.toNat, .num r.length.toNat, .text r.name.toList, .text r.format.toList, .text r.labels.toList]

def LogTime.values (r : LogTime) : List Value := [.num r.timeUs.toNat, .num r.unixtime.toNat, .num r.source.toNat]

def LogSys.values (r : LogSys) : List Value :=
  .num r.timeUs.toNat :: .num r.heapFree.toNat :: r.«stacks».toList.map fun mark => .num mark.toNat

def LogPwr.values (r : LogPwr) : List Value := [.num r.timeUs.toNat, .num r.millivolts.toNat, .num r.remaining.toInt]

def LogRst.values (r : LogRst) : List Value :=
  [.num r.timeUs.toNat, .num r.reason.toNat, .num r.phase.toNat, .num r.consecutive.toNat, .num r.cumulative.toNat,
    .text r.task.toList]

/-- The records a piece stands for, each with its type, its size and the values that were logged. -/
def LogPiece.records : LogPiece → List DataFlash.Record
  | .preamble => kPreamble.map fun r => ⟨kMsgFmt, sizeofLogFormat, r.values⟩
  | .time r => [⟨kMsgTime, sizeofLogTime, r.values⟩]
  | .sys r => [⟨kMsgSys, sizeofLogSys, r.values⟩]
  | .pwr r => [⟨kMsgPwr, sizeofLogPwr, r.values⟩]
  | .rstFormat => [⟨kMsgFmt, sizeofLogFormat, kRstFormat.values⟩]
  | .rst r => [⟨kMsgRst, sizeofLogRst, r.values⟩]

example : (Storage.Payload.bytes (LogPiece.pwr { timeUs := 258, millivolts := 3700, remaining := -1 })) =
    [0xA3, 0x95, 131, 2, 1, 0, 0, 0, 0, 0, 0, 0x74, 0x0E, 0xFF] := by decide

/-! ## Pieces as items -/

def LogFormat.definition (r : LogFormat) : Definition where
  type := r.type
  length := r.length
  name := r.name.toList
  format := r.format.toList
  labels := r.labels.toList

def LogPiece.items : LogPiece → List Item
  | .preamble => kPreamble.map fun r => .fmt r.definition
  | .time r => [.data timeFormat.definition r.values]
  | .sys r => [.data sysFormat.definition r.values]
  | .pwr r => [.data pwrFormat.definition r.values]
  | .rstFormat => [.fmt kRstFormat.definition]
  | .rst r => [.data kRstFormat.definition r.values]

theorem items_record (p : LogPiece) : p.items.map Item.record = p.records := by
  cases p <;> rfl

def timeKinds : List Kind := [.unsigned 8, .unsigned 4, .unsigned 1]
def sysKinds : List Kind := .unsigned 8 :: .unsigned 2 :: List.replicate 7 (.unsigned 2)
def pwrKinds : List Kind := [.unsigned 8, .unsigned 2, .signed 1]
def rstKinds : List Kind := [.unsigned 8, .unsigned 1, .unsigned 1, .unsigned 1, .unsigned 1, .text 16]

theorem LogFormat.regular {r : LogFormat} {ks : List Kind} (hkinds : r.definition.kinds = some ks)
    (hlength : DataFlash.widths ks + 3 = r.length.toNat) (hlabels : r.definition.labelCount = ks.length) :
    r.definition.Regular ks :=
  ⟨by simp [definition], by simp [definition], by simp [definition], hkinds, hlength, hlabels⟩

theorem regular_fmt : fmtFormat.definition.Regular DataFlash.fmtKinds :=
  LogFormat.regular (by decide) (by decide) (by decide)

theorem regular_time : timeFormat.definition.Regular timeKinds := LogFormat.regular (by decide) (by decide) (by decide)

theorem regular_sys : sysFormat.definition.Regular sysKinds := LogFormat.regular (by decide) (by decide) (by decide)

theorem regular_pwr : pwrFormat.definition.Regular pwrKinds := LogFormat.regular (by decide) (by decide) (by decide)

theorem regular_rst : kRstFormat.definition.Regular rstKinds := LogFormat.regular (by decide) (by decide) (by decide)

end BoredomOS.Log
