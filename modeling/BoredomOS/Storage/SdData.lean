/-
`SdData` of `src/lib/SdData`: the ring of log files, its index and its rotation, as programs whose
atomic steps are the operations of the card. What the `onOpen` callback writes through `writeRaw`
is an argument of the operation that may open a file.
-/
import BoredomOS.Lib.Steps
import BoredomOS.Storage.Card

namespace BoredomOS.Storage

open Steps

variable {κ : Type} [Payload κ]

/-- The object: `_files` and `_size`, `_fileIdx`, the slot of the handle `_dataFile` holds, and
`_sinceFlush`. -/
structure SdData where
  files : Nat
  size : Nat
  fileIdx : Nat := 0
  dataFile : Option Nat := none
  sinceFlush : Nat := 0
  deriving DecidableEq, Repr

structure Sys (κ : Type) where
  card : Card κ
  data : SdData

def flushIntervalBytes : Nat := 4096

/-! ## What the card shows -/

/-- `readLogIndex()` -/
def readLogIndex (files : Nat) (index : Option (List UInt8)) : Nat :=
  match index with
  | none => 0
  | some bytes =>
    let idx := indexValue bytes
    if idx < 0 ∨ idx ≥ files then 0 else idx.toNat

/-- `slotIsFull(idx)`: an absent slot is not full, and the size is the directory entry's. -/
def slotIsFull (size : Nat) (c : Card κ) (idx : Nat) : Bool :=
  match c.slots idx with
  | none => false
  | some f => size ≤ f.syncedSize

/-! ## Steps -/

namespace Sys

/-- `_dataFile.close()`, which syncs. -/
def close (s : Sys κ) : Sys κ :=
  match s.data.dataFile with
  | none => s
  | some i => { card := s.card.sync i, data := { s.data with dataFile := none } }

/-- `_dataFile = SD.open(getLogFileName(_fileIdx), FILE_WRITE)` -/
def openDataFile (s : Sys κ) : Sys κ :=
  if s.card.writable then
    { card := s.card.openSlot s.data.fileIdx, data := { s.data with dataFile := some s.data.fileIdx } }
  else { s with data := { s.data with dataFile := none } }

/-- `appendBytes(data, length)`: nothing without an open file, a buffer and a length. -/
def appendBytes (data : Option κ) (s : Sys κ) : Sys κ :=
  match s.data.dataFile, data with
  | some i, some d => if (Payload.bytes d).isEmpty then s else { s with card := s.card.append i d }
  | _, _ => s

/-- `_dataFile.flush()` and the reset of `_sinceFlush` behind it. -/
def flush (s : Sys κ) : Sys κ :=
  match s.data.dataFile with
  | none => s
  | some i => { card := s.card.sync i, data := { s.data with sinceFlush := 0 } }

/-- `_dataFile.size()` -/
def dataFileSize (s : Sys κ) : Nat :=
  match s.data.dataFile with
  | none => 0
  | some i => ((s.card.slots i).map File.size).getD 0

end Sys

/-! ## Programs -/

def closeDataFile : Prog (Sys κ) Unit := .modify Sys.close

/-- `writeLogIndex()`: the open that may create the file, then the four bytes and their flush. -/
def writeLogIndex : Prog (Sys κ) Unit := do
  let writable ← .get fun s => s.card.writable
  .when writable do
    .modify fun s => { s with card := s.card.createIndex }
    .modify fun s => { s with card := s.card.overwriteIndex s.data.fileIdx }

/-- `writeRaw(data, length)`: appends and syncs every time. -/
def writeRaw (data : Option κ) : Prog (Sys κ) Unit := do
  .modify (Sys.appendBytes data)
  .modify Sys.flush

/-- `notifyOpened()`, with what the callback writes. -/
def notifyOpened (onOpen : List (Option κ)) : Prog (Sys κ) Unit :=
  match onOpen with
  | [] => return ()
  | data :: rest => do
    writeRaw data
    notifyOpened rest

/-- Where `begin()` and `openNextSlot()` end: the open of the slot in use, and the preamble. -/
def openAndNotify (onOpen : List (Option κ)) : Prog (Sys κ) Unit := do
  .modify fun s => { s.openDataFile with data := { s.openDataFile.data with sinceFlush := 0 } }
  let opened ← .get fun s => s.data.dataFile.isSome
  .when opened (notifyOpened onOpen)

def openNextSlot (onOpen : List (Option κ)) : Prog (Sys κ) Unit := do
  closeDataFile
  .modify fun s => { s with data := { s.data with
    sinceFlush := 0, fileIdx := (s.data.fileIdx + 1) % s.data.files } }
  let present ← .get fun s => (s.card.slots s.data.fileIdx).isSome
  .when present (.modify fun s => { s with card := s.card.remove s.data.fileIdx })
  writeLogIndex
  openAndNotify onOpen

/-- The walk of `begin()`: the first slot from the indexed one on that is absent or not full. -/
def findResume (files size indexed : Nat) : (left step : Nat) → Prog (Sys κ) (Option Nat)
  | 0, _ => return none
  | left + 1, step => do
    let slot := (indexed + step) % files
    let full ← .get fun s => slotIsFull size s.card slot
    if full then findResume files size indexed left (step + 1) else return some slot

def begin (onOpen : List (Option κ)) : Prog (Sys κ) Unit := do
  closeDataFile
  let data ← .get Sys.data
  let indexed ← .get fun s => readLogIndex s.data.files s.card.index
  match ← findResume data.files data.size indexed data.files 0 with
  | none => do
    .modify fun s => { s with data := { s.data with fileIdx := indexed } }
    openNextSlot onOpen
  | some resume => do
    .modify fun s => { s with data := { s.data with fileIdx := resume } }
    .when (resume ≠ indexed) writeLogIndex
    openAndNotify onOpen

def endLog : Prog (Sys κ) Unit := do
  let opened ← .get fun s => s.data.dataFile.isSome
  .when opened do
    closeDataFile
    .modify fun s => { s with data := { s.data with sinceFlush := 0 } }

def write (data : Option κ) (onOpen : List (Option κ)) : Prog (Sys κ) Unit := do
  let opened ← .get fun s => s.data.dataFile.isSome
  match opened, data with
  | true, some d =>
    .when (!(Payload.bytes d).isEmpty) do
      .modify (Sys.appendBytes (some d))
      .modify fun s => { s with data := { s.data with sinceFlush := s.data.sinceFlush + (Payload.bytes d).length } }
      let due ← .get fun s => decide (flushIntervalBytes ≤ s.data.sinceFlush)
      .when due (.modify Sys.flush)
      let fileSize ← .get Sys.dataFileSize
      let data ← .get Sys.data
      .when (data.size ≤ fileSize) (openNextSlot onOpen)
  | _, _ => return ()

/-! ## The board's life with the card -/

/-- What `TaskSdWrite` asks of the object. -/
inductive Op (κ : Type)
  | begin (onOpen : List (Option κ))
  | write (data : Option κ) (onOpen : List (Option κ))

def Op.prog : Op κ → Prog (Sys κ) Unit
  | .begin onOpen => Storage.begin onOpen
  | .write data onOpen => Storage.write data onOpen

/-- The card, and the object while the board runs. -/
structure Rig (κ : Type) where
  card : Card κ
  data : Option SdData := none

inductive Ev (κ : Type)
  /-- the operation runs to its end -/
  | op (o : Op κ)
  /-- power is lost before the operation's step of that number -/
  | cutIn (o : Op κ) (point : Nat)
  /-- power is lost between operations -/
  | cut
  /-- `index.bin` is lost or goes stale while the board is off -/
  | damage (index : Option (List UInt8))

/-- An `index.bin` that is removed, emptied, out of range, or names a slot that is full. -/
def lostOrStale (files size : Nat) (c : Card κ) (index : Option (List UInt8)) : Bool :=
  match index with
  | none => true
  | some bytes =>
    bytes.isEmpty || indexValue bytes < 0 || files ≤ indexValue bytes || slotIsFull size c (indexValue bytes).toNat

/-- Where an operation starts: `begin()` makes a fresh object after a restart; there is nothing to
write through before it. -/
def Rig.start (files size : Nat) (r : Rig κ) : Op κ → Option (Sys κ)
  | .begin _ => some ⟨r.card, r.data.getD { files, size }⟩
  | .write _ _ => r.data.map fun d => ⟨r.card, d⟩

def Rig.step (files size : Nat) (r : Rig κ) : Ev κ → Option (Rig κ)
  | .op o => (r.start files size o).map fun s =>
    let s' := (o.prog.run s).2
    { card := s'.card, data := some s'.data }
  | .cutIn o point => (r.start files size o).bind fun s =>
    (o.prog.points s)[point]?.map fun p => { card := p.card.cut }
  | .cut => some { card := r.card.cut }
  | .damage index =>
    if r.data.isNone && lostOrStale files size r.card index then some { r with card := { r.card with index } }
    else none

/-- The states an operation passes through, from where it starts. -/
def Rig.within (files size : Nat) (r : Rig κ) (o : Op κ) : List (Sys κ) :=
  match r.start files size o with
  | some s => o.prog.points s
  | none => []

end BoredomOS.Storage
