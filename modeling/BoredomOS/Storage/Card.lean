/-
The card as `SdData` uses it: the files `data<i>.BIN`, each a list of appended pieces of which a
prefix is synced, and `index.bin`. Creating, appending, syncing, removing and the four-byte
overwrite of the index are each one atomic operation; a power cut leaves every file at its last
synced length. What the statements about runs speak of is kept beside the data and never read:
which pass through the ring a piece was written in, in which order, and what was deleted.
-/
import Mathlib.Logic.Function.Basic
import BoredomOS.Lib.LittleEndian

namespace BoredomOS.Storage

/-- What is appended in one piece, and the bytes it puts into the file. -/
class Payload (κ : Type) where
  bytes : κ → List UInt8

instance : Payload (List UInt8) := ⟨id⟩

/-- A piece in a file, with the pass through the ring it was appended in and its place in the order
of all appends. -/
structure Piece (κ : Type) where
  payload : κ
  pass : Nat
  seq : Nat
  deriving DecidableEq, Repr

/-- A `data<i>.BIN`: what was appended to it, how many pieces of that are synced, and the pass that
created it. -/
structure File (κ : Type) where
  pieces : List (Piece κ) := []
  synced : Nat := 0
  born : Nat
  deriving DecidableEq, Repr

/-- `slots i` is `data<i>.BIN` and `index` is `index.bin`; `writable` is whether the library opens
files for writing. For the record: the current pass and the slot it writes, the number of appends
so far, and the pieces of the files removed, oldest first. -/
structure Card (κ : Type) where
  slots : Nat → Option (File κ) := fun _ => none
  index : Option (List UInt8) := none
  writable : Bool := true
  pass : Nat := 0
  lastSlot : Option Nat := none
  appended : Nat := 0
  deleted : List (Piece κ) := []

variable {κ : Type} [Payload κ]

/-! ## Files -/

def sizeOfPieces (pieces : List (Piece κ)) : Nat := (pieces.map fun p => (Payload.bytes p.payload).length).sum

/-- The length the handle that appends knows. -/
def File.size (f : File κ) : Nat := sizeOfPieces f.pieces

/-- The length in the directory entry: what any other handle sees, and what a cut leaves. -/
def File.syncedSize (f : File κ) : Nat := sizeOfPieces (f.pieces.take f.synced)

/-- The bytes of the file, as a handle reads them. -/
def File.content (f : File κ) : List UInt8 := f.pieces.flatMap fun p => Payload.bytes p.payload

def File.payloads (f : File κ) : List κ := f.pieces.map Piece.payload

def File.append (f : File κ) (p : Piece κ) : File κ := { f with pieces := f.pieces ++ [p] }

def File.sync (f : File κ) : File κ := { f with synced := f.pieces.length }

/-- The file after a cut. -/
def File.cut (f : File κ) : File κ := { f with pieces := f.pieces.take f.synced, synced := min f.synced f.pieces.length }

/-- The bytes up to the last sync: what another handle reads, and what a cut leaves. -/
def File.image (f : File κ) : List UInt8 := f.cut.content

/-! ## The index -/

/-- The `int` that `readBytes` leaves after at most four bytes, from an `int` that was 0. -/
def indexValue (bytes : List UInt8) : Int :=
  let v := LittleEndian.toNat (bytes.take 4)
  if v < 2 ^ 31 then (v : Int) else (v : Int) - 2 ^ 32

/-- The four bytes of an `int` that is not negative. -/
def indexBytes (i : Nat) : List UInt8 := LittleEndian.ofNat 4 i

theorem indexValue_indexBytes {i : Nat} (h : i < 2 ^ 31) (rest : List UInt8) :
    indexValue (indexBytes i ++ rest) = i := by
  have htake : (indexBytes i ++ rest).take 4 = indexBytes i := by
    rw [List.take_append_of_le_length (by simp [indexBytes]), List.take_of_length_le (by simp [indexBytes])]
  have hbound : i < 256 ^ 4 := by omega
  have hval : LittleEndian.toNat (indexBytes i) = i := by rw [indexBytes, LittleEndian.toNat_ofNat hbound]
  simp only [indexValue, htake, hval, if_pos h]

/-! ## Operations of the card -/

namespace Card

/-- Change the file in a slot, if there is one. -/
def alter (c : Card κ) (i : Nat) (f : File κ → File κ) : Card κ :=
  { c with slots := Function.update c.slots i ((c.slots i).map f) }

/-- `SD.open(data<i>.BIN, FILE_WRITE)`: creates the file if it is absent. Opening another slot than
the one written so far, or a new file, begins a pass. -/
def openSlot (c : Card κ) (i : Nat) : Card κ :=
  match c.slots i with
  | some _ => { c with pass := if c.lastSlot = some i then c.pass else c.pass + 1, lastSlot := some i }
  | none => { c with
      slots := Function.update c.slots i (some { born := c.pass + 1 })
      pass := c.pass + 1, lastSlot := some i }

/-- One `write()` on the handle of a slot. -/
def append (c : Card κ) (i : Nat) (data : κ) : Card κ :=
  { c.alter i fun f => f.append ⟨data, c.pass, c.appended⟩ with appended := c.appended + 1 }

/-- `flush()`, or the sync of `close()`. -/
def sync (c : Card κ) (i : Nat) : Card κ := c.alter i File.sync

def remove (c : Card κ) (i : Nat) : Card κ :=
  { c with
    slots := Function.update c.slots i none
    deleted := c.deleted ++ match c.slots i with
      | some f => f.pieces
      | none => [] }

/-- `SD.open(index.bin, O_WRITE | O_CREAT)` -/
def createIndex (c : Card κ) : Card κ := { c with index := some (c.index.getD []) }

/-- The first four bytes of `index.bin`, replaced. -/
def overwriteIndex (c : Card κ) (i : Nat) : Card κ :=
  { c with index := c.index.map fun bytes => indexBytes i ++ bytes.drop 4 }

/-- Power is lost: every file is back at its last synced length. -/
def cut (c : Card κ) : Card κ := { c with slots := fun i => (c.slots i).map File.cut }

end Card

end BoredomOS.Storage
