/-
`TaskSdWrite` of `src/sdwrite.cpp`: the records it logs and the downloads it serves over the two
ports. Both streams read through one handle; a handle whose file was removed may read anything.
Kept beside the task and never read: what each request's id named when it was processed, and which
slot and generation each answer was read from.
-/
import BoredomOS.Log.Format

namespace BoredomOS.Link

/-- `LINK_CHAN_UART` and `LINK_CHAN_USB` of `include/Link.h`; a port's index is its channel. -/
def linkChanUart : Fin 2 := 0

def linkChanUsb : Fin 2 := 1

end BoredomOS.Link

namespace BoredomOS.Log

open Storage (Card File Sys)

/-! ## What is posted -/

structure LogEntry where
  timeUtc : UInt32
  size : UInt32
  id : UInt16
  numLogs : UInt16
  lastLogNum : UInt16
  deriving DecidableEq, Repr

structure LogData where
  ofs : UInt32
  id : UInt16
  count : UInt8
  data : Vector UInt8 90
  deriving DecidableEq

inductive LinkMsg
  | logEntry (m : LogEntry)
  | logData (m : LogData)
  deriving DecidableEq

/-- The file an id named: its generation, and its bytes up to the last sync. -/
structure Named where
  born : Nat
  image : List UInt8
  deriving DecidableEq, Repr

/-- A message for a port's write queue, which takes it or is full. For the record: what the request
it answers named, and the slot and the generation its bytes were read from. -/
structure Post where
  port : Fin 2
  msg : LinkMsg
  named : Option Named
  source : Option (Nat × Nat)
  deriving DecidableEq

/-! ## The task -/

structure LogListing where
  active : Bool := false
  start : UInt16 := 0
  «end» : UInt16 := 0
  nextSlot : UInt8 := 0
  deriving DecidableEq, Repr

structure LogStream where
  active : Bool := false
  absent : Bool := false
  slot : Int8 := 0
  id : UInt16 := 0
  pos : UInt32 := 0
  «end» : UInt32 := 0
  toFileEnd : Bool := false
  sentAny : Bool := false
  lastCount : UInt8 := 0
  deriving DecidableEq

/-- An open reading handle: its slot and the generation it was opened on, the length the directory
entry gave then, and the offset. -/
structure Handle where
  slot : Nat
  born : Nat
  size : Nat
  pos : Nat
  deriving DecidableEq, Repr

/-- `readerPort` is `none` for -1. -/
structure TaskSdWrite where
  sdData : Sys LogPiece
  listings : Fin 2 → LogListing := fun _ => {}
  streams : Fin 2 → LogStream := fun _ => {}
  reader : Option Handle := none
  readerPort : Option (Fin 2) := none
  nextPort : Fin 2 := 0
  posted : List Post := []
  named : Fin 2 → Option Named := fun _ => none

/-- `(port + 1) % 2` -/
def otherPort (port : Fin 2) : Fin 2 := port + 1

def kLogDataChunk : Nat := 90
def kHeadTimeOffset : Nat := kPreamble.length * sizeofLogFormat

/-- `SystemTime::Source::None` -/
def sourceNone : UInt8 := 3

/-! ## Reading the card -/

/-- The file `slotFileName(slot)` names. No negative number names one. -/
def fileAt (c : Card LogPiece) (slot : Int) : Option (File LogPiece) :=
  if slot < 0 then none else c.slots slot.toNat

def slotSize (c : Card LogPiece) (slot : Int) : UInt32 :=
  match fileAt c slot with
  | none => 0
  | some f => UInt32.ofNat f.image.length

def slotTimeUtc (c : Card LogPiece) (slot : Int) : UInt32 :=
  match fileAt c slot with
  | none => 0
  | some f =>
    let head := (f.image.drop kHeadTimeOffset).take sizeofLogTime
    if head.length < sizeofLogTime ∨ head.take 3 ≠ header kMsgTime ∨ head.getD 15 0 = sourceNone then 0
    else UInt32.ofNat (LittleEndian.toNat ((head.drop 11).take 4))

/-- Up to `want` bytes, and where they are from; with the file gone, `noise`. -/
def Handle.read (h : Handle) (c : Card LogPiece) (want : Nat) (noise : List UInt8) : List UInt8 × Option (Nat × Nat) :=
  let n := min want (h.size - h.pos)
  match c.slots h.slot with
  | some f => if f.born = h.born then ((f.content.drop h.pos).take n, some (h.slot, h.born)) else (noise.take n, none)
  | none => (noise.take n, none)

/-! ## Requests -/

namespace TaskSdWrite

def card (t : TaskSdWrite) : Card LogPiece := t.sdData.card

def fileCount (t : TaskSdWrite) : Nat := t.sdData.data.files

def currentFile (t : TaskSdWrite) : Nat := t.sdData.data.fileIdx

def setListing (t : TaskSdWrite) (port : Fin 2) (listing : LogListing) : TaskSdWrite :=
  { t with listings := Function.update t.listings port listing }

def setStream (t : TaskSdWrite) (port : Fin 2) (stream : LogStream) : TaskSdWrite :=
  { t with streams := Function.update t.streams port stream }

@[simp] theorem listings_setListing (t : TaskSdWrite) (port : Fin 2) (listing : LogListing) :
    (t.setListing port listing).listings port = listing := Function.update_self ..

@[simp] theorem streams_setStream (t : TaskSdWrite) (port : Fin 2) (stream : LogStream) :
    (t.setStream port stream).streams port = stream := Function.update_self ..

def closeReader (t : TaskSdWrite) : TaskSdWrite := { t with reader := none, readerPort := none }

/-- `xQueueSend` on the port's write queue. -/
def send (t : TaskSdWrite) (port : Fin 2) (msg : LinkMsg) (source : Option (Nat × Nat)) : TaskSdWrite :=
  { t with posted := t.posted ++ [{ port, msg, named := t.named port, source }] }

def startListing (t : TaskSdWrite) (port : Fin 2) (request : SdLogRequestPayload) : TaskSdWrite :=
  t.setListing port { active := true, start := request.start, «end» := request.end, nextSlot := 0 }

def endStream (t : TaskSdWrite) (port : Fin 2) : TaskSdWrite :=
  let t := t.setStream port { t.streams port with active := false }
  if t.readerPort = some port then t.closeReader else t

/-- What the request asks for, with `size` the length a download would deliver now. -/
def streamOf (request : SdLogRequestPayload) (slot : Int) (size : UInt32) : LogStream :=
  let available := if request.ofs < size then size - request.ofs else 0
  { active := true
    absent := size = 0
    slot := Int8.ofInt slot
    id := request.start
    pos := request.ofs
    «end» := if request.count ≥ available then size else request.ofs + request.count
    toFileEnd := request.count ≥ available
    sentAny := false
    lastCount := 0 }

def startStream (t : TaskSdWrite) (port : Fin 2) (request : SdLogRequestPayload) : TaskSdWrite :=
  let t := t.endStream port
  let slot : Int := (request.start.toNat : Int) - 1
  let size := if 0 ≤ slot ∧ slot < t.fileCount then slotSize t.card slot else 0
  { t.setStream port (streamOf request slot size) with
    named := Function.update t.named port ((fileAt t.card slot).map fun f => ⟨f.born, f.image⟩) }

/-- `postLogData()` with no bytes: the file is absent, has ended, or is gone. -/
def postNoData (t : TaskSdWrite) (port : Fin 2) : TaskSdWrite :=
  let stream := t.streams port
  t.send port (.logData { id := stream.id, ofs := stream.pos, count := 0, data := chars 90 [] }) none

/-! ## Service -/

def numLogs (t : TaskSdWrite) : UInt16 :=
  UInt16.ofNat ((List.range t.fileCount).countP fun slot => (t.card.slots slot).isSome)

def lastLogNum (t : TaskSdWrite) : UInt16 :=
  match ((List.range t.fileCount).filter fun slot => (t.card.slots slot).isSome).getLast? with
  | none => 0
  | some slot => UInt16.ofNat (slot + 1)

/-- The loop of `serviceListing()`: the listing, and the slot to report with its size. `nextSlot` is
a byte: a ring of 256 files or more never ends the loop, and then there is no result. -/
def nextListed (t : TaskSdWrite) : Nat → LogListing → Option (LogListing × Option (Nat × UInt32))
  | 0, _ => none
  | fuel + 1, listing =>
    if listing.nextSlot.toNat < t.fileCount then
      let slot := listing.nextSlot.toNat
      let listing := { listing with nextSlot := listing.nextSlot + 1 }
      let id := UInt16.ofNat (slot + 1)
      if id < listing.start ∨ id > listing.end then nextListed t fuel listing
      else if slotSize t.card slot = 0 then nextListed t fuel listing
      else some (listing, some (slot, slotSize t.card slot))
    else some (listing, none)

/-- `serviceListing()`, if its loop ends: 256 passes are back at the same `nextSlot`. -/
def serviceListing (t : TaskSdWrite) (port : Fin 2) : Option TaskSdWrite :=
  (t.nextListed 257 (t.listings port)).map fun
    | (listing, some (slot, size)) =>
      (t.setListing port listing).send port (.logEntry {
        id := UInt16.ofNat (slot + 1), numLogs := t.numLogs, lastLogNum := t.lastLogNum
        timeUtc := slotTimeUtc t.card slot, size }) none
    | (listing, none) => t.setListing port { listing with active := false }

/-- On a ring of at most 255 files the loop ends: each pass moves `nextSlot` on without a wrap. -/
theorem nextListed_isSome {t : TaskSdWrite} (hfiles : t.fileCount ≤ 255) : ∀ {fuel : Nat} {listing : LogListing},
    0 < fuel → t.fileCount < fuel + listing.nextSlot.toNat → (t.nextListed fuel listing).isSome = true
  | 0, _, hpos, _ => absurd hpos (Nat.lt_irrefl 0)
  | fuel + 1, listing, _, hfuel => by
    unfold nextListed
    split
    · rename_i hlt
      have hnext : (listing.nextSlot + 1).toNat = listing.nextSlot.toNat + 1 := by
        rw [UInt8.toNat_add, UInt8.toNat_one]
        omega
      have hmore : ∀ l : LogListing, l.nextSlot = listing.nextSlot + 1 → (t.nextListed fuel l).isSome = true := by
        intro l hl
        apply nextListed_isSome hfiles
        · omega
        · rw [hl, hnext]
          omega
      dsimp only
      split
      · exact hmore _ rfl
      · split
        · exact hmore _ rfl
        · rfl
    · rfl

theorem serviceListing_isSome {t : TaskSdWrite} (hfiles : t.fileCount ≤ 255) (port : Fin 2) :
    (t.serviceListing port).isSome = true := by
  rw [serviceListing, Option.isSome_map]
  exact nextListed_isSome hfiles (by omega) (by omega)

/-- The chunk behind the handle: at most 90 bytes, and nothing past the stream's end. -/
def readChunk (t : TaskSdWrite) (port : Fin 2) (noise : List UInt8) : TaskSdWrite :=
  let stream := t.streams port
  match t.reader with
  | none => t.endStream port
  | some h =>
    let want := min (stream.end - stream.pos).toNat kLogDataChunk
    let (data, source) := h.read t.card want noise
    if data.isEmpty then t.endStream port
    else
      let t := t.send port (.logData {
        id := stream.id, ofs := stream.pos, count := UInt8.ofNat data.length, data := chars 90 data }) source
      { t.setStream port { stream with
          pos := stream.pos + UInt32.ofNat data.length, sentAny := true, lastCount := UInt8.ofNat data.length } with
        reader := some { h with pos := h.pos + data.length } }

def serviceStream (t : TaskSdWrite) (port : Fin 2) (noise : List UInt8) : TaskSdWrite :=
  let stream := t.streams port
  if stream.absent then (t.postNoData port).setStream port { stream with active := false }
  else if stream.pos ≥ stream.end then
    -- a range that stops short of the file's end is not the end of the log
    if stream.toFileEnd && (!stream.sentAny || stream.lastCount.toNat = kLogDataChunk) then
      (t.postNoData port).endStream port
    else t.endStream port
  else if t.readerPort = some port then t.readChunk port noise
  else if t.readerPort.isSome then t
  else
    match fileAt t.card stream.slot.toInt with
    | none => { t with reader := none }.endStream port
    | some f =>
      let pos := if stream.pos.toNat ≤ f.image.length then stream.pos.toNat else 0
      { t with
        reader := some { slot := stream.slot.toInt.toNat, born := f.born, size := f.image.length, pos }
        readerPort := some port }.readChunk port noise

/-! ## The loop -/

/-- A download of the slot a write has just moved into ends. -/
def endReplaced (after : Nat) (t : TaskSdWrite) (port : Fin 2) : TaskSdWrite :=
  let stream := t.streams port
  if stream.active && !stream.absent && stream.slot.toInt = after then (t.postNoData port).endStream port else t

/-- `writeRecord()`, with what is read if the write opens a file. -/
def writeRecord (t : TaskSdWrite) (incoming : SdRecord) (o : Opening) : TaskSdWrite :=
  match Log.writeRecord incoming with
  | none => t
  | some record =>
    let t' := { t with sdData := ((Storage.write (some record) (writeLogPreamble o)).run t.sdData).2 }
    if t'.currentFile ≠ t.currentFile then (t'.endReplaced t'.currentFile 0).endReplaced t'.currentFile 1 else t'

/-- The port of a request. The array has two, and `TaskMavlink` sends no other. -/
def portOf (request : SdLogRequestPayload) : Option (Fin 2) :=
  if h : request.port.toNat < 2 then some ⟨request.port.toNat, h⟩ else none

/-- One record off `sdWriteQueue`. -/
def receive (t : TaskSdWrite) (incoming : SdRecord) (o : Opening) : Option TaskSdWrite :=
  match incoming with
  | .logList request => (portOf request).map fun port => t.startListing port request
  | .logRead request => (portOf request).map fun port => t.startStream port request
  | .logEnd request => (portOf request).map fun port => t.endStream port
  | _ => some (t.writeRecord incoming o)

/-- The download work of one pass: at most one piece, for a port that has room. -/
def serve (t : TaskSdWrite) (room : Fin 2 → Bool) (noise : List UInt8) : Option TaskSdWrite :=
  match [t.nextPort, t.nextPort + 1].find? fun port =>
      ((t.listings port).active || (t.streams port).active) && room port with
  | none => some t
  | some port =>
    let served := if (t.listings port).active then t.serviceListing port else some (t.serviceStream port noise)
    served.map fun t => { t with nextPort := port + 1 }

/-- The port `serve` turns to. -/
def servedPort (t : TaskSdWrite) (room : Fin 2 → Bool) : Option (Fin 2) :=
  [t.nextPort, t.nextPort + 1].find? fun port => ((t.listings port).active || (t.streams port).active) && room port

/-- The task once `begin()` returned, on whatever card. -/
def boot (files size : Nat) (c : Card LogPiece) (o : Opening) : TaskSdWrite where
  sdData := ((Storage.begin (writeLogPreamble o)).run ⟨c, { files, size }⟩).2

end TaskSdWrite

/-- A port that is served has room, and a listing or a stream. -/
theorem servedPort_some {t : TaskSdWrite} {room : Fin 2 → Bool} {port : Fin 2} (h : t.servedPort room = some port) :
    ((t.listings port).active || (t.streams port).active) = true ∧ room port = true := by
  have hsome := List.find?_some h
  exact Bool.and_eq_true_iff.1 hsome

/-- All that the download work of a pass can do: nothing, or one piece of a listing or of a stream. -/
theorem serve_cases {t t' : TaskSdWrite} {room : Fin 2 → Bool} {noise : List UInt8} (hserve : t.serve room noise = some t') :
    t.servedPort room = none ∧ t' = t ∨
      ∃ port served, t.servedPort room = some port ∧ room port = true ∧ t' = { served with nextPort := port + 1 } ∧
        ((t.listings port).active = true ∧ t.serviceListing port = some served ∨
          (t.listings port).active = false ∧ (t.streams port).active = true ∧ served = t.serviceStream port noise) := by
  unfold TaskSdWrite.serve at hserve
  split at hserve
  · rename_i hnone
    cases hserve
    exact Or.inl ⟨hnone, rfl⟩
  rename_i port hfound
  obtain ⟨hwork, hroom⟩ := servedPort_some hfound
  obtain ⟨served, hserved, rfl⟩ := Option.map_eq_some_iff.1 hserve
  refine Or.inr ⟨port, served, hfound, hroom, rfl, ?_⟩
  cases hlisting : (t.listings port).active with
  | true =>
    rw [if_pos hlisting] at hserved
    exact Or.inl ⟨rfl, hserved⟩
  | false =>
    rw [if_neg (by simp [hlisting])] at hserved
    cases hserved
    exact Or.inr ⟨rfl, by simpa [hlisting] using hwork, rfl⟩

theorem streams_endStream (t : TaskSdWrite) (p q : Fin 2) :
    (t.endStream p).streams q = if q = p then { t.streams p with active := false } else t.streams q := by
  have hset : (t.setStream p { t.streams p with active := false }).streams q =
      if q = p then { t.streams p with active := false } else t.streams q := Function.update_apply ..
  unfold TaskSdWrite.endStream
  dsimp only
  split <;> exact hset

inductive TaskEv
  /-- a record or a request is received, and an opening behind it would read `o` -/
  | received (incoming : SdRecord) (o : Opening)
  /-- download work, with the ports that have room and what a stale handle would read -/
  | served (room : Fin 2 → Bool) (noise : List UInt8)

def TaskSdWrite.step (t : TaskSdWrite) : TaskEv → Option TaskSdWrite
  | .received incoming o => t.receive incoming o
  | .served room noise => t.serve room noise

end BoredomOS.Log
