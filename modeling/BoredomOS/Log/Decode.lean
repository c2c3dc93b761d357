/-
The flight log decodes. Every file of the card, at every point of every run of restarts, records and power
cuts, keeps to the format: the preamble can follow anything, and a record follows the preamble of its opening.
So the reader, which knows only the definition record, consumes the image of any file and gives back each piece
up to the last sync with its values.
-/
import BoredomOS.Log.Format

namespace BoredomOS.Log

open DataFlash (Kind Value Definition Item Described)
open Storage (Payload Rig File Card)

/-! ## The bytes of a piece -/

theorem LogFormat.bytes_item (r : LogFormat) : r.bytes = (Item.fmt r.definition).bytes := by
  simp [LogFormat.bytes, header, Item.bytes, DataFlash.writeFields, DataFlash.fmtKinds, Definition.values,
    Kind.write_unsigned_byte, Kind.write_text, definition, kHead1, kHead2, kMsgFmt, DataFlash.head1, DataFlash.head2,
    DataFlash.fmtType]

theorem write_u64 (n : UInt64) : (Kind.unsigned 8).write (.num n.toNat) = LittleEndian.ofNat 8 n.toNat :=
  Kind.write_unsigned (by have := n.toNat_lt; omega)

theorem write_u32 (n : UInt32) : (Kind.unsigned 4).write (.num n.toNat) = LittleEndian.ofNat 4 n.toNat :=
  Kind.write_unsigned (by have := n.toNat_lt; omega)

theorem write_u16 (n : UInt16) : (Kind.unsigned 2).write (.num n.toNat) = LittleEndian.ofNat 2 n.toNat :=
  Kind.write_unsigned (by have := n.toNat_lt; omega)

theorem writeFields_marks : ∀ marks : List UInt16,
    DataFlash.writeFields (List.replicate marks.length (.unsigned 2)) (marks.map fun mark => .num mark.toNat) =
      marks.flatMap fun mark => LittleEndian.ofNat 2 mark.toNat
  | [] => rfl
  | mark :: marks => by
    have ih := writeFields_marks marks
    unfold DataFlash.writeFields at ih ⊢
    rw [List.length_cons, List.replicate_succ, List.map_cons, List.zipWith_cons_cons, List.flatten_cons, ih, write_u16,
      List.flatMap_cons]

/-- A record's bytes are those of its item, once the body is. -/
theorem data_bytes {d : Definition} {ks : List Kind} (hd : d.Regular ks) {values : List Value} {body : List UInt8}
    (hbody : DataFlash.writeFields ks values = body) : header d.type ++ body = (Item.data d values).bytes := by
  rw [Item.bytes, hd.kinds, Option.getD_some, hbody]
  rfl

theorem LogTime.bytes_item (r : LogTime) : r.bytes = (Item.data timeFormat.definition r.values).bytes := by
  rw [← data_bytes regular_time rfl, LogTime.bytes, List.append_assoc, List.append_assoc]
  simp [timeKinds, LogTime.values, DataFlash.writeFields, write_u64, write_u32, Kind.write_unsigned_byte]
  rfl

theorem LogPwr.bytes_item (r : LogPwr) : r.bytes = (Item.data pwrFormat.definition r.values).bytes := by
  rw [← data_bytes regular_pwr rfl, LogPwr.bytes, List.append_assoc, List.append_assoc]
  simp [pwrKinds, LogPwr.values, DataFlash.writeFields, write_u64, write_u16, Kind.write_signed_byte]
  rfl

theorem LogRst.bytes_item (r : LogRst) : r.bytes = (Item.data kRstFormat.definition r.values).bytes := by
  rw [← data_bytes regular_rst rfl, LogRst.bytes, List.append_assoc, List.append_assoc]
  simp [rstKinds, LogRst.values, DataFlash.writeFields, write_u64, Kind.write_unsigned_byte, Kind.write_text]
  rfl

theorem LogSys.bytes_item (r : LogSys) : r.bytes = (Item.data sysFormat.definition r.values).bytes := by
  have hmarks := writeFields_marks r.stacks.toList
  rw [Vector.length_toList] at hmarks
  rw [← data_bytes regular_sys rfl, LogSys.bytes, List.append_assoc, List.append_assoc, ← hmarks]
  simp [sysKinds, LogSys.values, DataFlash.writeFields, write_u64, write_u16]
  rfl

theorem bytes_items (p : LogPiece) : Payload.bytes p = p.items.flatMap Item.bytes := by
  cases p with
  | preamble =>
    change kPreamble.flatMap LogFormat.bytes = (kPreamble.map fun r => Item.fmt r.definition).flatMap Item.bytes
    rw [List.flatMap_map]
    congr 1
    funext r
    exact r.bytes_item
  | time r => exact r.bytes_item.trans (List.append_nil _).symm
  | sys r => exact r.bytes_item.trans (List.append_nil _).symm
  | pwr r => exact r.bytes_item.trans (List.append_nil _).symm
  | rstFormat => exact kRstFormat.bytes_item.trans (List.append_nil _).symm
  | rst r => exact r.bytes_item.trans (List.append_nil _).symm

/-! ## Values -/

theorem holds_u64 (n : UInt64) : (Kind.unsigned 8).Holds (.num n.toNat) := by
  have := n.toNat_lt
  exact ⟨by omega, by omega⟩

theorem holds_u32 (n : UInt32) : (Kind.unsigned 4).Holds (.num n.toNat) := by
  have := n.toNat_lt
  exact ⟨by omega, by omega⟩

theorem holds_u16 (n : UInt16) : (Kind.unsigned 2).Holds (.num n.toNat) := by
  have := n.toNat_lt
  exact ⟨by omega, by omega⟩

theorem holds_u8 (n : UInt8) : (Kind.unsigned 1).Holds (.num n.toNat) := by
  have := n.toNat_lt
  exact ⟨by omega, by omega⟩

theorem holds_i8 (i : Int8) : (Kind.signed 1).Holds (.num i.toInt) := by
  have hlo := i.le_toInt
  have hhi := i.toInt_lt
  exact ⟨by omega, by omega⟩

theorem holds_marks : ∀ marks : List UInt16,
    List.Forall₂ Kind.Holds (List.replicate marks.length (.unsigned 2)) (marks.map fun mark => .num mark.toNat)
  | [] => .nil
  | mark :: marks => .cons (holds_u16 mark) (holds_marks marks)

theorem LogTime.holds (r : LogTime) : List.Forall₂ Kind.Holds timeKinds r.values :=
  .cons (holds_u64 _) (.cons (holds_u32 _) (.cons (holds_u8 _) .nil))

theorem LogSys.holds (r : LogSys) : List.Forall₂ Kind.Holds sysKinds r.values := by
  have hmarks := holds_marks r.stacks.toList
  rw [Vector.length_toList] at hmarks
  exact .cons (holds_u64 _) (.cons (holds_u16 _) hmarks)

theorem LogPwr.holds (r : LogPwr) : List.Forall₂ Kind.Holds pwrKinds r.values :=
  .cons (holds_u64 _) (.cons (holds_u16 _) (.cons (holds_i8 _) .nil))

theorem LogRst.holds (r : LogRst) : List.Forall₂ Kind.Holds rstKinds r.values :=
  .cons (holds_u64 _) (.cons (holds_u8 _) (.cons (holds_u8 _) (.cons (holds_u8 _) (.cons (holds_u8 _)
    (.cons (Vector.length_toList ..) .nil)))))

/-! ## The format as a discipline -/

def items (pieces : List LogPiece) : List Item := pieces.flatMap LogPiece.items

/-- The latest definition of the type is this one. -/
def Announces (defs : List Definition) (f : LogFormat) : Prop :=
  (defs.find? fun d => d.type = f.definition.type) = some f.definition

/-- Records of every type can be read after these definitions. -/
def Announced (defs : List Definition) : Prop :=
  Announces defs timeFormat ∧ Announces defs sysFormat ∧ Announces defs pwrFormat ∧ Announces defs kRstFormat

theorem ok_data {defs : List Definition} {f : LogFormat} {ks : List Kind} {values : List Value}
    (hf : Announces defs f) (hne : f.type ≠ kMsgFmt) (hreg : f.definition.Regular ks)
    (hvals : List.Forall₂ Kind.Holds ks values) : (Item.data f.definition values).Ok defs :=
  ⟨hne, hf, ks, hreg.kinds, hreg.length, hvals⟩

/-- A file of the log: every record fits the definitions before it, and one that is open has them
all. -/
def logFormat : Storage.Discipline LogPiece where
  good pieces := Described [] (items pieces)
  ready pieces := Announced (DataFlash.definitions [] (items pieces))
  good_nil := trivial
  good_left h := by
    rw [items, List.flatMap_append, DataFlash.described_append] at h
    exact h.1

theorem definitions_items (pieces more : List LogPiece) : DataFlash.definitions [] (items (pieces ++ more)) =
    DataFlash.definitions (DataFlash.definitions [] (items pieces)) (items more) := by
  rw [items, List.flatMap_append, DataFlash.definitions, List.foldl_append]
  rfl

theorem good_append (pieces more : List LogPiece) : logFormat.good (pieces ++ more) ↔
    logFormat.good pieces ∧ Described (DataFlash.definitions [] (items pieces)) (items more) := by
  change Described [] (items (pieces ++ more)) ↔ _
  rw [items, List.flatMap_append, DataFlash.described_append]
  rfl

/-- The definitions after a preamble, whatever was defined before it. -/
def preambleOn (defs : List Definition) : List Definition :=
  kRstFormat.definition :: pwrFormat.definition :: sysFormat.definition :: timeFormat.definition ::
    fmtFormat.definition :: defs

theorem announced_preamble (defs : List Definition) : Announced (preambleOn defs) := ⟨rfl, rfl, rfl, rfl⟩

/-- The preamble reads after anything: TIME has its definition from the constant part, RST from the
record before it. -/
theorem opens_writeLogPreamble (o : Opening) : logFormat.Opens (writeLogPreamble o) := by
  intro pieces hgood
  have happ : (writeLogPreamble o).flatMap Storage.appended = (writeLogPreamble o).filterMap id := by
    simp [writeLogPreamble, appended_piece]
  rw [happ, good_append]
  constructor
  · refine ⟨hgood, ⟨_, regular_fmt⟩, ⟨_, regular_time⟩, ⟨_, regular_sys⟩, ⟨_, regular_pwr⟩,
      ok_data rfl (by decide) regular_time (LogTime.holds _), ⟨_, regular_rst⟩,
      ok_data rfl (by decide) regular_rst (LogRst.holds _), trivial⟩
  · change Announced (DataFlash.definitions [] (items (pieces ++ _)))
    rw [definitions_items]
    exact announced_preamble _

/-- A record reads in a file that is ready, and defines nothing. -/
theorem takes_writeRecord {r : SdRecord} {p : LogPiece} (hp : writeRecord r = some p) : logFormat.Takes (some p) := by
  intro pieces hgood hready
  rw [appended_piece, good_append]
  have hannounced : Announced (DataFlash.definitions [] (items pieces)) := hready
  have hsame : ∀ item, p.items = [item] → (∀ defs, item.define defs = defs) → logFormat.ready (pieces ++ [p]) := by
    intro item hitem hdefine
    change Announced (DataFlash.definitions [] (items (pieces ++ [p])))
    rw [definitions_items, show items [p] = [item] by simp [items, hitem]]
    change Announced (item.define _)
    rw [hdefine]
    exact hannounced
  obtain ⟨htime, hsys, hpwr, -⟩ := hannounced
  cases r with
  | sys q =>
    cases hp
    exact ⟨⟨hgood, ok_data hsys (by decide) regular_sys (LogSys.holds _), trivial⟩, hsame _ rfl fun _ => rfl⟩
  | pwr q =>
    cases hp
    exact ⟨⟨hgood, ok_data hpwr (by decide) regular_pwr (LogPwr.holds _), trivial⟩, hsame _ rfl fun _ => rfl⟩
  | time q =>
    cases hp
    exact ⟨⟨hgood, ok_data htime (by decide) regular_time (LogTime.holds _), trivial⟩, hsame _ rfl fun _ => rfl⟩
  | logList | logRead | logEnd => cases hp

/-- And so does what any record or request hands over. -/
theorem takes_record (r : SdRecord) : logFormat.Takes (writeRecord r) := by
  cases hrecord : writeRecord r with
  | none =>
    intro pieces hgood hready
    rw [show Storage.appended (none : Option LogPiece) = [] from rfl, List.append_nil]
    exact ⟨hgood, hready⟩
  | some p => exact takes_writeRecord hrecord

/-! ## Runs -/

/-- What `TaskSdWrite` does to the log: `begin()`, and `writeRecord()`, each with what is read if it
opens a file. -/
inductive LogOp
  | begin (o : Opening)
  | record (r : SdRecord) (o : Opening)

inductive LogEv
  | op (o : LogOp)
  /-- power is lost before the operation's step of that number -/
  | cutIn (o : LogOp) (point : Nat)
  | cut

/-- What reaches the card: nothing of a request. -/
def LogOp.toOp : LogOp → Option (Storage.Op LogPiece)
  | .begin o => some (.begin (writeLogPreamble o))
  | .record r o => (writeRecord r).map fun p => .write (some p) (writeLogPreamble o)

def LogEv.toEv : LogEv → Option (Storage.Ev LogPiece)
  | .op o => o.toOp.map .op
  | .cutIn o point => o.toOp.map (.cutIn · point)
  | .cut => some .cut

theorem fits_toOp {o : LogOp} {op : Storage.Op LogPiece} (h : o.toOp = some op) : logFormat.OpFits op := by
  cases o with
  | begin o => cases h; exact opens_writeLogPreamble o
  | record r o =>
    obtain ⟨p, hp, rfl⟩ := Option.map_eq_some_iff.1 h
    exact ⟨takes_writeRecord hp, opens_writeLogPreamble o⟩

/-- The image of a file reads back as the records appended to it up to the last sync, and each of
them behind its definition. -/
structure Decodes (f : File LogPiece) : Prop where
  read : DataFlash.readImage f.image = some (f.cut.payloads.flatMap LogPiece.records)
  preceded : DataFlash.Preceded (f.cut.payloads.flatMap LogPiece.records)

theorem decodes_of_good {f : File LogPiece} (h : logFormat.good f.cut.payloads) : Decodes f := by
  have himage : f.image = (items f.cut.payloads).flatMap Item.bytes := by
    rw [items, List.flatMap_assoc, File.image, File.content, File.payloads, List.flatMap_map]
    congr 1
    funext p
    exact bytes_items p.payload
  have hrecords : (items f.cut.payloads).map Item.record = f.cut.payloads.flatMap LogPiece.records := by
    rw [items, List.map_flatMap]
    congr 1
    funext p
    exact items_record p
  have hread := DataFlash.readImage_items h
  have hpreceded := DataFlash.preceded_items h
  change DataFlash.readImage ((items f.cut.payloads).flatMap Item.bytes) = _ at hread
  change DataFlash.Preceded ((items f.cut.payloads).map Item.record) at hpreceded
  rw [← himage, hrecords] at hread
  rw [hrecords] at hpreceded
  exact ⟨hread, hpreceded⟩

/-- Every file on the card decodes. -/
def CardDecodes (c : Card LogPiece) : Prop := ∀ i f, c.slots i = some f → Decodes f

theorem cardDecodes_of_allGood {c : Card LogPiece} (h : logFormat.AllGood c) : CardDecodes c := fun i f hf => by
  have hcut := Storage.allGood_cut h i f.cut (by simp [Card.cut, hf])
  exact decodes_of_good hcut

end BoredomOS.Log
