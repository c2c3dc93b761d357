/-
The DataFlash log format: a reader that knows the marker, the 89-byte definition record and the
widths of the format characters, and takes everything else from the definitions in the file itself.
What a writer must keep for such a reader is `Described`: each record fits the latest definition of
its type. The round trip says that the reader then consumes the whole image and gives every record
back, and that its definition was read before it.
-/
import Mathlib.Data.List.Forall2
import BoredomOS.Lib.LittleEndian

namespace DataFlash

/-! ## Fields -/

/-- What a format character stands for: a little-endian number or a fixed run of characters. -/
inductive Kind
  | unsigned (width : Nat)
  | signed (width : Nat)
  | text (width : Nat)
  deriving DecidableEq, Repr

inductive Value
  | num (i : Int)
  | text (chars : List UInt8)
  deriving DecidableEq, Repr

namespace Kind

def width : Kind → Nat
  | .unsigned w | .signed w | .text w => w

def ofChar (c : UInt8) : Option Kind :=
  match Char.ofNat c.toNat with
  | 'b' => some (.signed 1)
  | 'B' => some (.unsigned 1)
  | 'h' => some (.signed 2)
  | 'H' => some (.unsigned 2)
  | 'i' => some (.signed 4)
  | 'I' => some (.unsigned 4)
  | 'q' => some (.signed 8)
  | 'Q' => some (.unsigned 8)
  | 'n' => some (.text 4)
  | 'N' => some (.text 16)
  | 'Z' => some (.text 64)
  | _ => none

def read : Kind → List UInt8 → Value
  | .unsigned _, bs => .num (LittleEndian.toNat bs)
  | .signed w, bs =>
    let n : Nat := LittleEndian.toNat bs
    .num (if 2 * n < 256 ^ w then (n : Int) else (n : Int) - (256 ^ w : Nat))
  | .text _, bs => .text bs

def write : Kind → Value → List UInt8
  | .unsigned w, .num i | .signed w, .num i => LittleEndian.ofNat w (i % (256 ^ w : Nat)).toNat
  | .text _, .text chars => chars
  | _, _ => []

/-- The values a field of this kind can hold. -/
def Holds : Kind → Value → Prop
  | .unsigned w, .num i => 0 ≤ i ∧ i < (256 ^ w : Nat)
  | .signed w, .num i => -(256 ^ w : Nat) ≤ 2 * i ∧ 2 * i < (256 ^ w : Nat)
  | .text w, .text chars => chars.length = w
  | _, _ => False

instance : ∀ (k : Kind) (v : Value), Decidable (k.Holds v)
  | .unsigned _, .num _ => inferInstanceAs (Decidable (_ ∧ _))
  | .signed _, .num _ => inferInstanceAs (Decidable (_ ∧ _))
  | .text _, .text _ => inferInstanceAs (Decidable (_ = _))
  | .unsigned _, .text _ | .signed _, .text _ | .text _, .num _ => inferInstanceAs (Decidable False)

theorem length_write {k : Kind} {v : Value} (h : k.Holds v) : (k.write v).length = k.width := by
  cases k <;> cases v <;> simp_all [Holds, write, width]

theorem read_write {k : Kind} {v : Value} (h : k.Holds v) : k.read (k.write v) = v := by
  have hpow : ∀ w : Nat, 0 < 256 ^ w := fun w => Nat.pow_pos (by omega)
  cases k with
  | unsigned w =>
    cases v with
    | text => exact h.elim
    | num i =>
      obtain ⟨h0, hlt⟩ := h
      rw [write, read, Int.emod_eq_of_lt h0 hlt, LittleEndian.toNat_ofNat (by omega), Int.toNat_of_nonneg h0]
  | signed w =>
    cases v with
    | text => exact h.elim
    | num i =>
      obtain ⟨hlo, hhi⟩ := h
      have := hpow w
      generalize hp : 256 ^ w = p at *
      rw [write, read, hp]
      rcases Int.lt_or_le i 0 with hneg | hpos
      · have hmod : i % (p : Int) = i + p := by
          rw [← Int.add_emod_right, Int.emod_eq_of_lt (by omega) (by omega)]
        rw [hmod, LittleEndian.toNat_ofNat (by omega)]
        rw [if_neg (by omega)]
        congr 1
        omega
      · rw [Int.emod_eq_of_lt hpos (by omega), LittleEndian.toNat_ofNat (by omega)]
        rw [if_pos (by omega)]
        congr 1
        omega
  | text w =>
    cases v with
    | text => rfl
    | num => exact h.elim

theorem write_unsigned {w n : Nat} (h : n < 256 ^ w) : (unsigned w).write (.num n) = LittleEndian.ofNat w n := by
  rw [write, Int.emod_eq_of_lt (by omega) (by omega), Int.toNat_natCast]

theorem write_unsigned_byte (b : UInt8) : (unsigned 1).write (.num b.toNat) = [b] := by
  have hb := b.toNat_lt
  rw [write_unsigned (by omega), LittleEndian.ofNat, LittleEndian.ofNat, UInt8.ofNat_toNat]

theorem write_text (w : Nat) (chars : List UInt8) : (text w).write (.text chars) = chars := rfl

theorem write_signed_byte (i : Int8) : (signed 1).write (.num i.toInt) = [i.toUInt8] := by
  have hval : (i.toInt % (256 ^ 1 : Nat)).toNat = i.toUInt8.toNat := by
    have := i.toBitVec.toInt_eq_toNat_cond
    have hlt := i.toBitVec.isLt
    change (i.toBitVec.toInt % 256).toNat = i.toBitVec.toNat
    rw [this]
    split <;> omega
  rw [write, hval, LittleEndian.ofNat, LittleEndian.ofNat, UInt8.ofNat_toNat]

end Kind

/-- The fields of a body, which they must fill exactly. -/
def readFields : List Kind → List UInt8 → Option (List Value)
  | [], bs => if bs.isEmpty then some [] else none
  | k :: ks, bs =>
    if bs.length < k.width then none
    else (readFields ks (bs.drop k.width)).map (k.read (bs.take k.width) :: ·)

def writeFields (ks : List Kind) (vs : List Value) : List UInt8 := (List.zipWith Kind.write ks vs).flatten

def widths (ks : List Kind) : Nat := (ks.map Kind.width).sum

theorem length_writeFields : ∀ {ks : List Kind} {vs : List Value}, List.Forall₂ Kind.Holds ks vs →
    (writeFields ks vs).length = widths ks
  | [], [], _ => rfl
  | _ :: _, _ :: _, .cons h hs => by
    have := length_writeFields hs
    simp only [writeFields, widths, List.zipWith_cons_cons, List.flatten_cons, List.length_append, List.map_cons,
      List.sum_cons, Kind.length_write h] at this ⊢
    omega

theorem readFields_writeFields : ∀ {ks : List Kind} {vs : List Value}, List.Forall₂ Kind.Holds ks vs →
    readFields ks (writeFields ks vs) = some vs
  | [], [], _ => rfl
  | k :: ks, v :: vs, .cons h hs => by
    have hlen := Kind.length_write h
    rw [writeFields, List.zipWith_cons_cons, List.flatten_cons, ← writeFields, readFields,
      if_neg (by rw [List.length_append]; omega), ← hlen, List.drop_left, List.take_left, readFields_writeFields hs,
      Kind.read_write h]
    rfl

/-! ## Definitions -/

def head1 : UInt8 := 0xA3
def head2 : UInt8 := 0x95
def fmtType : UInt8 := 128
def fmtLength : Nat := 89

/-- A definition record's own fields: `BBnNZ`. -/
def fmtKinds : List Kind := [.unsigned 1, .unsigned 1, .text 4, .text 16, .text 64]

/-- What a definition record says of a type: its length on disk, its format characters and its
labels, as the padded texts of the record. -/
structure Definition where
  type : UInt8
  length : UInt8
  name : List UInt8
  format : List UInt8
  labels : List UInt8
  deriving DecidableEq, Repr

/-- A padded text up to its first zero. -/
def trim (chars : List UInt8) : List UInt8 := chars.takeWhile (· ≠ 0)

namespace Definition

def kinds (d : Definition) : Option (List Kind) := (trim d.format).mapM Kind.ofChar

/-- The labels are separated by commas. -/
def labelCount (d : Definition) : Nat := (trim d.labels).count 44 + 1

def values (d : Definition) : List Value :=
  [.num d.type.toNat, .num d.length.toNat, .text d.name, .text d.format, .text d.labels]

def ofValues : List Value → Option Definition
  | [.num type, .num length, .text name, .text format, .text labels] =>
    some { type := UInt8.ofNat type.toNat, length := UInt8.ofNat length.toNat, name, format, labels }
  | _ => none

/-- A definition whose record can be written, and whose length and labels agree with its format. -/
structure Regular (d : Definition) (ks : List Kind) : Prop where
  name : d.name.length = 4
  format : d.format.length = 16
  labels : d.labels.length = 64
  kinds : d.kinds = some ks
  length : widths ks + 3 = d.length.toNat
  labelCount : d.labelCount = ks.length

theorem ofValues_values (d : Definition) : ofValues d.values = some d := by
  simp [ofValues, values]

theorem Regular.holds {d : Definition} {ks : List Kind} (h : d.Regular ks) :
    List.Forall₂ Kind.Holds fmtKinds d.values := by
  have ht := d.type.toNat_lt
  have hl := d.length.toNat_lt
  refine .cons ⟨?_, ?_⟩ (.cons ⟨?_, ?_⟩ (.cons h.name (.cons h.format (.cons h.labels .nil)))) <;> simp <;> omega

end Definition

/-! ## The reader -/

/-- A record as read: its type, its length on disk and its fields. -/
structure Record where
  type : UInt8
  size : Nat
  values : List Value
  deriving DecidableEq, Repr

/-- One record at the front of the image, with the definitions read so far, newest first. -/
def readRecord (defs : List Definition) : List UInt8 → Option (Record × List Definition × List UInt8)
  | h1 :: h2 :: type :: rest =>
    if h1 ≠ head1 ∨ h2 ≠ head2 then none
    else if type = fmtType then
      (readFields fmtKinds (rest.take (fmtLength - 3))).bind fun values =>
        (Definition.ofValues values).map fun d => (⟨type, fmtLength, values⟩, d :: defs, rest.drop (fmtLength - 3))
    else
      (defs.find? fun d => d.type = type).bind fun d => d.kinds.bind fun ks =>
        if d.length.toNat < 3 then none
        else (readFields ks (rest.take (d.length.toNat - 3))).map fun values =>
          (⟨type, d.length.toNat, values⟩, defs, rest.drop (d.length.toNat - 3))
  | _ => none

/-- The records of an image, `none` where the reader would have to resynchronise. Every record takes
bytes off the image, so its length is fuel enough. -/
def readAll : Nat → List Definition → List UInt8 → Option (List Record)
  | _, _, [] => some []
  | 0, _, _ :: _ => none
  | fuel + 1, defs, bs => (readRecord defs bs).bind fun o => (readAll fuel o.2.1 o.2.2).map (o.1 :: ·)

def readImage (bs : List UInt8) : Option (List Record) := readAll bs.length [] bs

/-! ## What a writer keeps -/

/-- What a writer appends: a definition, or a record of one. -/
inductive Item
  | fmt (d : Definition)
  | data (d : Definition) (values : List Value)
  deriving DecidableEq, Repr

namespace Item

def bytes : Item → List UInt8
  | .fmt d => head1 :: head2 :: fmtType :: writeFields fmtKinds d.values
  | .data d values => head1 :: head2 :: d.type :: writeFields (d.kinds.getD []) values

def record : Item → Record
  | .fmt d => ⟨fmtType, fmtLength, d.values⟩
  | .data d values => ⟨d.type, d.length.toNat, values⟩

def define (defs : List Definition) : Item → List Definition
  | .fmt d => d :: defs
  | .data _ _ => defs

/-- The item can be read after these definitions. -/
def Ok (defs : List Definition) : Item → Prop
  | .fmt d => ∃ ks, d.Regular ks
  | .data d values => d.type ≠ fmtType ∧ (defs.find? fun d' => d'.type = d.type) = some d ∧
    ∃ ks, d.kinds = some ks ∧ widths ks + 3 = d.length.toNat ∧ List.Forall₂ Kind.Holds ks values

end Item

def definitions (defs : List Definition) (items : List Item) : List Definition := items.foldl Item.define defs

/-- Each item can be read after the definitions before it. -/
def Described : List Definition → List Item → Prop
  | _, [] => True
  | defs, item :: items => item.Ok defs ∧ Described (item.define defs) items

theorem described_append (defs : List Definition) (items more : List Item) :
    Described defs (items ++ more) ↔ Described defs items ∧ Described (definitions defs items) more := by
  induction items generalizing defs with
  | nil => simp [Described, definitions]
  | cons item items ih =>
    simp only [List.cons_append, Described, ih, and_assoc]
    rfl

/-! ## The round trip -/

theorem readRecord_item {defs : List Definition} {item : Item} (h : item.Ok defs) (rest : List UInt8) :
    readRecord defs (item.bytes ++ rest) = some (item.record, item.define defs, rest) := by
  cases item with
  | fmt d =>
    obtain ⟨ks, hd⟩ := h
    have hlen : (writeFields fmtKinds d.values).length = fmtLength - 3 := by
      rw [length_writeFields hd.holds]; rfl
    simp only [Item.bytes, List.cons_append, readRecord, ne_eq, not_true_eq_false, or_self, if_false, if_true,
      ← hlen, List.take_left, List.drop_left, readFields_writeFields hd.holds, Option.bind_some,
      Definition.ofValues_values, Option.map_some]
    rfl
  | data d values =>
    obtain ⟨hne, hfind, ks, hks, hlen, hvals⟩ := h
    have hbody : (writeFields ks values).length = d.length.toNat - 3 := by
      rw [length_writeFields hvals]; omega
    simp only [Item.bytes, List.cons_append, readRecord, ne_eq, not_true_eq_false, or_self, if_false, hne, hfind,
      Option.bind_some, hks, Option.getD_some, if_neg (show ¬ d.length.toNat < 3 by omega), ← hbody, List.take_left,
      List.drop_left, readFields_writeFields hvals, Option.map_some]
    rfl

theorem length_bytes_pos (item : Item) : 0 < item.bytes.length := by
  cases item <;> simp [Item.bytes]

/-- The reader consumes what a writer described, and gives every record back. -/
theorem readAll_items : ∀ {items : List Item} {defs : List Definition} {fuel : Nat}, Described defs items →
    (items.flatMap Item.bytes).length ≤ fuel →
      readAll fuel defs (items.flatMap Item.bytes) = some (items.map Item.record)
  | [], _, fuel, _, _ => by cases fuel <;> rfl
  | item :: items, defs, fuel, ⟨hok, hrest⟩, hfuel => by
    have hpos := length_bytes_pos item
    rw [List.flatMap_cons, List.length_append] at hfuel
    obtain ⟨fuel, rfl⟩ : ∃ m, fuel = m + 1 := ⟨fuel - 1, by omega⟩
    have hone := readRecord_item hok (items.flatMap Item.bytes)
    have hmore : readAll fuel (item.define defs) (items.flatMap Item.bytes) = some (items.map Item.record) :=
      readAll_items hrest (by omega)
    rw [List.flatMap_cons, readAll, hone, Option.bind_some, hmore]
    · rfl
    · intro hnil
      have := congrArg List.length hnil
      simp only [List.length_append, List.length_nil] at this
      omega

theorem readImage_items {items : List Item} (h : Described [] items) :
    readImage (items.flatMap Item.bytes) = some (items.map Item.record) :=
  readAll_items h (Nat.le_refl _)

/-- Every record but a definition is preceded by a definition of its type that agrees with itself
and with the record's length on disk. -/
def Preceded (rs : List Record) : Prop :=
  ∀ pre r post, rs = pre ++ r :: post → r.type ≠ fmtType →
    ∃ q ∈ pre, q.type = fmtType ∧ ∃ d ks, Definition.ofValues q.values = some d ∧ d.type = r.type ∧
      d.length.toNat = r.size ∧ d.kinds = some ks ∧ widths ks + 3 = d.length.toNat ∧ d.labelCount = ks.length

theorem mem_definitions {d : Definition} : ∀ {items : List Item} {defs : List Definition},
    d ∈ definitions defs items → d ∈ defs ∨ .fmt d ∈ items
  | [], _, h => Or.inl h
  | item :: items, defs, h => by
    have hsplit : d ∈ item.define defs ∨ .fmt d ∈ items := mem_definitions (show d ∈ definitions (item.define defs) items from h)
    rcases hsplit with hd | hi
    · cases item with
      | fmt d' =>
        rcases List.mem_cons.1 hd with rfl | hd
        · exact Or.inr (List.mem_cons_self ..)
        · exact Or.inl hd
      | data => exact Or.inl hd
    · exact Or.inr (List.mem_cons_of_mem _ hi)

theorem regular_of_mem {d : Definition} : ∀ {items : List Item} {defs : List Definition}, Described defs items →
    .fmt d ∈ items → ∃ ks, d.Regular ks
  | item :: items, _, ⟨hok, hrest⟩, h => by
    rcases List.mem_cons.1 h with rfl | h
    · exact hok
    · exact regular_of_mem hrest h

theorem preceded_items {items : List Item} (h : Described [] items) : Preceded (items.map Item.record) := by
  intro pre r post hsplit hne
  obtain ⟨before, rest, rfl, hpre, hrest⟩ := List.map_eq_append_iff.1 hsplit
  obtain ⟨item, after, rfl, hr, -⟩ := List.map_eq_cons_iff.1 hrest
  obtain ⟨hbefore, hok, -⟩ := (described_append _ _ _).1 h
  cases item with
  | fmt d => exact absurd (hr ▸ rfl) hne
  | data d values =>
    obtain ⟨-, hfind, -⟩ := hok
    have hmem : Item.fmt d ∈ before :=
      (mem_definitions (List.mem_of_find?_eq_some hfind)).resolve_left (by simp)
    obtain ⟨ks, hreg⟩ := regular_of_mem hbefore hmem
    refine ⟨(Item.fmt d).record, hpre ▸ List.mem_map_of_mem hmem, rfl, d, ks, d.ofValues_values, ?_, ?_, hreg.kinds,
      hreg.length, hreg.labelCount⟩
    · rw [← hr]; rfl
    · rw [← hr]; rfl

end DataFlash
