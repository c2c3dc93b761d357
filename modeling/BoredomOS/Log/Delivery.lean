/-
What one request of a download is answered with. The end of the range is fixed when the request is handled
and every call of `serviceStream` that is not waiting for the handle sends one chunk, so the number of these
calls says all: how much is sent, where the stream stands, and when it ends. What else the task does in
between, a record appended to the same file included, leaves the stream as it is.
-/
import BoredomOS.Log.Chunks

namespace BoredomOS.Log

open Runs
open Storage (Card Carried)

/-! ## What is to be delivered -/

/-- The message with `length` bytes of the file from `ofs` on. -/
def chunkAt (id : UInt16) (image : List UInt8) (ofs length : Nat) : LogData where
  ofs := UInt32.ofNat ofs
  id
  count := UInt8.ofNat length
  data := chars 90 ((image.drop ofs).take length)

/-- Ninety bytes at a time, rounded up. -/
def chunkCount (ofs «end» : Nat) : Nat := («end» - ofs + 89) / 90

@[simp] theorem chunkCount_zero (ofs : Nat) : chunkCount ofs 0 = 0 := by
  unfold chunkCount
  omega

/-- The chunks at `ofs`, `ofs + 90`, ... up to `end`, each of 90 bytes except possibly the last. -/
def chunksOf (id : UInt16) (image : List UInt8) (ofs «end» : Nat) : List LogData :=
  (List.range (chunkCount ofs «end»)).map fun k => chunkAt id image (ofs + 90 * k) (min 90 («end» - (ofs + 90 * k)))

/-- Where the range ends: at the file's end at the latest. -/
def rangeEnd (image : List UInt8) (ofs count : Nat) : Nat := min image.length (ofs + count)

/-- The chunks of the range, and the empty message that signals that end, if the
range reaches it and no chunk shorter than 90 bytes does. -/
def delivery (id : UInt16) (image : List UInt8) (ofs count : Nat) : List LogData :=
  let chunks := chunksOf id image ofs (rangeEnd image ofs count)
  if image.length ≤ ofs + count ∧ ∀ m ∈ chunks.getLast?, m.count = 90 then
    chunks ++ [chunkAt id image (max ofs (rangeEnd image ofs count)) 0]
  else chunks

/-- The calls it takes: one for each chunk, and one to end. -/
def callsFor (image : List UInt8) (ofs count : Nat) : Nat := chunkCount ofs (rangeEnd image ofs count) + 1

/-- The synced bytes of the slot an id names, as many as the 32 bits of a file's size count, and none if it
names no slot of the ring. -/
def TaskSdWrite.readable (t : TaskSdWrite) (id : UInt16) : List UInt8 :=
  match id.toNat with
  | 0 => []
  | slot + 1 =>
    if slot < t.fileCount then ((t.card.slots slot).map fun f => f.image.take (f.image.length % 2 ^ 32)).getD [] else []

/-- The LOG_DATA for a port. -/
def dataTo (port : Fin 2) (posts : List Post) : List LogData :=
  posts.filterMap fun x => if x.port = port then x.data else none

theorem dataTo_append (port : Fin 2) (xs ys : List Post) : dataTo port (xs ++ ys) = dataTo port xs ++ dataTo port ys :=
  List.filterMap_append

theorem lt_chunkCount {ofs «end» k : Nat} : k < chunkCount ofs «end» ↔ ofs + 90 * k < «end» := by
  unfold chunkCount
  omega

/-- The chunks are the bytes from `ofs` to `end`, each once. -/
theorem chunksOf_covers (id : UInt16) {image : List UInt8} {ofs «end» : Nat} (hend : «end» ≤ image.length) :
    (chunksOf id image ofs «end»).flatMap (fun m => m.data.toList.take m.count.toNat) =
      (image.drop ofs).take («end» - ofs) := by
  have hpieces : ∀ n, n ≤ chunkCount ofs «end» →
      ((List.range n).map fun k => chunkAt id image (ofs + 90 * k) (min 90 («end» - (ofs + 90 * k)))).flatMap
        (fun m => m.data.toList.take m.count.toNat) = (image.drop ofs).take (min (90 * n) («end» - ofs)) := by
    intro n
    induction n with
    | zero =>
      intro _
      simp
    | succ n ih =>
      intro hn
      have hlt := lt_chunkCount.1 (Nat.lt_of_succ_le hn)
      have hbytes : (chunkAt id image (ofs + 90 * n) (min 90 («end» - (ofs + 90 * n)))).data.toList.take
          (chunkAt id image (ofs + 90 * n) (min 90 («end» - (ofs + 90 * n)))).count.toNat =
            (image.drop (ofs + 90 * n)).take (min 90 («end» - (ofs + 90 * n))) := by
        have hlen : ((image.drop (ofs + 90 * n)).take (min 90 («end» - (ofs + 90 * n)))).length =
            min 90 («end» - (ofs + 90 * n)) := by
          rw [List.length_take, List.length_drop]
          omega
        have hcount : (UInt8.ofNat (min 90 («end» - (ofs + 90 * n)))).toNat =
            ((image.drop (ofs + 90 * n)).take (min 90 («end» - (ofs + 90 * n)))).length := by
          rw [hlen, UInt8.toNat_ofNat']
          omega
        show (chars 90 _).toList.take (UInt8.ofNat _).toNat = _
        rw [hcount]
        apply take_chars
        rw [hlen]
        omega
      rw [List.range_succ, List.map_append, List.flatMap_append, ih (Nat.le_of_succ_le hn)]
      simp only [List.map_cons, List.map_nil, List.flatMap_cons, List.flatMap_nil, List.append_nil, hbytes]
      rw [Nat.min_eq_left (by omega), show min (90 * (n + 1)) («end» - ofs) = 90 * n + min 90 («end» - (ofs + 90 * n)) by omega,
        List.take_add, List.drop_drop]
  have hall := hpieces (chunkCount ofs «end») (Nat.le_refl _)
  have hcount : min (90 * chunkCount ofs «end») («end» - ofs) = «end» - ofs := by
    unfold chunkCount
    omega
  rw [hcount] at hall
  exact hall

/-! ## The services of a stream -/

namespace TaskSdWrite

/-- The other port's download holds the handle, and this one has bytes to read. -/
def waitsForHandle (t : TaskSdWrite) (port : Fin 2) : Bool :=
  !(t.streams port).absent && decide ((t.streams port).pos < (t.streams port).end) &&
    decide (t.readerPort ≠ some port) && t.readerPort.isSome

/-- The port's stream is served, and does not only wait. -/
def servesStream (t : TaskSdWrite) (port : Fin 2) : TaskEv → Bool
  | .received _ _ => false
  | .served room _ => decide (t.servedPort room = some port) && !(t.listings port).active && !t.waitsForHandle port

/-- The write of a record rotates into the slot. -/
def rotatesInto (t : TaskSdWrite) (slot : Nat) : TaskEv → Prop
  | .received incoming _ => t.sdData.fills (Log.writeRecord incoming) = true ∧ (t.currentFile + 1) % t.fileCount = slot
  | .served _ _ => False

/-- No request for the port and no END, and no rotation into the slot its download named. -/
def LetsBe (port : Fin 2) (id : UInt16) (t : TaskSdWrite) (e : TaskEv) : Prop :=
  (∀ request o, e = .received (.logRead request) o ∨ e = .received (.logEnd request) o → portOf request ≠ some port) ∧
    ∀ slot, id.toNat = slot + 1 → ¬ t.rotatesInto slot e

/-- How often a run serves the port's stream. -/
def services (port : Fin 2) : TaskSdWrite → List TaskEv → Nat
  | _, [] => 0
  | t, e :: es => (if t.servesStream port e then 1 else 0) +
    match t.step e with
    | some t' => services port t' es
    | none => 0

end TaskSdWrite

/-! ## What else the task does -/

/-- Nothing that a port's download rests on changes: its stream, what was sent to it, the front of its file
and, if it holds it, the handle. -/
structure Aside (port : Fin 2) (id : UInt16) (t t' : TaskSdWrite) : Prop where
  stream : t'.streams port = t.streams port
  posted : ∃ xs, t'.posted = t.posted ++ xs ∧ dataTo port xs = []
  carried : ∀ slot, id.toNat = slot + 1 → Carried t.card t'.card slot
  reader : t.readerPort = some port → t'.readerPort = some port ∧ t'.reader = t.reader
  free : t'.readerPort = some port → t.readerPort = some port

namespace Aside

variable {port q : Fin 2} {id : UInt16} {t t' t'' : TaskSdWrite}

theorem refl (t : TaskSdWrite) : Aside port id t t :=
  ⟨rfl, ⟨[], (List.append_nil _).symm, rfl⟩, fun _ _ => Carried.refl _ _, fun h => ⟨h, rfl⟩, fun h => h⟩

theorem trans (h₁ : Aside port id t t') (h₂ : Aside port id t' t'') : Aside port id t t'' := by
  obtain ⟨xs, hxs, hnone⟩ := h₁.posted
  obtain ⟨ys, hys, hnone'⟩ := h₂.posted
  refine ⟨h₂.stream.trans h₁.stream, ⟨xs ++ ys, by rw [hys, hxs, List.append_assoc], ?_⟩, fun slot hid => (h₁.carried slot hid).trans (h₂.carried slot hid), ?_,
    fun hport => h₁.free (h₂.free hport)⟩
  · rw [dataTo_append, hnone, hnone', List.append_nil]
  · intro hport
    obtain ⟨hport', hreader⟩ := h₁.reader hport
    obtain ⟨hport'', hreader'⟩ := h₂.reader hport'
    exact ⟨hport'', hreader'.trans hreader⟩

/-- Changes to fields a download does not look at. -/
theorem of_same (hstreams : t'.streams port = t.streams port) (hposted : t'.posted = t.posted) (hcard : t'.card = t.card)
    (hreaderPort : t'.readerPort = t.readerPort) (hreader : t'.reader = t.reader) : Aside port id t t' :=
  ⟨hstreams, ⟨[], by rw [hposted, List.append_nil], rfl⟩, fun _ _ => hcard ▸ Carried.refl _ _,
    fun h => ⟨hreaderPort.trans h, hreader⟩, fun h => hreaderPort ▸ h⟩

theorem setListing (q : Fin 2) (listing : LogListing) : Aside port id t (t.setListing q listing) :=
  of_same rfl rfl rfl rfl rfl

theorem setStream (hq : port ≠ q) (stream : LogStream) : Aside port id t (t.setStream q stream) :=
  of_same (Function.update_of_ne hq _ _) rfl rfl rfl rfl

theorem send (q : Fin 2) (msg : LinkMsg) (source : Option (Nat × Nat)) (hnone : q = port → ∃ m, msg = .logEntry m) :
    Aside port id t (t.send q msg source) := by
  refine ⟨rfl, ⟨_, rfl, ?_⟩, fun _ _ => Carried.refl _ _, fun h => ⟨h, rfl⟩, fun h => h⟩
  by_cases hq : q = port
  · obtain ⟨m, rfl⟩ := hnone hq
    simp [dataTo, Post.data, hq]
  · simp [dataTo, hq]

theorem postNoData (hq : port ≠ q) : Aside port id t (t.postNoData q) := send q _ _ fun heq => absurd heq.symm hq

theorem endStream (hq : port ≠ q) : Aside port id t (t.endStream q) := by
  have hset : Aside port id t (t.setStream q { t.streams q with active := false }) := setStream hq _
  unfold TaskSdWrite.endStream
  dsimp only
  split
  · rename_i hheld
    -- the handle was the other port's
    have hnot : t.readerPort ≠ some port := fun h => hq (Option.some.inj (h.symm.trans hheld))
    exact ⟨hset.stream, hset.posted, hset.carried, fun h => absurd h hnot, fun h => by cases h⟩
  · exact hset

theorem startStream (hq : port ≠ q) (request : SdLogRequestPayload) : Aside port id t (t.startStream q request) := by
  refine (endStream hq).trans ?_
  exact of_same (Function.update_of_ne hq _ _) rfl rfl rfl rfl

theorem readChunk (hq : port ≠ q) (hfree : t.readerPort ≠ some port) (noise : List UInt8) :
    Aside port id t (t.readChunk q noise) := by
  unfold TaskSdWrite.readChunk
  dsimp only
  split
  · exact endStream hq
  · split
    · exact endStream hq
    · refine ⟨Function.update_of_ne hq _ _, ⟨_, rfl, ?_⟩, fun _ _ => Carried.refl _ _, fun h => absurd h hfree, fun h => absurd h hfree⟩
      simp [dataTo, Ne.symm hq]

theorem serviceStream (hq : port ≠ q) (noise : List UInt8) : Aside port id t (t.serviceStream q noise) := by
  unfold TaskSdWrite.serviceStream
  dsimp only
  split
  · exact (postNoData hq).trans (setStream hq _)
  split
  · split
    · exact (postNoData hq).trans (endStream hq)
    · exact endStream hq
  split
  · rename_i hheld
    exact readChunk hq (fun h => hq (Option.some.inj (h.symm.trans hheld))) noise
  split
  · exact refl t
  · rename_i hfree
    have hnot : t.readerPort ≠ some port := fun h => hfree (by rw [h]; rfl)
    -- nobody held the handle, and now the other port does
    have hother : ∀ t' : TaskSdWrite, t'.streams = t.streams → t'.posted = t.posted → t'.card = t.card →
        t'.readerPort ≠ some port → Aside port id t t' := fun t' hstreams hposted hcard hnot' =>
      ⟨congrFun hstreams port, ⟨[], by rw [hposted, List.append_nil], rfl⟩, fun _ _ => hcard ▸ Carried.refl _ _,
        fun h => absurd h hnot, fun h => absurd h hnot'⟩
    split
    · refine trans ?_ (endStream hq)
      exact hother _ rfl rfl rfl hnot
    · have hne : (some q : Option (Fin 2)) ≠ some port := fun h => hq (Option.some.inj h).symm
      refine trans ?_ (readChunk hq hne noise)
      exact hother _ rfl rfl rfl hne

theorem serviceListing (hserved : t.serviceListing q = some t') : Aside port id t t' := by
  obtain ⟨⟨listing, found⟩, -, hmatch⟩ := Option.map_eq_some_iff.1 hserved
  cases found with
  | none =>
    rw [← hmatch]
    exact setListing _ _
  | some found =>
    rw [← hmatch]
    exact (setListing q listing).trans (send _ _ _ fun _ => ⟨_, rfl⟩)

theorem endReplaced {after : Nat} (hclear : (t.streams port).active = true → (t.streams port).absent = false →
    (t.streams port).slot.toInt ≠ after) (q : Fin 2) : Aside port id t (t.endReplaced after q) := by
  unfold TaskSdWrite.endReplaced
  dsimp only
  split
  · rename_i hends
    simp only [Bool.and_eq_true, Bool.not_eq_true', decide_eq_true_eq] at hends
    have hq : port ≠ q := by
      rintro rfl
      exact hclear hends.1.1 hends.1.2 hends.2
    exact (postNoData hq).trans (endStream hq)
  · exact refl t

/-- A record is written, and no rotation into the slot comes with it. -/
theorem writeRecord {incoming : SdRecord} {o : Opening}
    (hrotates : ∀ slot, id.toNat = slot + 1 → ¬ t.rotatesInto slot (.received incoming o))
    (hslot : (t.streams port).active = true → (t.streams port).absent = false →
      ∃ slot : Nat, id.toNat = slot + 1 ∧ (t.streams port).slot.toInt = slot) :
    Aside port id t (t.writeRecord incoming o) := by
  change ∀ slot, id.toNat = slot + 1 → ¬ (t.sdData.fills (Log.writeRecord incoming) = true ∧
    (t.currentFile + 1) % t.fileCount = slot) at hrotates
  unfold TaskSdWrite.writeRecord
  cases hrecord : Log.writeRecord incoming with
  | none => exact refl t
  | some record =>
    rw [hrecord] at hrotates
    have hwrite := Storage.onward_or_rotated_write (some record) (writeLogPreamble o) t.sdData
    dsimp only
    generalize ((Storage.write (some record) (writeLogPreamble o)).run t.sdData).2 = sd at hwrite
    have hsd : (∀ slot, id.toNat = slot + 1 → Carried t.card sd.card slot) → Aside port id t { t with sdData := sd } :=
      fun hcarried => ⟨rfl, ⟨[], (List.append_nil _).symm, rfl⟩, hcarried, fun h => ⟨h, rfl⟩, fun h => h⟩
    rcases hwrite with ⟨-, hsame⟩ | ⟨hfills, hrotated⟩
    · rw [if_neg fun hmoved => hmoved hsame.fileIdx]
      exact hsd fun slot _ => hsame.carried slot
    · have hnext : ∀ slot, id.toNat = slot + 1 → slot ≠ sd.data.fileIdx := by
        rintro slot hid rfl
        exact hrotates _ hid ⟨hfills, hrotated.fileIdx.symm⟩
      have hset := hsd fun slot hid => hrotated.carried slot (hnext slot hid)
      split
      · have hclear : (t.streams port).active = true → (t.streams port).absent = false →
            (t.streams port).slot.toInt ≠ sd.data.fileIdx := by
          intro hactive hpresent heq
          obtain ⟨slot, hid, hvalue⟩ := hslot hactive hpresent
          rw [hvalue] at heq
          exact hnext slot hid (Int.ofNat.inj heq)
        have hfirst : Aside port id { t with sdData := sd } (TaskSdWrite.endReplaced sd.data.fileIdx { t with sdData := sd } 0) :=
          endReplaced (by exact hclear) 0
        refine (hset.trans hfirst).trans (endReplaced ?_ 1)
        rw [hfirst.stream]
        exact hclear
      · exact hset

end Aside

/-- A call that finds the other port's handle changes nothing. -/
theorem serviceStream_waits {t : TaskSdWrite} {port : Fin 2} (h : t.waitsForHandle port = true) (noise : List UInt8) :
    t.serviceStream port noise = t := by
  simp only [TaskSdWrite.waitsForHandle, Bool.and_eq_true, Bool.not_eq_true', decide_eq_true_eq] at h
  obtain ⟨⟨⟨hpresent, hmore⟩, hnot⟩, hheld⟩ := h
  simp [TaskSdWrite.serviceStream, hpresent, UInt32.not_le.2 hmore, hnot, hheld]

/-- A step that does not serve the port's stream is aside of it, and one that does is a call of
`serviceStream`. -/
theorem aside_or_served {port : Fin 2} {id : UInt16} {t t' : TaskSdWrite} {e : TaskEv} (hstep : t.step e = some t')
    (hlets : TaskSdWrite.LetsBe port id t e) (hslot : (t.streams port).active = true → (t.streams port).absent = false →
      ∃ slot : Nat, id.toNat = slot + 1 ∧ (t.streams port).slot.toInt = slot) :
    t.servesStream port e = false ∧ Aside port id t t' ∨
      t.servesStream port e = true ∧ (t.streams port).active = true ∧ t.waitsForHandle port = false ∧
        ∃ noise, Aside port id (t.serviceStream port noise) t' := by
  cases e with
  | received incoming o =>
    refine Or.inl ⟨rfl, ?_⟩
    have hother : ∀ request, incoming = .logRead request ∨ incoming = .logEnd request → ∀ q,
        TaskSdWrite.portOf request = some q → port ≠ q := by
      rintro request hrequest q hq rfl
      exact hlets.1 request o (hrequest.imp (congrArg (TaskEv.received · o)) (congrArg (TaskEv.received · o))) hq
    cases incoming with
    | logList request =>
      obtain ⟨q, -, rfl⟩ := Option.map_eq_some_iff.1 hstep
      exact .setListing _ _
    | logRead request =>
      obtain ⟨q, hq, rfl⟩ := Option.map_eq_some_iff.1 hstep
      exact .startStream (hother request (Or.inl rfl) q hq) request
    | logEnd request =>
      obtain ⟨q, hq, rfl⟩ := Option.map_eq_some_iff.1 hstep
      exact .endStream (hother request (Or.inr rfl) q hq)
    | sys p | pwr p | time p =>
      cases hstep
      exact .writeRecord hlets.2 hslot
  | served room noise =>
    have hnext : ∀ {t₁ : TaskSdWrite} (q : Fin 2), Aside port id t₁ { t₁ with nextPort := q } := fun _ => .of_same rfl rfl rfl rfl rfl
    unfold TaskSdWrite.servesStream
    obtain ⟨hport, rfl⟩ | ⟨q, served, hport, -, rfl, ⟨hlisting, hserved⟩ | ⟨hlisting, hactive, rfl⟩⟩ := serve_cases hstep
    · exact Or.inl ⟨by simp [hport], .refl _⟩
    · refine Or.inl ⟨?_, (Aside.serviceListing hserved).trans (hnext _)⟩
      by_cases hq : q = port
      · subst hq
        simp [hlisting]
      · simp [hport, hq]
    by_cases hq : port = q
    swap
    · exact Or.inl ⟨by simp [hport, Ne.symm hq], (Aside.serviceStream hq noise).trans (hnext _)⟩
    subst hq
    by_cases hwaits : t.waitsForHandle port = true
    · refine Or.inl ⟨by simp [hwaits], ?_⟩
      rw [serviceStream_waits hwaits noise]
      exact hnext _
    · exact Or.inr ⟨by simp [hport, hlisting, hwaits], hactive, by simpa using hwaits, noise, hnext _⟩

/-! ## Where a stream stands -/

section

variable (id : UInt16) (image : List UInt8) (ofs count : Nat)

theorem length_chunksOf («end» : Nat) : (chunksOf id image ofs «end»).length = chunkCount ofs «end» := by
  simp [chunksOf]

theorem delivery_eq : delivery id image ofs count = chunksOf id image ofs (rangeEnd image ofs count) ++
    if image.length ≤ ofs + count ∧ ∀ m ∈ (chunksOf id image ofs (rangeEnd image ofs count)).getLast?, m.count = 90 then
      [chunkAt id image (max ofs (rangeEnd image ofs count)) 0]
    else [] := by
  unfold delivery
  dsimp only
  split
  · rfl
  · rw [List.append_nil]

theorem delivery_take {k : Nat} (hk : k ≤ chunkCount ofs (rangeEnd image ofs count)) : (delivery id image ofs count).take k =
    (List.range k).map fun k => chunkAt id image (ofs + 90 * k) (min 90 (rangeEnd image ofs count - (ofs + 90 * k))) := by
  rw [delivery_eq, List.take_append_of_le_length, chunksOf, ← List.map_take, List.take_range, Nat.min_eq_left hk]
  rwa [length_chunksOf]

/-- Every call but the last sends one chunk. -/
theorem delivery_take_chunk {m : Nat} (hm : m < chunkCount ofs (rangeEnd image ofs count)) :
    (delivery id image ofs count).take (m + 1) = (delivery id image ofs count).take m ++
      [chunkAt id image (ofs + 90 * m) (min 90 (rangeEnd image ofs count - (ofs + 90 * m)))] := by
  rw [delivery_take id image ofs count hm, delivery_take id image ofs count hm.le, List.range_succ, List.map_append]
  rfl

theorem delivery_take_all {k : Nat} (hk : callsFor image ofs count ≤ k) :
    (delivery id image ofs count).take k = delivery id image ofs count := by
  apply List.take_of_length_le
  rw [delivery_eq, List.length_append, length_chunksOf]
  unfold callsFor at hk
  split <;> simp <;> omega

/-- The last call sends the empty message, or nothing. -/
theorem delivery_take_end : (delivery id image ofs count).take (callsFor image ofs count) =
    (delivery id image ofs count).take (chunkCount ofs (rangeEnd image ofs count)) ++
      if image.length ≤ ofs + count ∧ ∀ m ∈ (chunksOf id image ofs (rangeEnd image ofs count)).getLast?, m.count = 90 then
        [chunkAt id image (max ofs (rangeEnd image ofs count)) 0]
      else [] := by
  rw [delivery_take_all id image ofs count (Nat.le_refl _), delivery_take id image ofs count (Nat.le_refl _)]
  exact delivery_eq id image ofs count

/-- The stream of the request, after so many calls. -/
structure Stands (m : Nat) (stream : LogStream) : Prop where
  active : stream.active = true
  absent : stream.absent = image.isEmpty
  id_eq : stream.id = id
  pos : stream.pos.toNat = ofs + min (90 * m) (rangeEnd image ofs count - ofs)
  end_eq : stream.end.toNat = rangeEnd image ofs count
  toFileEnd : stream.toFileEnd = decide (image.length ≤ ofs + count)
  sentAny : stream.sentAny = decide (0 < m)
  lastCount : 0 < m → stream.lastCount = UInt8.ofNat (min 90 (rangeEnd image ofs count - (ofs + 90 * (m - 1))))
  slot : image ≠ [] → ∃ slot, slot < 128 ∧ id.toNat = slot + 1 ∧ stream.slot = Int8.ofInt slot

/-- The file still begins with what the request found, and the port's handle, if it holds it, is on it where
the stream stands. -/
structure Reads (port : Fin 2) (t : TaskSdWrite) (slot : Nat) (g : Storage.File LogPiece) : Prop where
  file : t.card.slots slot = some g
  image_prefix : image <+: g.image
  handle : t.readerPort = some port → ∃ h, t.reader = some h ∧ h.slot = slot ∧ h.born = g.born ∧
    h.pos = (t.streams port).pos.toNat ∧ image.length ≤ h.size

/-- After so many calls of `serviceStream`, with what was sent since. -/
structure Delivering (port : Fin 2) (start m : Nat) (t : TaskSdWrite) : Prop where
  started : start ≤ t.posted.length
  posted : dataTo port (t.posted.drop start) = (delivery id image ofs count).take m
  le : m ≤ callsFor image ofs count
  stream : m < callsFor image ofs count → Stands id image ofs count m (t.streams port)
  ended : m = callsFor image ofs count → (t.streams port).active = false
  reads : m < callsFor image ofs count → image ≠ [] → ∀ slot, id.toNat = slot + 1 → ∃ g, Reads image port t slot g

end

section

variable {id : UInt16} {image : List UInt8} {ofs count : Nat} {port : Fin 2} {start m : Nat} {t t' : TaskSdWrite}

theorem Stands.slot_toInt {stream : LogStream} (h : Stands id image ofs count m stream) (hpresent : stream.absent = false) :
    ∃ slot : Nat, id.toNat = slot + 1 ∧ stream.slot.toInt = slot := by
  rw [h.absent, List.isEmpty_eq_false_iff] at hpresent
  obtain ⟨slot, hlt, hid, hslot⟩ := h.slot hpresent
  refine ⟨slot, hid, ?_⟩
  rw [hslot, Int8.toInt_ofInt, Int.bmod_def, show Int8.size = 256 from rfl]
  split <;> omega

theorem Delivering.aside (h : Delivering id image ofs count port start m t) (haside : Aside port id t t') :
    Delivering id image ofs count port start m t' := by
  obtain ⟨xs, hxs, hnone⟩ := haside.posted
  refine ⟨?_, ?_, h.le, fun hm => ?_, fun hm => ?_, fun hm hfound slot hid => ?_⟩
  · rw [hxs, List.length_append]
    exact h.started.trans (Nat.le_add_right _ _)
  · rw [hxs, List.drop_append_of_le_length h.started, dataTo_append, hnone, List.append_nil]
    exact h.posted
  · rw [haside.stream]
    exact h.stream hm
  · rw [haside.stream]
    exact h.ended hm
  · obtain ⟨g, hfile, hprefix, hhandle⟩ := h.reads hm hfound slot hid
    obtain ⟨g', hfile', hborn, hgrown⟩ := haside.carried slot hid g hfile
    refine ⟨g', hfile', hprefix.trans hgrown, fun hport => ?_⟩
    have hheld := haside.free hport
    rw [(haside.reader hheld).2, hborn, haside.stream]
    exact hhandle hheld

theorem callsFor_pos (image : List UInt8) (ofs count : Nat) : 0 < callsFor image ofs count := Nat.succ_pos _

/-- One more chunk goes out, or what the last call sends. -/
theorem Delivering.sent (h : Delivering id image ofs count port start m t) (hm : m < callsFor image ofs count)
    {xs : List Post} (hposted : t'.posted = t.posted ++ xs)
    (hxs : (delivery id image ofs count).take (m + 1) = (delivery id image ofs count).take m ++ dataTo port xs)
    (hstream : m + 1 < callsFor image ofs count → Stands id image ofs count (m + 1) (t'.streams port))
    (hended : m + 1 = callsFor image ofs count → (t'.streams port).active = false)
    (hreads : m + 1 < callsFor image ofs count → ∀ slot, id.toNat = slot + 1 → ∃ g, Reads image port t' slot g) :
    Delivering id image ofs count port start (m + 1) t' := by
  refine ⟨?_, ?_, hm, hstream, hended, fun hm' _ => hreads hm'⟩
  · rw [hposted, List.length_append]
    exact h.started.trans (Nat.le_add_right _ _)
  · rw [hposted, List.drop_append_of_le_length h.started, dataTo_append, h.posted, hxs]

/-- A chunk that is still to go begins where the stream stands, inside the file. -/
theorem Stands.pos_eq {stream : LogStream} (h : Stands id image ofs count m stream)
    (hm : m < chunkCount ofs (rangeEnd image ofs count)) : stream.pos.toNat = ofs + 90 * m ∧ image ≠ [] := by
  have hmore := lt_chunkCount.1 hm
  constructor
  · rw [h.pos]
    omega
  · rintro rfl
    simp [rangeEnd] at hmore

/-- The stream behind the next chunk. -/
theorem Stands.next {stream : LogStream} (h : Stands id image ofs count m stream)
    (hm : m < chunkCount ofs (rangeEnd image ofs count)) {want : Nat}
    (hwant : min 90 (rangeEnd image ofs count - (ofs + 90 * m)) = want) :
    (stream.pos + UInt32.ofNat want).toNat = ofs + 90 * m + want ∧
      Stands id image ofs count (m + 1)
        { stream with pos := stream.pos + UInt32.ofNat want, sentAny := true, lastCount := UInt8.ofNat want } := by
  have hmore := lt_chunkCount.1 hm
  have hpos : (stream.pos + UInt32.ofNat want).toNat = ofs + 90 * m + want := by
    have hbound := stream.end.toNat_lt
    rw [h.end_eq] at hbound
    rw [UInt32.toNat_add, UInt32.toNat_ofNat', (h.pos_eq hm).1]
    omega
  refine ⟨hpos, h.active, h.absent, h.id_eq, ?_, h.end_eq, h.toFileEnd, ?_, fun _ => ?_, h.slot⟩
  · rw [hpos]
    omega
  · simp
  · rw [Nat.add_sub_cancel, hwant]

/-- What the handle reads is the next chunk of the file as the request found it. -/
theorem readChunk_eq (hs : Stands id image ofs count m (t.streams port)) (hm : m < chunkCount ofs (rangeEnd image ofs count))
    {slot : Nat} {g : Storage.File LogPiece} {r : Handle} (hreads : Reads image port t slot g) (hr : t.reader = some r)
    (hslot : r.slot = slot) (hborn : r.born = g.born) (hrpos : r.pos = (t.streams port).pos.toNat)
    (hsize : image.length ≤ r.size) {want : Nat} (hwant : min 90 (rangeEnd image ofs count - (ofs + 90 * m)) = want)
    (noise : List UInt8) :
    t.readChunk port noise =
      { (t.send port (.logData (chunkAt id image (ofs + 90 * m) want)) (some (r.slot, r.born))).setStream port
          { t.streams port with
            pos := (t.streams port).pos + UInt32.ofNat want, sentAny := true, lastCount := UInt8.ofNat want } with
        reader := some { r with pos := r.pos + want } } := by
  have hmore := lt_chunkCount.1 hm
  have hend : rangeEnd image ofs count ≤ image.length := Nat.min_le_left _ _
  obtain ⟨hpos, -⟩ := hs.pos_eq hm
  -- what is asked of the handle, and what it gives
  have hasked : min ((t.streams port).end - (t.streams port).pos).toNat kLogDataChunk = want := by
    rw [UInt32.toNat_sub_of_le _ _ (UInt32.le_iff_toNat_le.2 (by rw [hpos, hs.end_eq]; omega)), hs.end_eq, hpos, Nat.min_comm]
    exact hwant
  have hread := read_eq (hslot ▸ hreads.file) hborn.symm hreads.image_prefix
    (show r.pos + want ≤ image.length by rw [hrpos, hpos]; omega) noise
  rw [hrpos, hpos, Nat.min_eq_left (by omega)] at hread
  have hdata : ((image.drop (ofs + 90 * m)).take want).length = want := by
    rw [List.length_take, List.length_drop]
    omega
  have hsome : ((image.drop (ofs + 90 * m)).take want).isEmpty = false := by
    rw [List.isEmpty_eq_false_iff, ← List.length_pos_iff, hdata]
    omega
  have hchunk : LogData.mk (t.streams port).pos (t.streams port).id (UInt8.ofNat want)
      (chars 90 ((image.drop (ofs + 90 * m)).take want)) = chunkAt id image (ofs + 90 * m) want := by
    rw [chunkAt, hs.id_eq, ← hpos, UInt32.ofNat_toNat]
  unfold TaskSdWrite.readChunk
  rw [hr]
  simp only [hasked, hread, hsome, hdata, Bool.false_eq_true, if_false]
  rw [hchunk]

/-- The port's handle reads the next chunk. -/
theorem Delivering.readChunk (h : Delivering id image ofs count port start m t)
    (hm : m < chunkCount ofs (rangeEnd image ofs count)) (hport : t.readerPort = some port) (noise : List UInt8) :
    Delivering id image ofs count port start (m + 1) (t.readChunk port noise) := by
  have hcalls : m + 1 < callsFor image ofs count := Nat.succ_lt_succ hm
  have hs := h.stream (Nat.lt_of_succ_lt hcalls)
  obtain ⟨hpos, hfound⟩ := hs.pos_eq hm
  obtain ⟨slot, hlt, hid, hslot⟩ := hs.slot hfound
  obtain ⟨g, hreads⟩ := h.reads (Nat.lt_of_succ_lt hcalls) hfound slot hid
  obtain ⟨r, hr, hrslot, hrborn, hrpos, hrsize⟩ := hreads.handle hport
  obtain ⟨hpos', hnext⟩ := hs.next hm rfl
  rw [readChunk_eq hs hm hreads hr hrslot hrborn hrpos hrsize rfl]
  refine h.sent (Nat.lt_of_succ_lt hcalls) rfl ?_ (fun _ => ?_) (fun hlast => ?_) fun _ slot' hid' => ?_
  · rw [delivery_take_chunk id image ofs count hm]
    simp [dataTo, Post.data]
  · show Stands id image ofs count (m + 1) (((t.send port _ _).setStream port _).streams port)
    rw [TaskSdWrite.streams_setStream]
    exact hnext
  · omega
  · obtain rfl : slot = slot' := by omega
    refine ⟨g, hreads.file, hreads.image_prefix, fun _ => ⟨_, rfl, hrslot, hrborn, ?_, hrsize⟩⟩
    show r.pos + _ = (((t.send port _ _).setStream port _).streams port).pos.toNat
    rw [TaskSdWrite.streams_setStream, hpos', hrpos, hpos]

/-- The empty message stands where the stream does. -/
theorem dataTo_postNoData (h : Stands id image ofs count m (t.streams port)) :
    ∃ xs, (t.postNoData port).posted = t.posted ++ xs ∧
      dataTo port xs = [chunkAt id image (t.streams port).pos.toNat 0] := by
  refine ⟨_, rfl, ?_⟩
  simp [dataTo, Post.data, chunkAt, h.id_eq]

/-- A stream has signalled the end of the file unless its last chunk was one of 90 bytes. -/
theorem Stands.signals_iff {stream : LogStream} (h : Stands id image ofs count m stream)
    (hm : m = chunkCount ofs (rangeEnd image ofs count)) :
    (stream.toFileEnd && (!stream.sentAny || decide (stream.lastCount.toNat = kLogDataChunk))) = true ↔
      image.length ≤ ofs + count ∧ ∀ x ∈ (chunksOf id image ofs (rangeEnd image ofs count)).getLast?, x.count = 90 := by
  have hlast : (!stream.sentAny || decide (stream.lastCount.toNat = kLogDataChunk)) = true ↔
      ∀ x ∈ (chunksOf id image ofs (rangeEnd image ofs count)).getLast?, x.count = 90 := by
    cases m with
    | zero => simp [h.sentAny, chunksOf, ← hm]
    | succ k =>
      have hcount := h.lastCount (Nat.succ_pos k)
      simp only [h.sentAny, chunksOf, ← hm, List.range_succ, List.map_append, List.map_cons, List.map_nil,
        List.getLast?_concat, Option.mem_some_iff, forall_eq', chunkAt, hcount, Nat.add_sub_cancel, Nat.succ_pos, decide_true,
        Bool.not_true, Bool.false_or, decide_eq_true_eq]
      exact UInt8.toNat_inj (b := 90)
  rw [Bool.and_eq_true, h.toFileEnd, decide_eq_true_eq, hlast]

/-- The last call. -/
theorem Delivering.last (h : Delivering id image ofs count port start m t) (hm : m + 1 = callsFor image ofs count)
    {xs : List Post} (hposted : t'.posted = t.posted ++ xs)
    (hxs : dataTo port xs = if image.length ≤ ofs + count ∧
        ∀ x ∈ (chunksOf id image ofs (rangeEnd image ofs count)).getLast?, x.count = 90 then
      [chunkAt id image (max ofs (rangeEnd image ofs count)) 0]
    else []) (hended : (t'.streams port).active = false) : Delivering id image ofs count port start (m + 1) t' := by
  have hchunks : m = chunkCount ofs (rangeEnd image ofs count) := Nat.succ.inj hm
  refine h.sent (by omega) hposted ?_ (fun hlt => by omega) (fun _ => hended) fun hlt => by omega
  rw [hxs, hm, delivery_take_end, hchunks]

theorem inactive_endStream (t : TaskSdWrite) (port : Fin 2) : ((t.endStream port).streams port).active = false := by
  rw [streams_endStream, if_pos rfl]

theorem posted_endStream (t : TaskSdWrite) (port : Fin 2) : (t.endStream port).posted = t.posted := by
  unfold TaskSdWrite.endStream
  dsimp only
  split <;> rfl

/-- A file with nothing to read is answered with the empty message alone. -/
theorem Delivering.absent (h : Delivering id image ofs count port start m t) (hm : m < callsFor image ofs count)
    (habsent : (t.streams port).absent = true) :
    Delivering id image ofs count port start (m + 1)
      ((t.postNoData port).setStream port { t.streams port with active := false }) := by
  have hs := h.stream hm
  obtain ⟨xs, hxs, hempty⟩ := dataTo_postNoData hs
  rw [hs.absent, List.isEmpty_iff] at habsent
  subst habsent
  have hnone : rangeEnd [] ofs count = 0 := Nat.zero_min _
  have hm0 : m = 0 := by
    unfold callsFor at hm
    rw [hnone, chunkCount_zero] at hm
    omega
  refine h.last ?_ hxs ?_ ?_
  · rw [callsFor, hnone, chunkCount_zero, hm0]
  · rw [hempty, hs.pos, hnone, if_pos ⟨Nat.zero_le _, by simp [chunksOf]⟩, hm0]
    simp
  · rw [TaskSdWrite.streams_setStream]

/-- A range that is through ends, with the empty message if the last one did not say so. -/
theorem Delivering.reached (h : Delivering id image ofs count port start m t) (hm : m < callsFor image ofs count)
    (hreached : (t.streams port).end ≤ (t.streams port).pos) :
    Delivering id image ofs count port start (m + 1)
      (if (t.streams port).toFileEnd && (!(t.streams port).sentAny || (t.streams port).lastCount.toNat = kLogDataChunk) then
        (t.postNoData port).endStream port else t.endStream port) := by
  have hs := h.stream hm
  obtain ⟨xs, hxs, hempty⟩ := dataTo_postNoData hs
  have hchunks : m = chunkCount ofs (rangeEnd image ofs count) := by
    have hle := UInt32.le_iff_toNat_le.1 hreached
    rw [hs.pos, hs.end_eq] at hle
    have hnot : ¬ m < chunkCount ofs (rangeEnd image ofs count) := by
      rw [lt_chunkCount]
      omega
    unfold callsFor at hm
    omega
  have hpos : (t.streams port).pos.toNat = max ofs (rangeEnd image ofs count) := by
    rw [hs.pos, hchunks]
    unfold chunkCount
    omega
  have hsignals := hs.signals_iff hchunks
  split
  · rename_i hcond
    refine h.last (by rw [hchunks]; rfl) (posted_endStream _ _ ▸ hxs) ?_ (inactive_endStream _ _)
    rw [hempty, hpos, if_pos (hsignals.1 hcond)]
  · rename_i hcond
    refine h.last (by rw [hchunks]; rfl) ((posted_endStream _ _).trans (List.append_nil _).symm) ?_ (inactive_endStream _ _)
    rw [if_neg fun hcond' => hcond (hsignals.2 hcond')]
    rfl

/-- The free handle is opened on the file where the stream stands. -/
theorem Delivering.opened (h : Delivering id image ofs count port start m t)
    (hm : m < chunkCount ofs (rangeEnd image ofs count)) {slot : Nat} {g : Storage.File LogPiece} (hid : id.toNat = slot + 1)
    (hslot : (t.streams port).slot.toInt = slot) (hreads : Reads image port t slot g) :
    Delivering id image ofs count port start m { t with
      reader := some { slot := (t.streams port).slot.toInt.toNat, born := g.born, size := g.image.length,
                       pos := if (t.streams port).pos.toNat ≤ g.image.length then (t.streams port).pos.toNat else 0 }
      readerPort := some port } := by
  have hs := h.stream (hm.trans (Nat.lt_succ_self _))
  refine ⟨h.started, h.posted, h.le, h.stream, h.ended, fun _ _ slot' hid' => ?_⟩
  obtain rfl : slot = slot' := by omega
  refine ⟨g, hreads.file, hreads.image_prefix, fun _ => ⟨_, rfl, ?_, rfl, ?_, hreads.image_prefix.length_le⟩⟩
  · rw [hslot]
    rfl
  · have hle : (t.streams port).pos.toNat ≤ g.image.length := by
      have hend : rangeEnd image ofs count ≤ image.length := Nat.min_le_left _ _
      have hlen := hreads.image_prefix.length_le
      have hlt := lt_chunkCount.1 hm
      rw [(hs.pos_eq hm).1]
      omega
    exact if_pos hle

/-- One call of `serviceStream` that does not wait for the handle. -/
theorem Delivering.serviceStream (h : Delivering id image ofs count port start m t) (hactive : (t.streams port).active = true)
    (hwaits : t.waitsForHandle port = false) (noise : List UInt8) :
    Delivering id image ofs count port start (m + 1) (t.serviceStream port noise) := by
  have hm : m < callsFor image ofs count := by
    refine lt_of_le_of_ne h.le fun hlast => ?_
    rw [h.ended hlast] at hactive
    cases hactive
  have hs := h.stream hm
  unfold TaskSdWrite.serviceStream
  dsimp only
  split
  · rename_i habsent
    exact h.absent hm habsent
  rename_i hpresent
  split
  · rename_i hreached
    exact h.reached hm hreached
  rename_i hmore
  rw [ge_iff_le, UInt32.not_le] at hmore
  have hchunk : m < chunkCount ofs (rangeEnd image ofs count) := by
    have hlt := UInt32.lt_iff_toNat_lt.1 hmore
    rw [hs.pos, hs.end_eq] at hlt
    rw [lt_chunkCount]
    omega
  split
  · rename_i hheld
    exact h.readChunk hchunk hheld noise
  rename_i hnot
  split
  · -- only the other port can hold the handle, and then this one would wait
    rename_i hheld
    simp [TaskSdWrite.waitsForHandle, hpresent, hmore, hnot, hheld] at hwaits
  obtain ⟨slot, hid, hslot⟩ := hs.slot_toInt (by simpa using hpresent)
  obtain ⟨g, hreads⟩ := h.reads hm (hs.pos_eq hchunk).2 slot hid
  have hat : fileAt t.card (t.streams port).slot.toInt = some g := by
    rw [hslot, fileAt, if_neg (by omega)]
    exact hreads.file
  rw [hat]
  exact Delivering.readChunk (h.opened hchunk hid hslot hreads) hchunk rfl noise

/-! ## The request -/

/-- The size a request finds is that of what its id names. -/
theorem size_startStream (t : TaskSdWrite) (id : UInt16) :
    (if 0 ≤ (id.toNat : Int) - 1 ∧ (id.toNat : Int) - 1 < t.fileCount then slotSize t.card ((id.toNat : Int) - 1) else 0).toNat =
      (t.readable id).length := by
  unfold TaskSdWrite.readable
  cases hid : id.toNat with
  | zero => rfl
  | succ slot =>
    have hslot : ((slot + 1 : Nat) : Int) - 1 = slot := by omega
    rw [hslot]
    by_cases hlt : slot < t.fileCount
    · rw [if_pos ⟨by omega, by omega⟩]
      simp only [if_pos hlt, slotSize, fileAt]
      rw [if_neg (by omega), Int.toNat_natCast]
      cases t.card.slots slot with
      | none => rfl
      | some f =>
        simp only [Option.map_some, Option.getD_some, List.length_take, UInt32.toNat_ofNat']
        exact (Nat.min_eq_left (Nat.mod_le _ _)).symm
    · rw [if_neg (by omega)]
      simp only [if_neg hlt]
      rfl

theorem named_of_readable {t : TaskSdWrite} {id : UInt16} (hfound : t.readable id ≠ []) : ∃ slot < t.fileCount,
    id.toNat = slot + 1 ∧ ∃ f, t.card.slots slot = some f ∧ t.readable id <+: f.image := by
  unfold TaskSdWrite.readable at hfound ⊢
  cases hid : id.toNat with
  | zero => simp [hid] at hfound
  | succ slot =>
    simp only [hid] at hfound ⊢
    by_cases hlt : slot < t.fileCount
    · rw [if_pos hlt] at hfound ⊢
      cases hf : t.card.slots slot with
      | none => simp [hf] at hfound
      | some f => exact ⟨slot, hlt, rfl, f, hf, List.take_prefix _ _⟩
    · simp [hlt] at hfound

theorem delivering_startStream {t : TaskSdWrite} (hfiles : t.fileCount ≤ 128) (port : Fin 2) (request : SdLogRequestPayload) :
    Delivering request.start (t.readable request.start) request.ofs.toNat request.count.toNat port t.posted.length 0
      (t.startStream port request) := by
  have hsame : (t.endStream port).card = t.card ∧ (t.endStream port).fileCount = t.fileCount ∧
      (t.endStream port).readerPort ≠ some port := by
    unfold TaskSdWrite.endStream
    dsimp only
    split
    · exact ⟨rfl, rfl, fun h => by cases h⟩
    · exact ⟨rfl, rfl, ‹_›⟩
  have hsize := size_startStream t request.start
  generalize hsz : (if 0 ≤ (request.start.toNat : Int) - 1 ∧ (request.start.toNat : Int) - 1 < t.fileCount then
    slotSize t.card ((request.start.toNat : Int) - 1) else 0) = size at hsize
  have hstream : (t.startStream port request).streams port =
      TaskSdWrite.streamOf request ((request.start.toNat : Int) - 1) size := by
    unfold TaskSdWrite.startStream
    dsimp only
    rw [hsame.1, hsame.2.1, hsz]
    exact TaskSdWrite.streams_setStream ..
  obtain ⟨hend, hfileEnd⟩ := streamOf_range request ((request.start.toNat : Int) - 1) size
  rw [hsize] at hend hfileEnd
  have hposted : (t.startStream port request).posted = t.posted := posted_endStream t port
  have hempty : decide (size = 0) = (t.readable request.start).isEmpty := by
    rw [Bool.eq_iff_iff, decide_eq_true_iff, List.isEmpty_iff, ← List.length_eq_zero_iff, ← hsize, ← UInt32.toNat_inj]
    rfl
  refine ⟨hposted.symm ▸ Nat.le_refl _, ?_, Nat.zero_le _, fun _ => ?_, fun h => ?_, fun _ hfound slot hid => ?_⟩
  · rw [hposted, List.drop_length]
    rfl
  · rw [hstream]
    refine ⟨rfl, hempty, rfl, ?_, hend, hfileEnd, rfl, fun h => absurd h (Nat.lt_irrefl 0), fun hfound => ?_⟩
    · rw [Nat.mul_zero, Nat.zero_min, Nat.add_zero]
      rfl
    · obtain ⟨slot, hlt, hid, -⟩ := named_of_readable hfound
      refine ⟨slot, by omega, hid, ?_⟩
      show Int8.ofInt ((request.start.toNat : Int) - 1) = _
      rw [hid]
      congr 1
      omega
  · exact absurd h.symm (callsFor_pos _ _ _).ne'
  · obtain ⟨slot', -, hid', f, hf, hprefix⟩ := named_of_readable hfound
    obtain rfl : slot = slot' := by omega
    refine ⟨f, ?_, hprefix, fun hport => absurd hport hsame.2.2⟩
    show (t.endStream port).card.slots slot = some f
    rw [hsame.1]
    exact hf

theorem Delivering.step {e : TaskEv} (h : Delivering id image ofs count port start m t) (hlets : t.LetsBe port id e)
    (hstep : t.step e = some t') :
    Delivering id image ofs count port start (m + if t.servesStream port e then 1 else 0) t' := by
  have hslot : (t.streams port).active = true → (t.streams port).absent = false →
      ∃ slot : Nat, id.toNat = slot + 1 ∧ (t.streams port).slot.toInt = slot := by
    intro hactive hpresent
    rcases lt_or_eq_of_le h.le with hm | hm
    · exact (h.stream hm).slot_toInt hpresent
    · rw [h.ended hm] at hactive
      cases hactive
  rcases aside_or_served hstep hlets hslot with ⟨hnot, haside⟩ | ⟨hserves, hactive, hwaits, noise, haside⟩
  · rw [hnot]
    exact h.aside haside
  · rw [hserves]
    exact (h.serviceStream hactive hwaits noise).aside haside

theorem delivering_run : ∀ {es : List TaskEv} {m : Nat} {t : TaskSdWrite}, Delivering id image ofs count port start m t →
    (∀ es₁ e es₂ s, es = es₁ ++ e :: es₂ → run TaskSdWrite.step t es₁ = some s → s.LetsBe port id e) →
      run TaskSdWrite.step t es = some t' → Delivering id image ofs count port start (m + t.services port es) t'
  | [], _, _, h, _, hrun => by
    cases hrun
    exact h
  | e :: es, m, t, h, hlets, hrun => by
    obtain ⟨s, hs, hrun⟩ := Option.bind_eq_some_iff.1 hrun
    have hfirst := h.step (hlets [] e es t rfl rfl) hs
    have hrest := delivering_run hfirst (fun es₁ e' es₂ s' hes hrun' => hlets (e :: es₁) e' es₂ s' (by rw [hes]; rfl) ?_) hrun
    · rw [Nat.add_assoc] at hrest
      simpa only [TaskSdWrite.services, hs] using hrest
    · rw [run_cons, hs]
      exact hrun'

end

/-- A stream that has ended has sent the answer. -/
theorem Delivering.all {id : UInt16} {image : List UInt8} {ofs count : Nat} {port : Fin 2} {start m : Nat} {t : TaskSdWrite}
    (h : Delivering id image ofs count port start m t) (hended : (t.streams port).active = false) :
    dataTo port (t.posted.drop start) = delivery id image ofs count := by
  rw [h.posted]
  apply delivery_take_all
  rw [← Nat.not_lt]
  intro hlt
  rw [(h.stream hlt).active] at hended
  cases hended

/-- A request handled in any state of the task, on a ring whose slots fit the signed byte a stream keeps its
slot in, and then left alone while the task does anything else. Every call of `serviceStream` that does not
wait for the handle sends the next message of the answer, and the stream ends with the last of these calls. -/
theorem range_delivered (t : TaskSdWrite) (hfiles : t.fileCount ≤ 128) (port : Fin 2) (request : SdLogRequestPayload)
    (es : List TaskEv) (t' : TaskSdWrite) (hrun : run TaskSdWrite.step (t.startStream port request) es = some t')
    (hlets : ∀ es₁ e es₂ s, es = es₁ ++ e :: es₂ → run TaskSdWrite.step (t.startStream port request) es₁ = some s →
      s.LetsBe port request.start e) :
    let answer := delivery request.start (t.readable request.start) request.ofs.toNat request.count.toNat
    let calls := (t.startStream port request).services port es
    let most := callsFor (t.readable request.start) request.ofs.toNat request.count.toNat
    calls ≤ most ∧ dataTo port (t'.posted.drop t.posted.length) = answer.take calls ∧
      ((t'.streams port).active = true ↔ calls < most) ∧
      ((t'.streams port).active = false → dataTo port (t'.posted.drop t.posted.length) = answer) := by
  have h := delivering_run (delivering_startStream hfiles port request) hlets hrun
  rw [Nat.zero_add] at h
  have hactive : (t'.streams port).active = true ↔ (t.startStream port request).services port es <
      callsFor (t.readable request.start) request.ofs.toNat request.count.toNat := by
    refine ⟨fun hactive => lt_of_le_of_ne h.le fun hlast => ?_, fun hlt => (h.stream hlt).active⟩
    rw [h.ended hlast] at hactive
    cases hactive
  exact ⟨h.le, h.posted, hactive, h.all⟩

/-- The TIME at the head of file 2, in two calls: it stops short of the file's end. -/
def headRequest : SdLogRequestPayload := { ofs := 356, count := 16, start := 2, «end» := 2, port := 0 }

def headTask : TaskSdWrite := .boot 4 373 (comeRound 4) opening

def twoCalls : List TaskEv := [.served (fun _ => true) [], .served (fun _ => true) []]

/-- Calls alone let a download be. -/
theorem letsBe_twoCalls {port : Fin 2} {id : UInt16} {es₁ es₂ : List TaskEv} {e : TaskEv} (t : TaskSdWrite)
    (hes : twoCalls = es₁ ++ e :: es₂) : t.LetsBe port id e := by
  have hserved : e = .served (fun _ => true) [] := by
    have hmem : e ∈ twoCalls := hes ▸ List.mem_append_right _ List.mem_cons_self
    simpa [twoCalls] using hmem
  subst hserved
  refine ⟨fun _ _ h => ?_, fun _ _ h => h⟩
  rcases h with h | h <;> cases h

theorem ended_twoCalls : ∃ t', run TaskSdWrite.step (headTask.startStream 0 headRequest) twoCalls = some t' ∧
    (t'.streams 0).active = false := by
  have hended : (run TaskSdWrite.step (headTask.startStream 0 headRequest) twoCalls).map (fun t => (t.streams 0).active) =
      some false := by decide +kernel
  exact Option.map_eq_some_iff.1 hended

theorem range_delivered_head : ∃ t', run TaskSdWrite.step (headTask.startStream 0 headRequest) twoCalls = some t' ∧
    dataTo 0 (t'.posted.drop headTask.posted.length) = delivery 2 (headTask.readable 2) 356 16 := by
  obtain ⟨t', hrun, hended⟩ := ended_twoCalls
  exact ⟨t', hrun, (range_delivered headTask (by decide +kernel) 0 headRequest twoCalls t' hrun
    fun _ _ _ s hes _ => letsBe_twoCalls s hes).2.2.2 hended⟩

end BoredomOS.Log
