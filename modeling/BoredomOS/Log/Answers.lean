/-
The two conversations a port has with the task, over any run: whatever is logged, rotated, replaced, ended or
asked for on the other port in between, what the port is sent falls into one answer for each request it made,
in the order of the requests. A download is answered by the front of the range it asked for, chunk behind
chunk, and nothing follows a chunk without data; a listing by ids of its range, each above the one before.
A port that never asked is sent nothing.
-/
import BoredomOS.Lib.Conversation
import BoredomOS.Log.Delivery
import BoredomOS.Log.Listing

namespace BoredomOS.Log

open Runs
open Conversation (Answered Answers)

/-! ## What is asked and answered -/

/-- The request for a download that an event brings from the port. -/
def asksRead (port : Fin 2) : TaskEv → Option SdLogRequestPayload
  | .received (.logRead request) _ => if TaskSdWrite.portOf request = some port then some request else none
  | _ => none

def asksList (port : Fin 2) : TaskEv → Option SdLogRequestPayload
  | .received (.logList request) _ => if TaskSdWrite.portOf request = some port then some request else none
  | _ => none

/-- Chunks of the log, one behind the other from `ofs` on and none past `bound`; one without data is the last. -/
def Tiles (id : UInt16) (bound : Nat) : Nat → List LogData → Prop
  | _, [] => True
  | ofs, m :: ms => m.id = id ∧ m.ofs.toNat = ofs ∧ ofs + m.count.toNat ≤ bound ∧ (m.count = 0 → ms = []) ∧
    Tiles id bound (ofs + m.count.toNat) ms

/-- The front of the range the request asks for. -/
def AnswersRead (request : SdLogRequestPayload) (ms : List LogData) : Prop :=
  Tiles request.start (request.ofs.toNat + request.count.toNat) request.ofs.toNat ms

def AnswersList (request : SdLogRequestPayload) (ms : List LogEntry) : Prop :=
  (ms.map LogEntry.id).Pairwise (· < ·) ∧ ∀ m ∈ ms, request.start ≤ m.id ∧ m.id ≤ request.end

def carried (ms : List LogData) : Nat := (ms.map fun m => m.count.toNat).sum

theorem Tiles.carried_le {id : UInt16} {bound : Nat} : ∀ {ofs : Nat} {ms : List LogData}, Tiles id bound ofs ms → ofs ≤ bound →
    ofs + carried ms ≤ bound
  | _, [], _, hle => hle
  | ofs, m :: ms, ⟨_, _, hbound, _, hrest⟩, _ => by
    rw [carried, List.map_cons, List.sum_cons, ← Nat.add_assoc]
    exact hrest.carried_le hbound

theorem Tiles.concat {id : UInt16} {bound : Nat} {m : LogData} (hid : m.id = id) : ∀ {ofs : Nat} {ms : List LogData},
    Tiles id bound ofs ms → (∀ x ∈ ms, x.count ≠ 0) → m.ofs.toNat = ofs + carried ms →
      ofs + carried ms + m.count.toNat ≤ bound → Tiles id bound ofs (ms ++ [m])
  | _, [], _, _, hofs, hbound => ⟨hid, hofs, hbound, fun _ => rfl, trivial⟩
  | ofs, x :: ms, ⟨hxid, hxofs, hxbound, _, hrest⟩, hdata, hofs, hbound => by
    rw [carried, List.map_cons, List.sum_cons, ← Nat.add_assoc] at hofs hbound
    exact ⟨hxid, hxofs, hxbound, fun h => absurd h (hdata x List.mem_cons_self),
      hrest.concat hid (fun y hy => hdata y (List.mem_cons_of_mem x hy)) hofs hbound⟩

/-! ## The steps of a download -/

/-- What can become of a stream that is not asked anew, with what its port is sent of it. -/
inductive Streamed (s s' : LogStream) : List LogData → Prop
  | kept (h : s' = s) : Streamed s s' []
  | ended (h : s'.active = false) : Streamed s s' []
  | noData {m : LogData} (hactive : s.active = true) (hid : m.id = s.id) (hofs : m.ofs = s.pos) (hcount : m.count = 0)
      (hended : s'.active = false) : Streamed s s' [m]
  | chunk {m : LogData} (hactive : s.active = true) (hid : m.id = s.id) (hofs : m.ofs = s.pos) (hcount : m.count ≠ 0)
      (hend : s.pos.toNat + m.count.toNat ≤ s.end.toNat)
      (hnext : s' = { s with pos := s.pos + m.count.toUInt32, sentAny := true, lastCount := m.count }) : Streamed s s' [m]

def Continues (port : Fin 2) (t t' : TaskSdWrite) : Prop :=
  ∃ xs, t'.posted = t.posted ++ xs ∧ Streamed (t.streams port) (t'.streams port) (dataTo port xs)

namespace Continues

variable {port q : Fin 2} {t t' t'' : TaskSdWrite}

theorem of_aside (h : Aside port 0 t t') : Continues port t t' := by
  obtain ⟨xs, hxs, hnone⟩ := h.posted
  exact ⟨xs, hxs, hnone ▸ .kept h.stream⟩

theorem after (h : Continues port t' t'') (haside : Aside port 0 t t') : Continues port t t'' := by
  obtain ⟨xs, hxs, hnone⟩ := haside.posted
  obtain ⟨ys, hys, hstream⟩ := h
  refine ⟨xs ++ ys, by rw [hys, hxs, List.append_assoc], ?_⟩
  rwa [dataTo_append, hnone, List.nil_append, ← haside.stream]

theorem before (h : Continues port t t') (haside : Aside port 0 t' t'') : Continues port t t'' := by
  obtain ⟨xs, hxs, hnone⟩ := haside.posted
  obtain ⟨ys, hys, hstream⟩ := h
  refine ⟨ys ++ xs, by rw [hxs, hys, List.append_assoc], ?_⟩
  rwa [dataTo_append, hnone, List.append_nil, haside.stream]

theorem endStream (t : TaskSdWrite) (port : Fin 2) : Continues port t (t.endStream port) :=
  ⟨[], by rw [posted_endStream, List.append_nil], .ended (inactive_endStream t port)⟩

/-- A message without data, after which the stream is no longer active. -/
theorem noData (hactive : (t.streams port).active = true) (hposted : t'.posted = (t.postNoData port).posted)
    (hended : (t'.streams port).active = false) : Continues port t t' := by
  refine ⟨_, hposted, ?_⟩
  rw [dataTo, List.filterMap_cons_some (by rw [if_pos rfl]; rfl), List.filterMap_nil]
  exact .noData hactive rfl rfl rfl hended

theorem readChunk (hactive : (t.streams port).active = true) (hmore : (t.streams port).pos < (t.streams port).end)
    (noise : List UInt8) : Continues port t (t.readChunk port noise) := by
  unfold TaskSdWrite.readChunk
  dsimp only
  split
  · exact endStream t port
  rename_i h _
  have hlen := Worked.read_length_le h t.card (min ((t.streams port).end - (t.streams port).pos).toNat kLogDataChunk) noise
  generalize h.read t.card (min ((t.streams port).end - (t.streams port).pos).toNat kLogDataChunk) noise = read at hlen ⊢
  obtain ⟨data, source⟩ := read
  dsimp only at hlen ⊢
  split
  · exact endStream t port
  rename_i hsome
  have hchunk : kLogDataChunk = 90 := rfl
  have hcount : (UInt8.ofNat data.length).toNat = data.length := by
    rw [UInt8.toNat_ofNat']
    omega
  have hcount' : (UInt8.ofNat data.length).toUInt32 = UInt32.ofNat data.length := by
    rw [← UInt32.toNat_inj, UInt8.toNat_toUInt32, hcount, UInt32.toNat_ofNat']
    omega
  refine ⟨_, rfl, ?_⟩
  rw [dataTo, List.filterMap_cons_some (by rw [if_pos rfl]; rfl), List.filterMap_nil]
  refine .chunk hactive rfl rfl ?_ ?_ ?_
  · intro hzero
    have hlength : data.length = 0 := by
      rw [← hcount]
      exact congrArg UInt8.toNat hzero
    exact hsome (by rw [List.length_eq_zero_iff.1 hlength]; rfl)
  · have hleft : ((t.streams port).end - (t.streams port).pos).toNat = (t.streams port).end.toNat - (t.streams port).pos.toNat :=
      UInt32.toNat_sub_of_le _ _ (UInt32.le_of_lt hmore)
    have hlt := UInt32.lt_iff_toNat_lt.1 hmore
    rw [hcount]
    omega
  · rw [hcount']
    exact Function.update_self ..

theorem serviceStream (hactive : (t.streams port).active = true) (noise : List UInt8) :
    Continues port t (t.serviceStream port noise) := by
  unfold TaskSdWrite.serviceStream
  dsimp only
  split
  · exact noData hactive rfl (by rw [TaskSdWrite.streams_setStream])
  split
  · split
    · exact noData hactive (posted_endStream _ port) (inactive_endStream _ port)
    · exact endStream t port
  rename_i hmore
  rw [ge_iff_le, UInt32.not_le] at hmore
  split
  · exact readChunk hactive hmore noise
  split
  · exact of_aside (.refl t)
  split
  · exact ⟨[], by rw [posted_endStream, List.append_nil], .ended (inactive_endStream _ port)⟩
  · -- opening the handle posts nothing
    exact readChunk (t := { t with reader := some _, readerPort := some port }) hactive hmore noise

theorem endReplaced (t : TaskSdWrite) (after : Nat) (port : Fin 2) : Continues port t (t.endReplaced after port) := by
  unfold TaskSdWrite.endReplaced
  dsimp only
  split
  · rename_i hends
    simp only [Bool.and_eq_true] at hends
    exact noData hends.1.1 (posted_endStream _ port) (inactive_endStream _ port)
  · exact of_aside (.refl t)

/-- Of the two ends a rotation may bring, one is the port's own. -/
theorem endReplaced_both (t : TaskSdWrite) (after : Nat) (port : Fin 2) :
    Continues port t ((t.endReplaced after 0).endReplaced after 1) := by
  have hother : ∀ (t : TaskSdWrite) (q : Fin 2), port ≠ q → Aside port 0 t (t.endReplaced after q) := by
    intro t q hq
    unfold TaskSdWrite.endReplaced
    dsimp only
    split
    · exact (Aside.postNoData hq).trans (.endStream hq)
    · exact .refl t
  obtain rfl | hport : port = 0 ∨ port ≠ 0 := eq_or_ne port 0
  · exact (endReplaced t after 0).before (hother _ 1 (by decide))
  · obtain rfl : port = 1 := by omega
    exact (endReplaced _ after 1).after (hother t 0 (by decide))

theorem writeRecord (t : TaskSdWrite) (incoming : SdRecord) (o : Opening) (port : Fin 2) :
    Continues port t (t.writeRecord incoming o) := by
  unfold TaskSdWrite.writeRecord
  split
  · exact of_aside (.refl t)
  rename_i record _
  dsimp only
  generalize ((Storage.write (some record) (writeLogPreamble o)).run t.sdData).2 = sd
  have hcard : Aside port 0 t { t with sdData := sd } :=
    ⟨rfl, ⟨[], (List.append_nil _).symm, rfl⟩, fun slot hid => absurd hid (Nat.succ_ne_zero slot).symm, fun h => ⟨h, rfl⟩, fun h => h⟩
  split
  · exact (endReplaced_both _ _ port).after hcard
  · exact of_aside hcard

/-- A step goes on with the port's download, or begins the one the port asks for. -/
theorem step {e : TaskEv} (port : Fin 2) (hstep : t.step e = some t') :
    (asksRead port e = none ∧ Continues port t t') ∨ ∃ request, asksRead port e = some request ∧ t' = t.startStream port request := by
  cases e with
  | received incoming o =>
    cases incoming with
    | logList request =>
      obtain ⟨q, -, rfl⟩ := Option.map_eq_some_iff.1 hstep
      exact .inl ⟨rfl, of_aside (.setListing q _)⟩
    | logRead request =>
      obtain ⟨q, hq, rfl⟩ := Option.map_eq_some_iff.1 hstep
      by_cases hport : port = q
      · subst hport
        exact .inr ⟨request, if_pos hq, rfl⟩
      · refine .inl ⟨if_neg ?_, of_aside (.startStream hport request)⟩
        rw [hq, Option.some.injEq]
        exact Ne.symm hport
    | logEnd request =>
      obtain ⟨q, -, rfl⟩ := Option.map_eq_some_iff.1 hstep
      refine .inl ⟨rfl, ?_⟩
      by_cases hport : port = q
      · subst hport
        exact endStream t port
      · exact of_aside (.endStream hport)
    | sys p | pwr p | time p =>
      cases hstep
      exact .inl ⟨rfl, writeRecord t _ o port⟩
  | served room noise =>
    refine .inl ⟨rfl, ?_⟩
    have hnext : ∀ {served : TaskSdWrite} (q : Fin 2), Aside port 0 served { served with nextPort := q } :=
      fun _ => .of_same rfl rfl rfl rfl rfl
    obtain ⟨-, rfl⟩ | ⟨q, served, -, -, rfl, ⟨-, hserved⟩ | ⟨-, hactive, rfl⟩⟩ := serve_cases hstep
    · exact of_aside (.refl _)
    · exact (of_aside (.serviceListing hserved)).before (hnext _)
    · by_cases hport : port = q
      · subst hport
        exact (serviceStream hactive noise).before (hnext _)
      · exact (of_aside (.serviceStream hport noise)).before (hnext _)

end Continues

/-! ## The answers to reads -/

/-- A port's download as far as it is answered. -/
structure Reading (port : Fin 2) (t : TaskSdWrite) (request : SdLogRequestPayload) (ms : List LogData) : Prop where
  tiles : AnswersRead request ms
  stands : (t.streams port).active = true → (∀ m ∈ ms, m.count ≠ 0) ∧ (t.streams port).id = request.start ∧
    (t.streams port).pos.toNat = request.ofs.toNat + carried ms ∧
      (t.streams port).end.toNat ≤ request.ofs.toNat + request.count.toNat

variable {port : Fin 2} {t t' : TaskSdWrite} {request : SdLogRequestPayload}

theorem reading_startStream (t : TaskSdWrite) (port : Fin 2) (request : SdLogRequestPayload) :
    Reading port (t.startStream port request) request [] := by
  refine ⟨trivial, fun _ => ?_⟩
  unfold TaskSdWrite.startStream
  dsimp only
  rw [TaskSdWrite.streams_setStream]
  refine ⟨by simp, rfl, rfl, ?_⟩
  rw [(streamOf_range request _ _).1]
  exact Nat.min_le_right _ _

theorem carried_concat (ms : List LogData) (m : LogData) : carried (ms ++ [m]) = carried ms + m.count.toNat := by
  simp [carried]

theorem Reading.streamed {ms more : List LogData} (h : Reading port t request ms)
    (hstream : Streamed (t.streams port) (t'.streams port) more) : Reading port t' request (ms ++ more) := by
  obtain ⟨htiles, hstands⟩ := h
  cases hstream with
  | kept hsame =>
    rw [List.append_nil]
    exact ⟨htiles, hsame ▸ hstands⟩
  | ended hended =>
    rw [List.append_nil]
    exact ⟨htiles, fun hactive => absurd hactive (by rw [hended]; decide)⟩
  | @noData m hactive hid hofs hcount hended =>
    obtain ⟨hdata, hstart, hpos, -⟩ := hstands hactive
    refine ⟨htiles.concat (hid.trans hstart) hdata (by rw [hofs, hpos]) ?_, fun h => absurd h (by rw [hended]; decide)⟩
    rw [hcount]
    exact htiles.carried_le (Nat.le_add_right _ _)
  | @chunk m hactive hid hofs hcount hend hnext =>
    obtain ⟨hdata, hstart, hpos, hbound⟩ := hstands hactive
    refine ⟨htiles.concat (hid.trans hstart) hdata (by rw [hofs, hpos]) (by omega), fun _ => ?_⟩
    rw [hnext]
    refine ⟨?_, hstart, ?_, hbound⟩
    · intro x hx
      rcases List.mem_append.1 hx with hx | hx
      · exact hdata x hx
      · rw [List.mem_singleton.1 hx]
        exact hcount
    · have hlt := (t.streams port).end.toNat_lt
      rw [UInt32.toNat_add, UInt8.toNat_toUInt32, carried_concat, Nat.mod_eq_of_lt (by omega)]
      omega

/-! ## The answers to lists -/

/-- A port's listing as far as it is answered. -/
structure Reporting (port : Fin 2) (t : TaskSdWrite) (request : SdLogRequestPayload) (ms : List LogEntry) : Prop where
  answers : AnswersList request ms
  files : t.fileCount ≤ 255
  stands : (t.listings port).active = true → (t.listings port).start = request.start ∧ (t.listings port).end = request.end ∧
    ∀ m ∈ ms, m.id.toNat ≤ (t.listings port).nextSlot.toNat

theorem asksList_eq_some {e : TaskEv} : asksList port e = some request ↔
    ∃ o, e = .received (.logList request) o ∧ TaskSdWrite.portOf request = some port := by
  constructor
  · intro h
    unfold asksList at h
    split at h
    · split at h
      · rename_i o hport
        cases h
        exact ⟨o, rfl, hport⟩
      · cases h
    · cases h
  · rintro ⟨o, rfl, hport⟩
    exact if_pos hport

theorem keepsListing_of_asks {e : TaskEv} (h : asksList port e = none) : KeepsListing port e := by
  intro request o he hport
  rw [asksList_eq_some.2 ⟨o, he, hport⟩] at h
  cases h

/-- The slot reported is one the cursor had not passed. -/
theorem Reporting.entry {ms : List LogEntry} (h : Reporting port t request ms) (hactive : (t.listings port).active = true)
    {slot : Nat} (hslot : Cursor.next (TaskSdWrite.lists request) t.fileCount t (t.listings port).nextSlot.toNat = some slot)
    (hfiles : t'.fileCount = t.fileCount)
    (hlisting : t'.listings port = { t.listings port with nextSlot := UInt8.ofNat (slot + 1) }) :
    Reporting port t' request (ms ++ [t.entryOf slot]) := by
  obtain ⟨⟨hsorted, hrange⟩, hcount, hstands⟩ := h
  obtain ⟨hstart, hend, hpassed⟩ := hstands hactive
  obtain ⟨hfrom, hlt, hlists, -⟩ := Cursor.next_eq_some.1 hslot
  obtain ⟨hlow, hhigh, -⟩ := lists_iff.1 hlists
  have hid : (t.entryOf slot).id.toNat = slot + 1 := by
    show (UInt16.ofNat (slot + 1)).toNat = slot + 1
    rw [UInt16.toNat_ofNat']
    omega
  have hnext : (t'.listings port).nextSlot.toNat = slot + 1 := by
    rw [hlisting]
    show (UInt8.ofNat (slot + 1)).toNat = slot + 1
    rw [UInt8.toNat_ofNat']
    omega
  refine ⟨⟨?_, ?_⟩, hfiles ▸ hcount, fun _ => ⟨by rw [hlisting, ← hstart], by rw [hlisting, ← hend], ?_⟩⟩
  · rw [List.map_append, List.pairwise_append]
    refine ⟨hsorted, List.pairwise_singleton _ _, fun x hx y hy => ?_⟩
    obtain ⟨m, hm, rfl⟩ := List.mem_map.1 hx
    obtain rfl : (t.entryOf slot).id = y := (List.mem_singleton.1 hy).symm
    have hbefore := hpassed m hm
    rw [UInt16.lt_iff_toNat_lt, hid]
    omega
  · intro m hm
    rcases List.mem_append.1 hm with hm | hm
    · exact hrange m hm
    · rw [List.mem_singleton.1 hm]
      exact ⟨hlow, hhigh⟩
  · intro m hm
    rcases List.mem_append.1 hm with hm | hm
    · have hbefore := hpassed m hm
      omega
    · rw [List.mem_singleton.1 hm, hid, hnext]

/-- A step goes on with the port's listing. -/
theorem Reporting.step {ms : List LogEntry} (h : Reporting port t request ms) {e : TaskEv} (hstep : t.step e = some t')
    (hnone : asksList port e = none) :
    ∃ more, entriesTo port t'.posted = entriesTo port t.posted ++ more ∧ Reporting port t' request (ms ++ more) := by
  rcases listing_step (keepsListing_of_asks hnone) hstep with ⟨-, hapart⟩ | ⟨-, hactive, served, hserved, hlistings, hposted, hfiles⟩
  · obtain ⟨xs, hxs, hentries⟩ := hapart.posted
    refine ⟨[], by rw [hxs, entriesTo_append, hentries], ?_⟩
    rw [List.append_nil]
    exact ⟨h.answers, hapart.files ▸ h.files, hapart.listing ▸ h.stands⟩
  obtain ⟨hstart, hend, -⟩ := h.stands hactive
  rcases serviceListing_next h.files hstart hend hserved with ⟨slot, hslot, rfl⟩ | ⟨-, listing, rfl⟩
  · refine ⟨[t.entryOf slot], ?_, h.entry hactive hslot hfiles ((congrFun hlistings port).trans (t.listings_setListing port _))⟩
    rw [hposted]
    refine (entriesTo_append port t.posted _).trans ?_
    rw [entriesTo, entriesTo, List.filterMap_cons_some (by rw [if_pos rfl]; rfl), List.filterMap_nil]
  · refine ⟨[], by rw [hposted, List.append_nil]; rfl, ?_⟩
    rw [List.append_nil]
    refine ⟨h.answers, hfiles ▸ h.files, fun hstill => ?_⟩
    rw [hlistings, TaskSdWrite.listings_setListing] at hstill
    cases hstill

/-! ## Over a run -/

theorem answers_reads (port : Fin 2) : Answers AnswersRead TaskSdWrite.step (asksRead port) (fun t => dataTo port t.posted)
    (fun t => (t.streams port).active = false) (Reading port) where
  idle {t t' e} hidle hstep hnone := by
    rcases Continues.step port hstep with ⟨-, xs, hxs, hstream⟩ | ⟨request, hasks, -⟩
    · rw [hxs, dataTo_append]
      generalize dataTo port xs = ms at hstream ⊢
      cases hstream with
      | kept hsame => exact ⟨List.append_nil _, hsame ▸ hidle⟩
      | ended hended => exact ⟨List.append_nil _, hended⟩
      | noData hactive | chunk hactive => exact absurd hactive (by rw [hidle]; decide)
    · rw [hasks] at hnone
      cases hnone
  ask {t t' e request} _ hstep hasks := by
    rcases Continues.step port hstep with ⟨hnone, -⟩ | ⟨request', hasks', rfl⟩
    · rw [hasks] at hnone
      cases hnone
    · obtain rfl : request' = request := Option.some.inj (hasks'.symm.trans hasks)
      exact ⟨congrArg (dataTo port) (posted_endStream t port), reading_startStream t port request'⟩
  go {t t' e request ms} hreading hstep hnone := by
    rcases Continues.step port hstep with ⟨-, xs, hxs, hstream⟩ | ⟨request', hasks, -⟩
    · exact ⟨_, by rw [hxs, dataTo_append], hreading.streamed hstream⟩
    · rw [hasks] at hnone
      cases hnone
  whole h := h.tiles

theorem answers_lists (port : Fin 2) : Answers AnswersList TaskSdWrite.step (asksList port) (fun t => entriesTo port t.posted)
    (fun t => t.fileCount ≤ 255 ∧ (t.listings port).active = false) (Reporting port) where
  idle {t t' e} hidle hstep hnone := by
    obtain ⟨hcount, hinactive⟩ := hidle
    rcases listing_step (keepsListing_of_asks hnone) hstep with ⟨-, hapart⟩ | ⟨-, hactive, -⟩
    · obtain ⟨xs, hxs, hentries⟩ := hapart.posted
      rw [hxs, entriesTo_append, hentries]
      exact ⟨List.append_nil _, hapart.files ▸ hcount, hapart.listing ▸ hinactive⟩
    · rw [hinactive] at hactive
      cases hactive
  ask {t t' e request} hwas hstep hasks := by
    have hcount : t.fileCount ≤ 255 := hwas.elim And.left fun ⟨_, _, h⟩ => h.files
    obtain ⟨o, rfl, hport⟩ := asksList_eq_some.1 hasks
    rw [TaskSdWrite.step, TaskSdWrite.receive, hport] at hstep
    cases hstep
    exact ⟨rfl, ⟨List.Pairwise.nil, by simp⟩, hcount, fun _ => by simp [TaskSdWrite.startListing]⟩
  go h hstep hnone := h.step hstep hnone
  whole h := h.answers

/-- On a ring of at most 255 files: each port is sent one answer to each of its requests, in their order. -/
theorem answers_follow_requests (files size : Nat) (hpos : 0 < files) (hmax : files ≤ 255) (c : Storage.Card LogPiece)
    (o : Opening) (es : List TaskEv) (t : TaskSdWrite) (hrun : run TaskSdWrite.step (.boot files size c o) es = some t)
    (port : Fin 2) :
    Answered AnswersRead (es.filterMap (asksRead port)) (dataTo port t.posted) ∧
      Answered AnswersList (es.filterMap (asksList port)) (entriesTo port t.posted) := by
  have hfiles : (TaskSdWrite.boot files size c o).fileCount = files := (taskOk_boot hpos size c o).files
  constructor
  · exact (answers_reads port).run rfl rfl hrun
  · exact (answers_lists port).run ⟨hfiles.le.trans hmax, rfl⟩ rfl hrun

/-- A download of a whole file that another replaces after two chunks, with a listing before the first. -/
def replacedRead : List TaskEv :=
  [.received (.logRead { headRequest with ofs := 0, count := 0xFFFFFFFF }) opening, .received (.logList listAll) opening,
    serveAll, serveAll, serveAll, serveAll, serveAll, serveAll, serveAll, .received (.logRead headRequest) opening, serveAll, serveAll]

theorem answers_follow_requests_replaced : ∃ t, run TaskSdWrite.step (.boot 4 373 (comeRound 4) opening) replacedRead = some t ∧
    (dataTo 0 t.posted).map (fun m => (m.ofs, m.count)) = [(0, 90), (90, 90), (356, 16)] ∧
    (entriesTo 0 t.posted).map LogEntry.id = [1, 2, 3, 4] ∧
    Answered AnswersRead (replacedRead.filterMap (asksRead 0)) (dataTo 0 t.posted) ∧
      Answered AnswersList (replacedRead.filterMap (asksList 0)) (entriesTo 0 t.posted) := by
  have hsent : (run TaskSdWrite.step (.boot 4 373 (comeRound 4) opening) replacedRead).map (fun t =>
      ((dataTo 0 t.posted).map (fun m => (m.ofs, m.count)), (entriesTo 0 t.posted).map LogEntry.id)) =
      some ([(0, 90), (90, 90), (356, 16)], [1, 2, 3, 4]) := by decide +kernel
  obtain ⟨t, hrun, hsent⟩ := Option.map_eq_some_iff.1 hsent
  obtain ⟨hdata, hentries⟩ := Prod.mk.inj hsent
  exact ⟨t, hrun, hdata, hentries,
    answers_follow_requests 4 373 (by decide) (by decide) (comeRound 4) opening replacedRead t hrun 0⟩

end BoredomOS.Log
