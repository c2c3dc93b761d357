/-
What a download skips. `serviceStream` and `serviceListing` move on whether or not the write queue took
what they posted: as long as it does, the chunks accepted for one request follow each other without a
gap. The queue held at most one item when `portHasRoom()` looked, so it takes a burst of eight or more
messages of `TaskMavlink` before the send to lose one.
-/
import Mathlib.Data.List.Chain
import BoredomOS.Log.Listing
import BoredomOS.Log.Tasks

namespace BoredomOS.Log

open Runs
open Link (Producer writeQueueDepth)

/-! ## What is asked of a run -/

def Post.data (x : Post) : Option LogData :=
  match x.msg with
  | .logData m => some m
  | .logEntry _ => none

/-- The LOG_DATA a port's queue accepted for the request of that number, in order. -/
def acceptedData (port : Fin 2) (request : Nat) (sent : List Sent) : List LogData :=
  sent.filterMap fun x => if x.accepted ∧ x.post.port = port ∧ x.request = request then x.post.data else none

/-- Each begins where the one before ended. -/
def Contiguous (ms : List LogData) : Prop := List.IsChain (fun a b => b.ofs = a.ofs + a.count.toUInt32) ms

namespace TaskSdWrite

/-- The handle the port's stream is read through: its own, or the one it opens while the other stream has none. -/
def handle (t : TaskSdWrite) (port : Fin 2) : Option Handle :=
  if t.readerPort = some port then t.reader
  else if t.readerPort.isSome then none
  else (fileAt t.card (t.streams port).slot.toInt).map fun f =>
    { slot := (t.streams port).slot.toInt.toNat, born := f.born, size := f.image.length
      pos := if (t.streams port).pos.toNat ≤ f.image.length then (t.streams port).pos.toNat else 0 }

/-- What is read through it, up to a chunk and the stream's end. -/
def chunk (t : TaskSdWrite) (port : Fin 2) (noise : List UInt8) : List UInt8 :=
  let stream := t.streams port
  if stream.absent = true ∨ stream.pos ≥ stream.end then []
  else (t.handle port).elim [] fun h => (h.read t.card (min (stream.end - stream.pos).toNat kLogDataChunk) noise).1

/-- The port's piece moves on: there is a slot to report, or a chunk with bytes. -/
def MovesOn (t : TaskSdWrite) (port : Fin 2) (noise : List UInt8) : Prop :=
  if (t.listings port).active then ∃ listing found, t.nextListed 257 (t.listings port) = some (listing, some found)
  else (t.streams port).active = true ∧ t.chunk port noise ≠ []

end TaskSdWrite

/-- The service moved a stream, or moved past a slot it reported. -/
def Moved (s s' : Tasks) (port : Fin 2) : Prop :=
  (s'.sdWrite.streams port).pos ≠ (s.sdWrite.streams port).pos ∨
    ∃ x ∈ s'.out.sent.drop s.out.sent.length, x.post.port = port ∧ ∃ m, x.post.msg = .logEntry m

/-- A stream moves on by the bytes of an accepted LOG_DATA that starts where it stood, and a slot is
reported by an accepted LOG_ENTRY. -/
def KeepsPlace (s s' : Tasks) (port : Fin 2) : Prop :=
  ((s'.sdWrite.streams port).pos ≠ (s.sdWrite.streams port).pos →
    ∃ x ∈ s'.out.sent.drop s.out.sent.length, x.post.port = port ∧ x.accepted = true ∧ ∃ m, x.post.msg = .logData m ∧
      m.ofs = (s.sdWrite.streams port).pos ∧ (s'.sdWrite.streams port).pos = m.ofs + m.count.toUInt32) ∧
  ∀ x ∈ s'.out.sent.drop s.out.sent.length, ∀ m, x.post.port = port → x.post.msg = .logEntry m → x.accepted = true

/-- No service of the run moves past what the queue refused, and what it accepted for one request has
no gap. -/
def NothingSkipped (b : Tasks) (es : List TasksEv) : Prop :=
  (∀ es₁ noise es₂ s s', es = es₁ ++ .service noise :: es₂ → run Tasks.step b es₁ = some s →
    s.step (.service noise) = some s' → ∀ port, KeepsPlace s s' port) ∧
  ∀ es₁ es₂ s, es = es₁ ++ es₂ → run Tasks.step b es₁ = some s → ∀ port request,
    Contiguous (acceptedData port request s.out.sent)

/-- A piece that moves on finds a free slot in the write queue. -/
def RoomForMoves (b : Tasks) (es : List TasksEv) : Prop :=
  ∀ es₁ noise es₂ s port, es = es₁ ++ .service noise :: es₂ → run Tasks.step b es₁ = some s →
    s.stage = .service port → s.sdWrite.MovesOn port noise → (s.out.writeQueue port).length < writeQueueDepth

/-! ## One service -/

/-- A stream that moved sent its bytes. -/
theorem sent_of_moved {s s' : Tasks} {xs : List Sent} (h : Worked s.sdWrite s'.sdWrite (xs.map Sent.post)) {port : Fin 2}
    (hmoved : (s'.sdWrite.streams port).pos ≠ (s.sdWrite.streams port).pos) :
    ∃ x ∈ xs, x.post.port = port ∧ ∃ m, x.post.msg = .logData m ∧ m.ofs = (s.sdWrite.streams port).pos ∧
      (s'.sdWrite.streams port).pos = m.ofs + m.count.toUInt32 := by
  have hpost : ∃ p ∈ xs.map Sent.post, p.port = port ∧ ∃ m, p.msg = .logData m := by
    by_contra hnone
    push Not at hnone
    exact hmoved (h.still port hnone)
  obtain ⟨p, hp, rfl, m, hm⟩ := hpost
  obtain ⟨x, hx, rfl⟩ := List.mem_map.1 hp
  obtain ⟨-, hofs, hpos⟩ := h.data x.post hp m hm
  exact ⟨x, hx, rfl, m, hm, hofs, by rw [hpos, hofs]⟩

namespace TaskSdWrite

theorem length_chunk (t : TaskSdWrite) (port : Fin 2) (noise : List UInt8) : (t.chunk port noise).length ≤ kLogDataChunk := by
  unfold chunk
  dsimp only
  split
  · exact Nat.zero_le _
  · cases t.handle port with
    | none => exact Nat.zero_le _
    | some h => exact (Worked.read_length_le h t.card _ noise).trans (Nat.min_le_right _ _)

theorem pos_endStream (t : TaskSdWrite) (port : Fin 2) : ((t.endStream port).streams port).pos = (t.streams port).pos := by
  rw [streams_endStream, if_pos rfl]

theorem pos_readChunk (t : TaskSdWrite) (port : Fin 2) (noise : List UInt8) :
    ((t.readChunk port noise).streams port).pos = (t.streams port).pos + UInt32.ofNat (t.reader.elim [] fun h =>
      (h.read t.card (min ((t.streams port).end - (t.streams port).pos).toNat kLogDataChunk) noise).1).length := by
  unfold readChunk
  dsimp only
  split
  · rename_i hreader
    rw [pos_endStream, hreader]
    exact (UInt32.add_zero _).symm
  · rename_i h hreader
    rw [hreader, Option.elim_some]
    generalize h.read t.card (min ((t.streams port).end - (t.streams port).pos).toNat kLogDataChunk) noise = read
    obtain ⟨data, source⟩ := read
    dsimp only
    split
    · rename_i hempty
      rw [List.isEmpty_iff.1 hempty, pos_endStream]
      exact (UInt32.add_zero _).symm
    · simp [setStream]

/-- A stream moves on by what it reads. -/
theorem pos_serviceStream (t : TaskSdWrite) (port : Fin 2) (noise : List UInt8) :
    ((t.serviceStream port noise).streams port).pos = (t.streams port).pos + UInt32.ofNat (t.chunk port noise).length := by
  have hstill : ∀ {pos : UInt32}, pos = (t.streams port).pos → t.chunk port noise = [] →
      pos = (t.streams port).pos + UInt32.ofNat (t.chunk port noise).length := by
    rintro _ rfl hnone
    rw [hnone]
    exact (UInt32.add_zero _).symm
  unfold serviceStream
  dsimp only
  split
  · rename_i habsent
    exact hstill (by rw [streams_setStream]) (by simp [chunk, habsent])
  rename_i hpresent
  split
  · rename_i hend
    refine hstill ?_ (by simp [chunk, ge_iff_le.1 hend])
    split
    · exact pos_endStream _ port
    · exact pos_endStream _ port
  rename_i hmore
  -- behind both tests the chunk is what the handle reads
  have hchunk : t.chunk port noise = (t.handle port).elim [] fun h =>
      (h.read t.card (min ((t.streams port).end - (t.streams port).pos).toNat kLogDataChunk) noise).1 :=
    if_neg (not_or.2 ⟨hpresent, hmore⟩)
  split
  · rename_i hown
    rw [pos_readChunk, hchunk, handle, if_pos hown]
  rename_i hnot
  split
  · rename_i hheld
    exact hstill rfl (by rw [hchunk, handle, if_neg hnot, if_pos hheld]; rfl)
  rename_i hfree
  have hopened : t.handle port = _ := (if_neg hnot).trans (if_neg hfree)
  split
  · rename_i hfile
    refine hstill (pos_endStream _ port) ?_
    rw [hchunk, hopened, hfile]
    rfl
  · rename_i f hfile
    rw [pos_readChunk, hchunk, hopened, hfile]
    rfl

/-- A listing moves past a slot exactly if it reports one. -/
theorem posts_serviceListing {t t' : TaskSdWrite} {port : Fin 2} (h : t.serviceListing port = some t') :
    (∃ x ∈ t'.posted.drop t.posted.length, ∃ m, x.msg = .logEntry m) ↔
      ∃ listing found, t.nextListed 257 (t.listings port) = some (listing, some found) := by
  obtain ⟨⟨listing, found⟩, hnext, rfl⟩ := Option.map_eq_some_iff.1 h
  rw [hnext]
  cases found with
  | none => simp [setListing]
  | some found => simp [setListing, send]

end TaskSdWrite

/-- The queue takes what is sent exactly if it has a free slot. -/
theorem keepsPlace_iff {s s' : Tasks} {noise : List UInt8} (h : s.step (.service noise) = some s') (port : Fin 2) :
    KeepsPlace s s' port ↔ (Moved s s' port → (s.out.writeQueue port).length < writeQueueDepth) := by
  obtain ⟨-, xs, -, hw, hsends, -, -⟩ := service_cases h
  have hnew : s'.out.sent.drop s.out.sent.length = xs := by rw [hsends.sent, List.drop_left]
  unfold KeepsPlace Moved
  rw [hnew]
  have hroom : ∀ x ∈ xs, x.post.port = port →
      (x.accepted = true ↔ (s.out.writeQueue port).length < writeQueueDepth) := by
    rintro x hx rfl
    rw [hsends.accepted x hx, decide_eq_true_iff]
  constructor
  · rintro ⟨hstream, hlisting⟩ (hmoved | ⟨x, hx, hport, m, hm⟩)
    · obtain ⟨x, hx, hport, haccepted, -⟩ := hstream hmoved
      exact (hroom x hx hport).1 haccepted
    · exact (hroom x hx hport).1 (hlisting x hx m hport hm)
  · intro hmoves
    refine ⟨fun hmoved => ?_, fun x hx m hport hm => (hroom x hx hport).2 (hmoves (Or.inr ⟨x, hx, hport, m, hm⟩))⟩
    obtain ⟨x, hx, hport, hdata⟩ := sent_of_moved hw hmoved
    exact ⟨x, hx, hport, (hroom x hx hport).2 (hmoves (Or.inl hmoved)), hdata⟩

theorem find_own : ∀ (work : Fin 2 → Bool) (next port : Fin 2),
    [next, next + 1].find? (fun q => work q && decide (q = port)) = if work port then some port else none := by
  decide

/-- The download work for the one port that has room. -/
theorem serve_own (t : TaskSdWrite) (port : Fin 2) (noise : List UInt8) :
    t.serve (fun q => decide (q = port)) noise =
      if (t.listings port).active then (t.serviceListing port).map fun t => { t with nextPort := port + 1 }
      else if (t.streams port).active then some { t.serviceStream port noise with nextPort := port + 1 } else some t := by
  unfold TaskSdWrite.serve
  rw [find_own fun q => (t.listings q).active || (t.streams q).active]
  cases hlisting : (t.listings port).active <;> cases hstream : (t.streams port).active <;> simp [hlisting]

theorem isSome_service {s : Tasks} {port : Fin 2} {noise : List UInt8} (hstage : s.stage = .service port)
    (hmoves : s.sdWrite.MovesOn port noise) : (s.step (.service noise)).isSome = true := by
  simp only [Tasks.step, hstage, Option.isSome_map, serve_own]
  unfold TaskSdWrite.MovesOn at hmoves
  split at hmoves
  · rename_i hlisting
    obtain ⟨listing, found, hnext⟩ := hmoves
    simp [hlisting, TaskSdWrite.serviceListing, hnext]
  · rename_i hlisting
    simp [hlisting, hmoves.1]

/-- The piece moves the stream or reports a slot exactly if it moves on. -/
theorem movesOn_serve {t t' : TaskSdWrite} {port : Fin 2} {noise : List UInt8}
    (h : t.serve (fun q => decide (q = port)) noise = some t') :
    ((t'.streams port).pos ≠ (t.streams port).pos ∨ ∃ x ∈ t'.posted.drop t.posted.length, ∃ m, x.msg = .logEntry m) ↔
      t.MovesOn port noise := by
  rw [serve_own] at h
  unfold TaskSdWrite.MovesOn
  split at h
  · rename_i hlisting
    obtain ⟨listed, hlisted, rfl⟩ := Option.map_eq_some_iff.1 h
    have hpos : (listed.streams port).pos = (t.streams port).pos := by
      obtain ⟨⟨listing, found⟩, -, rfl⟩ := Option.map_eq_some_iff.1 hlisted
      cases found <;> rfl
    rw [if_pos hlisting, ← TaskSdWrite.posts_serviceListing hlisted]
    exact or_iff_right fun hmoved => hmoved hpos
  rename_i hlisting
  rw [if_neg hlisting]
  split at h
  · rename_i hactive
    cases h
    have hquiet : ¬ ∃ x ∈ (t.serviceStream port noise).posted.drop t.posted.length, ∃ m, x.msg = .logEntry m := by
      obtain ⟨posts, hposts, hnone⟩ := (Beside.serviceStream t port noise).posted
      rw [hposts, List.drop_left]
      rintro ⟨x, hx, m, hm⟩
      have hentryless := hnone x hx
      rw [Post.entry, hm] at hentryless
      cases hentryless
    have hbytes : UInt32.ofNat (t.chunk port noise).length = 0 ↔ t.chunk port noise = [] := by
      have hlength := TaskSdWrite.length_chunk t port noise
      have h90 : kLogDataChunk = 90 := rfl
      rw [← List.length_eq_zero_iff, ← UInt32.toNat_inj, UInt32.toNat_ofNat']
      change _ % 2 ^ 32 = 0 ↔ _
      omega
    rw [or_iff_left hquiet]
    change ((t.serviceStream port noise).streams port).pos ≠ _ ↔ _
    rw [TaskSdWrite.pos_serviceStream, ne_eq, UInt32.add_eq_left, hbytes]
    exact (and_iff_right hactive).symm
  · rename_i hidle
    cases h
    simp [hidle]

/-- A service moves exactly what its piece moves, at the port it serves. -/
theorem moved_iff {s s' : Tasks} {noise : List UInt8} (h : s.step (.service noise) = some s') (port : Fin 2) :
    Moved s s' port ↔ s.stage = .service port ∧ s.sdWrite.MovesOn port noise := by
  obtain ⟨served, xs, hstage, hw, hsends, hports, -⟩ := service_cases h
  have hnew : s'.out.sent.drop s.out.sent.length = xs := by rw [hsends.sent, List.drop_left]
  by_cases hport : served = port
  swap
  · -- the other port's stream stands still, and nothing is posted to it
    refine iff_of_false ?_ fun hmoves => hport (Stage.service.inj (hstage.symm.trans hmoves.1))
    rintro (hmoved | ⟨x, hx, hx', -⟩)
    · obtain ⟨x, hx, hx', -⟩ := sent_of_moved hw hmoved
      exact hport ((hports x hx).symm.trans hx')
    · rw [hnew] at hx
      exact hport ((hports x hx).symm.trans hx')
  subst hport
  obtain ⟨t, ht, rfl⟩ : ∃ t, s.sdWrite.serve (fun q => decide (q = served)) noise = some t ∧ s.worked t = s' := by
    simpa [Tasks.step, hstage] using h
  have hentry : (∃ x ∈ xs, x.post.port = served ∧ ∃ m, x.post.msg = .logEntry m) ↔
      ∃ x ∈ t.posted.drop s.sdWrite.posted.length, ∃ m, x.msg = .logEntry m := by
    have hposted : t.posted = s.sdWrite.posted ++ xs.map Sent.post := hw.posted
    rw [hposted, List.drop_left]
    constructor
    · rintro ⟨x, hx, -, hm⟩
      exact ⟨x.post, List.mem_map_of_mem hx, hm⟩
    · rintro ⟨_, hmem, hm⟩
      obtain ⟨x, hx, rfl⟩ := List.mem_map.1 hmem
      exact ⟨x, hx, hports x hx, hm⟩
  rw [Moved, hnew, hentry]
  exact (movesOn_serve ht).trans (and_iff_right hstage).symm

/-! ## The chunks of a request -/

/-- A stream stands where the last accepted chunk of its request ended. -/
structure Placed (s : Tasks) : Prop where
  order : InOrder s
  chained : ∀ port request, Contiguous (acceptedData port request s.out.sent)
  reached : ∀ port, ∀ m ∈ (acceptedData port (s.request port) s.out.sent).getLast?,
    (s.sdWrite.streams port).pos = m.ofs + m.count.toUInt32
  known : ∀ x ∈ s.out.sent, x.request ≤ s.request x.post.port

theorem acceptedData_append (port : Fin 2) (request : Nat) (xs ys : List Sent) :
    acceptedData port request (xs ++ ys) = acceptedData port request xs ++ acceptedData port request ys :=
  List.filterMap_append

/-- Of messages to different ports at most one is for this port. -/
theorem acceptedData_nodup (port : Fin 2) (request : Nat) : ∀ {xs : List Sent}, ((xs.map Sent.post).map Post.port).Nodup →
    acceptedData port request xs = [] ∨ ∃ x ∈ xs, ∃ m, x.post.msg = .logData m ∧ x.post.port = port ∧
      x.request = request ∧ acceptedData port request xs = [m]
  | [], _ => Or.inl rfl
  | x :: xs, h => by
    simp only [List.map_cons, List.nodup_cons] at h
    have hcons : acceptedData port request (x :: xs) = acceptedData port request [x] ++ acceptedData port request xs :=
      acceptedData_append port request [x] xs
    rcases acceptedData_nodup port request h.2 with hrest | ⟨y, hy, m, hm, hport, hreq, hrest⟩
    · rw [hcons, hrest, List.append_nil]
      by_cases hx : x.accepted ∧ x.post.port = port ∧ x.request = request
      · cases hd : x.post.data with
        | none => exact Or.inl (by simp [acceptedData, hx, hd])
        | some m =>
          have hm : x.post.msg = .logData m := by
            unfold Post.data at hd
            split at hd <;> cases hd
            assumption
          exact Or.inr ⟨x, List.mem_cons_self, m, hm, hx.2.1, hx.2.2, by simp [acceptedData, hx, hd]⟩
      · exact Or.inl (by simp [acceptedData, hx])
    · have hne : x.post.port ≠ port := by
        rintro heq
        refine h.1 ?_
        rw [heq, ← hport]
        exact List.mem_map_of_mem (List.mem_map_of_mem hy)
      refine Or.inr ⟨y, List.mem_cons_of_mem _ hy, m, hm, hport, hreq, ?_⟩
      rw [hcons, hrest]
      simp [acceptedData, hne]

/-- An accepted chunk of the stream's own request is in the list. -/
theorem mem_acceptedData {xs : List Sent} {x : Sent} {m : LogData} (hx : x ∈ xs) (haccepted : x.accepted = true)
    (hm : x.post.msg = .logData m) : m ∈ acceptedData x.post.port x.request xs :=
  List.mem_filterMap.2 ⟨x, hx, by simp [haccepted, Post.data, hm]⟩

/-- Work keeps the place if no chunk with bytes was refused. -/
theorem placed_worked {s s' : Tasks} {xs : List Sent} (h : Placed s) (horder : InOrder s')
    (hw : Worked s.sdWrite s'.sdWrite (xs.map Sent.post)) (hsends : Sends s.request s.out s'.out xs)
    (hreq : s'.request = s.request)
    (hlost : ∀ x ∈ xs, ∀ m, x.post.msg = .logData m → x.accepted = false → m.count = 0) : Placed s' := by
  have hown := hsends.request
  have hdata : ∀ x ∈ xs, ∀ m, x.post.msg = .logData m → m.ofs = (s.sdWrite.streams x.post.port).pos ∧
      (s'.sdWrite.streams x.post.port).pos = m.ofs + m.count.toUInt32 := by
    intro x hx m hm
    obtain ⟨-, hofs, hpos⟩ := hw.data x.post (List.mem_map_of_mem hx) m hm
    exact ⟨hofs, by rw [hpos, hofs]⟩
  refine ⟨horder, fun port request => ?_, fun port m hlast => ?_, fun x hx => ?_⟩
  · rw [hsends.sent, acceptedData_append]
    rcases acceptedData_nodup port request hw.ports with hnone | ⟨x, hx, m, hm, rfl, rfl, hone⟩
    · rw [hnone, List.append_nil]
      exact h.chained port request
    · rw [hone]
      refine (h.chained _ _).append (List.isChain_singleton m) ?_
      intro a ha b hb
      obtain rfl : m = b := by simpa using hb
      rw [hown x hx] at ha
      rw [(hdata x hx m hm).1, h.reached _ a ha]
  · rw [hsends.sent, hreq, acceptedData_append] at hlast
    rcases acceptedData_nodup port (s.request port) hw.ports with hnone | ⟨x, hx, m', hm, rfl, -, hone⟩
    · rw [hnone, List.append_nil] at hlast
      rw [← h.reached port m hlast]
      by_contra hmoved
      obtain ⟨x, hx, rfl, m', hm, hofs, hpos⟩ := sent_of_moved hw hmoved
      cases haccepted : x.accepted with
      | true =>
        have hmem := mem_acceptedData hx haccepted hm
        rw [hown x hx, hnone] at hmem
        cases hmem
      | false =>
        rw [hlost x hx m' hm haccepted] at hpos
        exact hmoved (by rw [hpos, hofs]; exact UInt32.add_zero _)
    · rw [hone, List.getLast?_concat] at hlast
      cases hlast
      exact (hdata x hx m hm).2
  · rw [hsends.sent] at hx
    rw [hreq]
    rcases List.mem_append.1 hx with hx | hx
    · exact h.known x hx
    · exact (hown x hx).le

theorem placed_restarted {s s' : Tasks} {port : Fin 2} {number : Nat} (h : Placed s) (horder : InOrder s')
    (hlater : s.request port < number) (hreq : s'.request = Function.update s.request port number) (hout : s'.out = s.out)
    (hothers : ∀ q, q ≠ port → s'.sdWrite.streams q = s.sdWrite.streams q) : Placed s' := by
  refine ⟨horder, fun q request => ?_, fun q m hlast => ?_, fun x hx => ?_⟩
  · rw [hout]
    exact h.chained q request
  · rw [hout, hreq] at hlast
    by_cases hq : q = port
    · -- nothing was accepted for a request that comes only now
      subst hq
      rw [Function.update_self] at hlast
      obtain ⟨x, hx, hsome⟩ := List.mem_filterMap.1 (List.mem_of_getLast? hlast)
      split at hsome
      · rename_i hcond
        have hle := h.known x hx
        rw [hcond.2.1, hcond.2.2] at hle
        omega
      · cases hsome
    · rw [Function.update_of_ne hq] at hlast
      rw [hothers q hq]
      exact h.reached q m hlast
  · rw [hout] at hx
    have hle := h.known x hx
    rw [hreq]
    by_cases hq : x.post.port = port
    · rw [hq] at hle ⊢
      rw [Function.update_self]
      omega
    · rwa [Function.update_of_ne hq]

theorem placed_step {s s' : Tasks} {e : TasksEv} (h : Placed s) (hs : s.step e = some s')
    (hkept : ∀ noise, e = .service noise → ∀ port, KeepsPlace s s' port) : Placed s' := by
  have horder := inOrder_step h.order hs
  cases happened hs with
  | elsewhere _ sdWrite request sent =>
    refine ⟨horder, ?_, ?_, ?_⟩
    · rw [sent]
      exact h.chained
    · rw [sent, request, sdWrite]
      exact h.reached
    · rw [sent, request]
      exact h.known
  | worked xs worked sends _ request _ bare =>
    refine placed_worked h horder worked sends request fun x hx m hm hrefused => ?_
    by_cases hservice : ∃ noise, e = .service noise
    · obtain ⟨noise, rfl⟩ := hservice
      by_contra hcount
      obtain ⟨-, hofs, hpos⟩ := worked.data x.post (List.mem_map_of_mem hx) m hm
      have hmoved : (s'.sdWrite.streams x.post.port).pos ≠ (s.sdWrite.streams x.post.port).pos := by
        rw [hpos, ne_eq, UInt32.add_eq_left, ← UInt32.toNat_inj, UInt8.toNat_toUInt32]
        exact fun hzero => hcount (UInt8.toNat_inj.1 hzero)
      have hroom := (keepsPlace_iff hs _).1 (hkept noise rfl x.post.port) (Or.inl hmoved)
      rw [sends.accepted x hx, decide_eq_false_iff_not] at hrefused
      exact hrefused hroom
    · exact bare (fun noise he => hservice ⟨noise, he⟩) x hx m hm
  | restarted port p number queue request out _ _ others =>
    have hlater := h.order.later (.logRead p, number) (queue ▸ List.mem_cons_self) port
    exact placed_restarted h horder hlater request out others

/-! ## Every run -/

/-- From boot on, whatever is logged, asked for and sent: nothing is skipped exactly if every piece
that moves on finds a free slot. -/
theorem nothing_skipped_iff (files size : Nat) (c : Storage.Card LogPiece) (o : Opening) (es : List TasksEv) :
    NothingSkipped (.boot files size c o) es ↔ RoomForMoves (.boot files size c o) es := by
  constructor
  · rintro ⟨hkept, -⟩ es₁ noise es₂ s port hes hrun hstage hmoves
    obtain ⟨s', hs⟩ := Option.isSome_iff_exists.1 (isSome_service hstage hmoves)
    exact (keepsPlace_iff hs port).1 (hkept es₁ noise es₂ s s' hes hrun hs port) ((moved_iff hs port).2 ⟨hstage, hmoves⟩)
  · intro hroom
    have hkept : ∀ es₁ noise es₂ s s', es = es₁ ++ .service noise :: es₂ →
        run Tasks.step (.boot files size c o) es₁ = some s → s.step (.service noise) = some s' →
        ∀ port, KeepsPlace s s' port := fun es₁ noise es₂ s s' hes hrun hs port =>
      (keepsPlace_iff hs port).2 fun hmoved =>
        hroom es₁ noise es₂ s port hes hrun ((moved_iff hs port).1 hmoved).1 ((moved_iff hs port).1 hmoved).2
    refine ⟨hkept, fun es₁ es₂ s hes hrun => (inv_along (P := Placed) ?_ ?_ hes hrun).chained⟩
    · refine ⟨inOrder_boot files size c o, fun _ _ => List.isChain_nil, fun port m hlast => ?_, ?_⟩
      · cases hlast
      · simp [Tasks.boot]
    · rintro es₁ e es₂ s s' hes hrun hs hplaced
      refine placed_step hplaced hs ?_
      rintro noise rfl
      exact hkept es₁ noise es₂ s s' hes hrun hs

/-! ## How long a burst it takes -/

def TasksEv.looks : TasksEv → Bool
  | .portHasRoom => true
  | _ => false

def TasksEv.enqueues (port : Fin 2) : TasksEv → Bool
  | .enqueueWrite q _ => q = port
  | _ => false

/-- The messages of `TaskMavlink` for a port since `TaskSdWrite` last looked at a queue. -/
def sinceLook (port : Fin 2) (es : List TasksEv) : Nat :=
  (es.reverse.takeWhile fun e => !e.looks).countP (TasksEv.enqueues port)

theorem sinceLook_concat (port : Fin 2) (es : List TasksEv) (e : TasksEv) :
    sinceLook port (es ++ [e]) = if e.looks then 0 else sinceLook port es + if e.enqueues port then 1 else 0 := by
  unfold sinceLook
  rw [List.reverse_append, List.reverse_singleton, List.singleton_append, List.takeWhile_cons]
  cases e.looks with
  | true => rfl
  | false => exact List.countP_cons ..

/-- Messages of `TaskMavlink` add to what waits, and a look starts anew. -/
theorem waiting_step {m s : Tasks} {e : TasksEv} {port : Fin 2} {n : Nat} (hs : m.step e = some s)
    (h : m.stage = .service port → (m.out.writeQueue port).length ≤ 1 + n) (hport : s.stage = .service port) :
    (s.out.writeQueue port).length ≤ 1 + if e.looks then 0 else n + if e.enqueues port then 1 else 0 := by
  cases e with
  | use u =>
    obtain ⟨queue, offered, rfl, -⟩ := use_cases hs
    exact h hport
  | enqueueWrite q intent =>
    cases hs
    have hle := h hport
    by_cases hq : port = q
    · subst hq
      simp only [Function.update_self, TasksEv.looks, TasksEv.enqueues, decide_true, if_true, Bool.false_eq_true, if_false]
      unfold Fifo.send
      split
      · rw [List.length_append, List.length_singleton]
        omega
      · exact hle.trans (by omega)
    · simpa [Function.update_of_ne hq, TasksEv.looks, TasksEv.enqueues, Ne.symm hq] using hle
  | linkWrite q =>
    cases hs
    have hle := h hport
    by_cases hq : port = q
    · subst hq
      simp only [Function.update_self, TasksEv.looks, TasksEv.enqueues, Bool.false_eq_true, if_false, Nat.add_zero]
      exact (Fifo.length_receive_le _).trans hle
    · simpa [Function.update_of_ne hq, TasksEv.looks, TasksEv.enqueues] using hle
  | xQueueReceive o =>
    simp only [Tasks.step] at hs
    split at hs
    · obtain ⟨t, -, rfl⟩ := Option.map_eq_some_iff.1 hs
      cases hport
    · cases hs
  | drained =>
    rw [drained_cases hs] at hport
    cases hport
  | portHasRoom =>
    obtain ⟨stage, rfl, hlook⟩ := portHasRoom_cases hs
    exact hlook port hport
  | service noise =>
    obtain ⟨_, _, -, -, -, -, hs'⟩ := service_cases hs
    rw [hs'] at hport
    cases hport

/-- The port about to be served had at most one item waiting when `TaskSdWrite` looked. -/
theorem length_le_sinceLook {b s : Tasks} (hb : b.stage = .xQueueReceive) {es : List TasksEv}
    (hrun : run Tasks.step b es = some s) (port : Fin 2) (hport : s.stage = .service port) :
    (s.out.writeQueue port).length ≤ 1 + sinceLook port es := by
  induction es using List.reverseRecOn generalizing s with
  | nil =>
    cases hrun
    rw [hb] at hport
    cases hport
  | append_singleton es e ih =>
    obtain ⟨m, hm, hs⟩ := run_concat.1 hrun
    rw [sinceLook_concat]
    exact waiting_step hs (ih hm) hport

/-- Seven messages, the periodic worst case the depth was made for, cost the download nothing. -/
theorem nothing_skipped_of_bursts {files size : Nat} {c : Storage.Card LogPiece} {o : Opening} {es : List TasksEv}
    (h : ∀ es₁ noise es₂, es = es₁ ++ .service noise :: es₂ → ∀ port, sinceLook port es₁ ≤ 7) :
    NothingSkipped (.boot files size c o) es := by
  rw [nothing_skipped_iff]
  intro es₁ noise es₂ s port hes hrun hstage _
  have hle := length_le_sinceLook rfl hrun port hstage
  have hburst := h es₁ noise es₂ hes port
  have hdepth : writeQueueDepth = 9 := rfl
  omega

/-! ## A chunk that is skipped -/

/-- A burst of commands fills the queue between the look and the send. -/
def burstBeforeSend : List TasksEv :=
  [.use (.forwardLogRequest .logRead { ofs := 0, count := 0xFFFFFFFF, start := 2, «end» := 0, port := 0 }),
    .xQueueReceive opening, .drained, .portHasRoom] ++
  List.replicate 9 (.enqueueWrite Link.linkChanUart (.commandAck { command := 512, result := 0 }))

theorem burstBeforeSend_skips : ¬ ∀ (files size : Nat) (c : Storage.Card LogPiece) (o : Opening) (es : List TasksEv),
    NothingSkipped (.boot files size c o) es := by
  intro h
  have hbefore : (run Tasks.step (.boot 4 373 (comeRound 4) opening) burstBeforeSend).map
      (fun s => ((s.sdWrite.streams 0).pos, s.out.sent.length)) = some (0, 0) := by decide +kernel
  have hafter : (run Tasks.step (.boot 4 373 (comeRound 4) opening) (burstBeforeSend ++ [.service []])).map
      (fun s => ((s.sdWrite.streams 0).pos, s.out.sent.map Sent.accepted)) = some (90, [false]) := by decide +kernel
  obtain ⟨s, hs, hsent⟩ := Option.map_eq_some_iff.1 hbefore
  obtain ⟨s', hs', hsent'⟩ := Option.map_eq_some_iff.1 hafter
  obtain ⟨m, hm, hstep⟩ := run_concat.1 hs'
  obtain rfl : s = m := Option.some.inj (hs.symm.trans hm)
  rw [Prod.mk.injEq] at hsent hsent'
  have hkept := (h 4 373 (comeRound 4) opening (burstBeforeSend ++ [.service []])).1 burstBeforeSend [] [] s s' rfl hs hstep 0
  obtain ⟨x, hx, -, haccepted, -⟩ := hkept.1 (by rw [hsent.1, hsent'.1]; decide)
  have hmem : x.accepted ∈ s'.out.sent.map Sent.accepted := List.mem_map_of_mem (List.mem_of_mem_drop hx)
  rw [hsent'.2, List.mem_singleton, haccepted] at hmem
  cases hmem

end BoredomOS.Log
