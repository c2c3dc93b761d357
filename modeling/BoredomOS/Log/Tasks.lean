/-
`TaskSdWrite` among the tasks around it. Requests and records reach it through `sdWriteQueue`; what it
posts goes to the write queue of a port, which `TaskMavlink` fills as well and the port's writer
empties. `TaskSdWrite` runs at the lowest priority: between `portHasRoom()` and the send of the piece
served the others may do anything. It looks at no result of a send. While it reads or writes the card the
others can only fill and empty queues it is not looking at, so each record and each piece is one step.
-/
import BoredomOS.Lib.Runs
import BoredomOS.Link.WriteQueue
import BoredomOS.Log.Queue

namespace BoredomOS.Log

open Link (Producer writeQueueDepth)

/-! ## What a piece of work posts -/

/-- A LOG_DATA is at the position of its stream, which is active and moves on by what the message
carries; no other stream moves and none starts. A port gets at most one message. -/
structure Worked (t t' : TaskSdWrite) (posts : List Post) : Prop where
  posted : t'.posted = t.posted ++ posts
  ports : (posts.map Post.port).Nodup
  data : ∀ x ∈ posts, ∀ m, x.msg = .logData m → (t.streams x.port).active = true ∧
    m.ofs = (t.streams x.port).pos ∧ (t'.streams x.port).pos = (t.streams x.port).pos + m.count.toUInt32
  still : ∀ q, (∀ x ∈ posts, x.port = q → ∀ m, x.msg ≠ .logData m) → (t'.streams q).pos = (t.streams q).pos
  active : ∀ q, (t'.streams q).active = true → (t.streams q).active = true

namespace Worked

variable {t t' t'' : TaskSdWrite} {xs ys : List Post} {p : Fin 2}

/-- Nothing is posted, and a stream may end. -/
theorem quiet (hposted : t'.posted = t.posted) (hpos : ∀ q, (t'.streams q).pos = (t.streams q).pos)
    (hactive : ∀ q, (t'.streams q).active = true → (t.streams q).active = true) : Worked t t' [] :=
  ⟨by rw [hposted, List.append_nil], List.nodup_nil, by simp, fun q _ => hpos q, hactive⟩

/-- One after the other, if they post to different ports. -/
theorem append (hx : Worked t t' xs) (hy : Worked t' t'' ys) (hdisj : ∀ x ∈ xs, ∀ y ∈ ys, x.port ≠ y.port) :
    Worked t t'' (xs ++ ys) := by
  have hquiet : ∀ y ∈ ys, (t'.streams y.port).pos = (t.streams y.port).pos := fun y hy' =>
    hx.still y.port fun x hx' heq => absurd heq (hdisj x hx' y hy')
  refine ⟨by rw [hy.posted, hx.posted, List.append_assoc], ?_, ?_, ?_, fun q hq => hx.active q (hy.active q hq)⟩
  · rw [List.map_append, List.nodup_append]
    refine ⟨hx.ports, hy.ports, ?_⟩
    intro a ha b hb
    obtain ⟨x, hx', rfl⟩ := List.mem_map.1 ha
    obtain ⟨y, hy', rfl⟩ := List.mem_map.1 hb
    exact hdisj x hx' y hy'
  · intro x hmem m hm
    rcases List.mem_append.1 hmem with hmem | hmem
    · obtain ⟨hact, hofs, hpos⟩ := hx.data x hmem m hm
      refine ⟨hact, hofs, ?_⟩
      rw [hy.still x.port fun y hy' heq => absurd heq.symm (hdisj x hmem y hy'), hpos]
    · obtain ⟨hact, hofs, hpos⟩ := hy.data x hmem m hm
      rw [hquiet x hmem] at hofs hpos
      exact ⟨hx.active _ hact, hofs, hpos⟩
  · intro q hq
    rw [hy.still q fun y hy' => hq y (List.mem_append_right _ hy'), hx.still q fun x hx' => hq x (List.mem_append_left _ hx')]

theorem endStream (t : TaskSdWrite) (p : Fin 2) : Worked t (t.endStream p) [] := by
  have hposted : (t.endStream p).posted = t.posted := by
    unfold TaskSdWrite.endStream
    dsimp only
    split <;> rfl
  refine quiet hposted (fun q => ?_) fun q => ?_
  · rw [streams_endStream]
    split <;> simp [*]
  · rw [streams_endStream]
    split <;> simp [*]

/-- A message at the stream's position, with what it carries. -/
theorem send (hactive : (t.streams p).active = true) {m : LogData} (hofs : m.ofs = (t.streams p).pos)
    (source : Option (Nat × Nat)) (hposted : t'.posted = t.posted ++ [⟨p, .logData m, t.named p, source⟩])
    (hpos : (t'.streams p).pos = (t.streams p).pos + m.count.toUInt32)
    (hrest : ∀ q, q ≠ p → t'.streams q = t.streams q) : Worked t t' [⟨p, .logData m, t.named p, source⟩] := by
  refine ⟨hposted, List.nodup_singleton _, ?_, ?_, ?_⟩
  · intro x hx m' hm'
    obtain rfl := List.mem_singleton.1 hx
    cases hm'
    exact ⟨hactive, hofs, hpos⟩
  · intro q hq
    have hne : q ≠ p := by
      rintro rfl
      exact hq _ (List.mem_singleton_self _) rfl m rfl
    rw [hrest q hne]
  · intro q hq
    by_cases heq : q = p
    · rw [heq]
      exact hactive
    · rwa [hrest q heq] at hq

theorem postNoData (hactive : (t.streams p).active = true) :
    Worked t (t.postNoData p) [⟨p, .logData {
      id := (t.streams p).id, ofs := (t.streams p).pos, count := 0, data := chars 90 [] }, t.named p, none⟩] :=
  send hactive rfl none rfl (by simp [TaskSdWrite.postNoData, TaskSdWrite.send]) fun _ _ => rfl

theorem read_length_le (h : Handle) (c : Storage.Card LogPiece) (want : Nat) (noise : List UInt8) :
    (h.read c want noise).1.length ≤ want := by
  unfold Handle.read
  dsimp only
  split
  · split <;> simp only [List.length_take] <;> omega
  · simp only [List.length_take]
    omega

theorem readChunk (hactive : (t.streams p).active = true) (noise : List UInt8) :
    ∃ posts, Worked t (t.readChunk p noise) posts ∧ ∀ x ∈ posts, x.port = p := by
  unfold TaskSdWrite.readChunk
  dsimp only
  split
  · exact ⟨[], endStream t p, by simp⟩
  rename_i h _
  have hlen := read_length_le h t.card (min ((t.streams p).end - (t.streams p).pos).toNat kLogDataChunk) noise
  generalize h.read t.card (min ((t.streams p).end - (t.streams p).pos).toNat kLogDataChunk) noise = read at hlen ⊢
  obtain ⟨data, source⟩ := read
  dsimp only at hlen ⊢
  split
  · exact ⟨[], endStream t p, by simp⟩
  refine ⟨_, send hactive rfl source rfl ?_ fun q hq => ?_, by simp⟩
  · have hcount : (UInt8.ofNat data.length).toUInt32 = UInt32.ofNat data.length := by
      have h90 : kLogDataChunk = 90 := rfl
      rw [← UInt32.toNat_inj, UInt8.toNat_toUInt32, UInt8.toNat_ofNat', UInt32.toNat_ofNat']
      omega
    simp [TaskSdWrite.setStream, hcount]
  · simp [TaskSdWrite.setStream, TaskSdWrite.send, Function.update_of_ne hq]

theorem serviceStream (hactive : (t.streams p).active = true) (noise : List UInt8) :
    ∃ posts, Worked t (t.serviceStream p noise) posts ∧ ∀ x ∈ posts, x.port = p := by
  have hnoData := postNoData hactive
  unfold TaskSdWrite.serviceStream
  dsimp only
  split
  · refine ⟨_, hnoData.append (quiet rfl (fun q => ?_) fun q hq => ?_) (by simp), by simp⟩
    · by_cases heq : q = p
      · subst heq
        simp [TaskSdWrite.setStream, TaskSdWrite.postNoData, TaskSdWrite.send]
      · simp [TaskSdWrite.setStream, Function.update_of_ne heq]
    · by_cases heq : q = p
      · subst heq
        simp [TaskSdWrite.setStream] at hq
      · simpa [TaskSdWrite.setStream, Function.update_of_ne heq] using hq
  split
  · split
    · exact ⟨_, hnoData.append (endStream _ p) (by simp), by simp⟩
    · exact ⟨[], endStream t p, by simp⟩
  split
  · exact readChunk hactive noise
  split
  · exact ⟨[], quiet rfl (fun _ => rfl) fun _ h => h, by simp⟩
  split
  · have h := endStream { t with reader := none } p
    exact ⟨[], ⟨h.posted, h.ports, h.data, h.still, h.active⟩, by simp⟩
  · rename_i f _
    obtain ⟨posts, h, hport⟩ := readChunk (t := { t with
      reader := some ⟨(t.streams p).slot.toInt.toNat, f.born, f.image.length,
        if (t.streams p).pos.toNat ≤ f.image.length then (t.streams p).pos.toNat else 0⟩
      readerPort := some p }) hactive noise
    exact ⟨posts, ⟨h.posted, h.ports, h.data, h.still, h.active⟩, hport⟩

theorem serviceListing {t' : TaskSdWrite} (hs : t.serviceListing p = some t') :
    ∃ posts, Worked t t' posts ∧ ∀ x ∈ posts, x.port = p := by
  obtain ⟨⟨listing, found⟩, -, rfl⟩ := Option.map_eq_some_iff.1 hs
  cases found with
  | none => exact ⟨[], quiet rfl (fun _ => rfl) fun _ h => h, by simp⟩
  | some found =>
    refine ⟨[_], ⟨rfl, List.nodup_singleton _, ?_, fun _ _ => rfl, fun _ h => h⟩, by simp⟩
    intro x hx m hm
    obtain rfl := List.mem_singleton.1 hx
    cases hm

/-- The download work of a pass, for the port that has room. -/
theorem serve {noise : List UInt8} (hs : t.serve (fun q => decide (q = p)) noise = some t') :
    ∃ posts, Worked t t' posts ∧ ∀ x ∈ posts, x.port = p := by
  obtain ⟨-, rfl⟩ | ⟨port, served, -, hport, rfl, hpiece⟩ := serve_cases hs
  · exact ⟨[], quiet rfl (fun _ => rfl) fun _ h => h, by simp⟩
  obtain rfl : port = p := of_decide_eq_true hport
  have hposts : ∃ posts, Worked t served posts ∧ ∀ x ∈ posts, x.port = port := by
    obtain ⟨-, hserved⟩ | ⟨-, hactive, rfl⟩ := hpiece
    · exact serviceListing hserved
    · exact serviceStream hactive noise
  obtain ⟨posts, h, hports⟩ := hposts
  exact ⟨posts, ⟨h.posted, h.ports, h.data, h.still, h.active⟩, hports⟩

/-- The end of a download whose slot was reused carries nothing. -/
theorem endReplaced (t : TaskSdWrite) (after : Nat) (p : Fin 2) :
    ∃ posts, Worked t (t.endReplaced after p) posts ∧
      ∀ x ∈ posts, x.port = p ∧ ∀ m, x.msg = .logData m → m.count = 0 := by
  unfold TaskSdWrite.endReplaced
  dsimp only
  split
  · rename_i hcond
    have hactive : (t.streams p).active = true := by
      simp only [Bool.and_eq_true] at hcond
      exact hcond.1.1
    refine ⟨_, (postNoData hactive).append (endStream _ p) (by simp), ?_⟩
    intro x hx
    obtain rfl : x = _ := by simpa using hx
    refine ⟨rfl, ?_⟩
    rintro m ⟨⟩
    rfl
  · exact ⟨[], quiet rfl (fun _ => rfl) fun _ h => h, by simp⟩

theorem writeRecord (t : TaskSdWrite) (incoming : SdRecord) (o : Opening) :
    ∃ posts, Worked t (t.writeRecord incoming o) posts ∧ ∀ x ∈ posts, ∀ m, x.msg = .logData m → m.count = 0 := by
  unfold TaskSdWrite.writeRecord
  split
  · exact ⟨[], quiet rfl (fun _ => rfl) fun _ h => h, by simp⟩
  rename_i record _
  dsimp only
  generalize ((Storage.write (some record) (writeLogPreamble o)).run t.sdData).2 = sd
  have hwrite : Worked t { t with sdData := sd } [] := quiet rfl (fun _ => rfl) fun _ h => h
  split
  · generalize TaskSdWrite.currentFile { t with sdData := sd } = after
    obtain ⟨xs, hx, hxp⟩ := endReplaced { t with sdData := sd } after 0
    obtain ⟨ys, hy, hyp⟩ := endReplaced (TaskSdWrite.endReplaced after { t with sdData := sd } 0) after 1
    refine ⟨xs ++ ys, hwrite.append (hx.append hy fun x hx' y hy' => ?_) (by simp), ?_⟩
    · rw [(hxp x hx').1, (hyp y hy').1]
      decide
    · intro x hx'
      rcases List.mem_append.1 hx' with hx' | hx'
      · exact (hxp x hx').2
      · exact (hyp x hx').2
  · exact ⟨[], hwrite, by simp⟩

end Worked

/-! ## The write queues -/

/-- A send of `TaskSdWrite`: the number of the request it answers, and whether the queue took it. -/
structure Sent where
  post : Post
  request : Nat
  accepted : Bool
  deriving DecidableEq

/-- The write queues of the two ports, and every send of `TaskSdWrite` to them. -/
structure Outgoing where
  writeQueue : Fin 2 → List (Producer × Link.LinkMsg) := fun _ => []
  sent : List Sent := []

def Outgoing.send (request : Fin 2 → Nat) (g : Outgoing) (p : Post) : Outgoing :=
  let (accepted, queue) := Fifo.send writeQueueDepth (g.writeQueue p.port) (.taskSdWrite, .ofLog p.msg)
  { writeQueue := Function.update g.writeQueue p.port queue
    sent := g.sent ++ [{ post := p, request := request p.port, accepted }] }

def Outgoing.sendAll (request : Fin 2 → Nat) (g : Outgoing) (posts : List Post) : Outgoing :=
  posts.foldl (Outgoing.send request) g

/-- At most one message for each port, so each finds the queue as it was. -/
structure Sends (request : Fin 2 → Nat) (g g' : Outgoing) (xs : List Sent) : Prop where
  sent : g'.sent = g.sent ++ xs
  request : ∀ x ∈ xs, x.request = request x.post.port
  accepted : ∀ x ∈ xs, x.accepted = decide ((g.writeQueue x.post.port).length < writeQueueDepth)
  queued : ∀ x ∈ xs, g'.writeQueue x.post.port =
    (Fifo.send writeQueueDepth (g.writeQueue x.post.port) (.taskSdWrite, .ofLog x.post.msg)).2
  still : ∀ q, (∀ x ∈ xs, x.post.port ≠ q) → g'.writeQueue q = g.writeQueue q

theorem sendAll_sends (request : Fin 2 → Nat) : ∀ (posts : List Post) (g : Outgoing), (posts.map Post.port).Nodup →
    ∃ xs, xs.map Sent.post = posts ∧ Sends request g (g.sendAll request posts) xs
  | [], g, _ => ⟨[], rfl, by simp [Outgoing.sendAll], by simp, by simp, by simp, fun _ _ => rfl⟩
  | p :: posts, g, h => by
    rw [List.map_cons, List.nodup_cons] at h
    obtain ⟨hp, hposts⟩ := h
    obtain ⟨xs, rfl, hsent, hreq, hacc, hqueued, hstill⟩ := sendAll_sends request posts (g.send request p) hposts
    have hother : ∀ x ∈ xs, x.post.port ≠ p.port := fun x hx heq =>
      hp (heq ▸ List.mem_map_of_mem (List.mem_map_of_mem hx))
    have hsame : ∀ q, q ≠ p.port → (g.send request p).writeQueue q = g.writeQueue q := fun q hq =>
      Function.update_of_ne hq ..
    have hqueue : (g.send request p).writeQueue p.port =
        (Fifo.send writeQueueDepth (g.writeQueue p.port) (.taskSdWrite, .ofLog p.msg)).2 := Function.update_self ..
    refine ⟨⟨p, request p.port, (Fifo.send writeQueueDepth (g.writeQueue p.port) (.taskSdWrite, .ofLog p.msg)).1⟩ :: xs,
      rfl, ?_, ?_, ?_, ?_, ?_⟩
    · change (Outgoing.sendAll request (g.send request p) _).sent = _
      rw [hsent]
      simp [Outgoing.send]
    · simpa using hreq
    · rw [List.forall_mem_cons]
      refine ⟨Fifo.send_fst .., fun x hx => ?_⟩
      rw [hacc x hx, hsame _ (hother x hx)]
    · rw [List.forall_mem_cons]
      refine ⟨(hstill p.port hother).trans hqueue, fun x hx => ?_⟩
      rw [← hsame _ (hother x hx)]
      exact hqueued x hx
    · intro q hq
      rw [List.forall_mem_cons] at hq
      exact (hstill q hq.2).trans (hsame q (Ne.symm hq.1))

/-! ## The tasks -/

/-- Where the loop of `TaskSdWrite` is: it drains the queue, looks at one port or the other, or is
about to serve one. -/
inductive Stage
  | xQueueReceive
  | portHasRoom (other : Bool)
  | service (port : Fin 2)
  deriving DecidableEq

/-- Kept beside the queues and the task: how many records and requests were offered to `sdWriteQueue`,
the number of each one in it, and the number of the request behind the stream of a port. -/
structure Tasks where
  sdWriteQueue : List (SdRecord × Nat) := []
  sdWrite : TaskSdWrite
  stage : Stage := .xQueueReceive
  out : Outgoing := {}
  offered : Nat := 0
  request : Fin 2 → Nat := fun _ => 0

inductive TasksEv
  /-- `TaskLogger` or `TaskMavlink` at `sdWriteQueue` -/
  | use (u : Use)
  /-- `TaskMavlink` at the write queue of a port -/
  | enqueueWrite (port : Fin 2) (intent : Link.LinkMsg)
  /-- the writer of a port receives -/
  | linkWrite (port : Fin 2)
  /-- `TaskSdWrite` receives, and an opening behind it would read `o` -/
  | xQueueReceive (o : Opening)
  /-- `TaskSdWrite` finds nothing more to receive -/
  | drained
  | portHasRoom
  /-- the piece of the port that had room, with what a stale handle would read -/
  | service (noise : List UInt8)

namespace Tasks

/-- A producer's send, with the number of what is sent. -/
def use (s : Tasks) : Use → Option Tasks
  | .xQueueReceive => none
  | .forwardLogRequest kind p =>
    let request := (kind.record p, s.offered + 1)
    let queue := if Fifo.spaces sdWriteQueueDepth s.sdWriteQueue < 2 then s.sdWriteQueue
      else (Fifo.send sdWriteQueueDepth s.sdWriteQueue request).2
    -- `TaskMavlink` has two ports and answers no other
    if (TaskSdWrite.portOf p).isSome then some { s with sdWriteQueue := queue, offered := s.offered + 1 } else none
  | u => match u.record with
    | some r => some { s with
        sdWriteQueue := (Fifo.send sdWriteQueueDepth s.sdWriteQueue (r, s.offered + 1)).2, offered := s.offered + 1 }
    | none => some s

/-- `portHasRoom()` -/
def hasRoom (s : Tasks) (port : Fin 2) : Bool := (s.out.writeQueue port).length ≤ 1

def hasWork (t : TaskSdWrite) (port : Fin 2) : Bool := (t.listings port).active || (t.streams port).active

/-- The request behind a stream is the one that started it. -/
def requestAfter (request : Fin 2 → Nat) : SdRecord × Nat → Fin 2 → Nat
  | (.logRead p, number) => match TaskSdWrite.portOf p with
    | some port => Function.update request port number
    | none => request
  | _ => request

/-- `TaskSdWrite` has worked; what it posted since goes to the write queues. -/
def worked (s : Tasks) (t : TaskSdWrite) : Tasks :=
  { s with
    sdWrite := t
    stage := .xQueueReceive
    out := s.out.sendAll s.request (t.posted.drop s.sdWrite.posted.length) }

def step (s : Tasks) : TasksEv → Option Tasks
  | .use u => s.use u
  | .enqueueWrite port intent =>
    let queue := (Fifo.send writeQueueDepth (s.out.writeQueue port) (.taskMavlink, intent)).2
    some { s with out := { s.out with writeQueue := Function.update s.out.writeQueue port queue } }
  | .linkWrite port =>
    let queue := (Fifo.receive (s.out.writeQueue port)).2
    some { s with out := { s.out with writeQueue := Function.update s.out.writeQueue port queue } }
  | .xQueueReceive o =>
    match s.stage, s.sdWriteQueue with
    | .xQueueReceive, incoming :: rest =>
      (s.sdWrite.receive incoming.1 o).map fun t =>
        { s with sdWriteQueue := rest, request := requestAfter s.request incoming }.worked t
    | _, _ => none
  | .drained =>
    match s.stage, s.sdWriteQueue with
    | .xQueueReceive, [] => some { s with stage := .portHasRoom false }
    | _, _ => none
  | .portHasRoom =>
    match s.stage with
    | .portHasRoom other =>
      let port := if other then otherPort s.sdWrite.nextPort else s.sdWrite.nextPort
      let next := if other then .xQueueReceive else .portHasRoom true
      some { s with stage := if hasWork s.sdWrite port && s.hasRoom port then .service port else next }
    | _ => none
  | .service noise =>
    match s.stage with
    | .service port => (s.sdWrite.serve (fun q => decide (q = port)) noise).map s.worked
    | _ => none

/-- The scheduler has started and `begin()` returned, on whatever card. -/
def boot (files size : Nat) (c : Storage.Card LogPiece) (o : Opening) : Tasks :=
  { sdWrite := .boot files size c o }

end Tasks

/-! ## What a step can do -/

/-- `TaskSdWrite` goes on, another task moves, or a request starts a stream. -/
inductive Happened (s : Tasks) (e : TasksEv) (s' : Tasks) : Prop
  | elsewhere (event : ∀ o, e ≠ .xQueueReceive o) (sdWrite : s'.sdWrite = s.sdWrite) (request : s'.request = s.request)
      (sent : s'.out.sent = s.out.sent)
      (queue : s'.sdWriteQueue = s.sdWriteQueue ∧ s.offered ≤ s'.offered ∨
        ∃ r, s'.sdWriteQueue = s.sdWriteQueue ++ [(r, s.offered + 1)] ∧ s'.offered = s.offered + 1)
  | worked (xs : List Sent) (worked : Worked s.sdWrite s'.sdWrite (xs.map Sent.post))
      (sends : Sends s.request s.out s'.out xs) (stage : s'.stage = .xQueueReceive) (request : s'.request = s.request)
      (offered : s'.offered = s.offered)
      (bare : (∀ noise, e ≠ .service noise) → ∀ x ∈ xs, ∀ m, x.post.msg = .logData m → m.count = 0)
      (queue : s'.sdWriteQueue = s.sdWriteQueue ∨ ∃ x, s.sdWriteQueue = x :: s'.sdWriteQueue ∧
        ∀ p port, x.1 = .logEnd p → TaskSdWrite.portOf p = some port → (s'.sdWrite.streams port).active = false)
  | restarted (port : Fin 2) (p : SdLogRequestPayload) (number : Nat)
      (queue : s.sdWriteQueue = (.logRead p, number) :: s'.sdWriteQueue)
      (request : s'.request = Function.update s.request port number) (out : s'.out = s.out)
      (stage : s'.stage = .xQueueReceive) (offered : s'.offered = s.offered)
      (others : ∀ q, q ≠ port → s'.sdWrite.streams q = s.sdWrite.streams q)

/-- What the task posted is sent. -/
theorem worked_sends {s : Tasks} {t : TaskSdWrite} {posts : List Post} (h : Worked s.sdWrite t posts) :
    ∃ xs, xs.map Sent.post = posts ∧ Sends s.request s.out (s.worked t).out xs := by
  have hnew : t.posted.drop s.sdWrite.posted.length = posts := by rw [h.posted, List.drop_left]
  unfold Tasks.worked
  rw [hnew]
  exact sendAll_sends s.request posts s.out h.ports

/-- A producer changes the queue by at most one item, the newest one. -/
theorem use_cases {s s' : Tasks} {u : Use} (h : s.use u = some s') :
    ∃ queue offered, s' = { s with sdWriteQueue := queue, offered } ∧
      (queue = s.sdWriteQueue ∧ s.offered ≤ offered ∨
        ∃ r, queue = s.sdWriteQueue ++ [(r, s.offered + 1)] ∧ offered = s.offered + 1) := by
  have hkept : s.sdWriteQueue = s.sdWriteQueue ∧ s.offered ≤ s.offered + 1 := ⟨rfl, Nat.le_succ _⟩
  have hsend : ∀ x : SdRecord,
      (Fifo.send sdWriteQueueDepth s.sdWriteQueue (x, s.offered + 1)).2 = s.sdWriteQueue ∧ s.offered ≤ s.offered + 1 ∨
      ∃ r, (Fifo.send sdWriteQueueDepth s.sdWriteQueue (x, s.offered + 1)).2 = s.sdWriteQueue ++ [(r, s.offered + 1)] ∧
        s.offered + 1 = s.offered + 1 := by
    intro x
    by_cases hroom : s.sdWriteQueue.length < sdWriteQueueDepth
    · exact Or.inr ⟨x, Fifo.send_room hroom _, rfl⟩
    · exact Or.inl ⟨Fifo.send_full hroom _, Nat.le_succ _⟩
  have hrecord : (match u.record with
      | some r => some { s with
          sdWriteQueue := (Fifo.send sdWriteQueueDepth s.sdWriteQueue (r, s.offered + 1)).2, offered := s.offered + 1 }
      | none => some s) = some s' → ∃ queue offered, s' = { s with sdWriteQueue := queue, offered } ∧
      (queue = s.sdWriteQueue ∧ s.offered ≤ offered ∨
        ∃ r, queue = s.sdWriteQueue ++ [(r, s.offered + 1)] ∧ offered = s.offered + 1) := by
    intro h
    split at h
    · cases h
      exact ⟨_, _, rfl, hsend _⟩
    · cases h
      exact ⟨_, _, rfl, Or.inl ⟨rfl, Nat.le_refl _⟩⟩
  cases u with
  | xQueueReceive => cases h
  | forwardLogRequest kind p =>
    simp only [Tasks.use] at h
    split at h
    swap
    · cases h
    cases h
    refine ⟨_, _, rfl, ?_⟩
    split
    · exact Or.inl hkept
    · exact hsend _
  | taskLogger us heap marks => exact hrecord h
  | logBattery writer mv us rem => exact hrecord h
  | logClock writer us unix src => exact hrecord h

theorem happened_receive {s s' : Tasks} {o : Opening} (h : s.step (.xQueueReceive o) = some s') :
    Happened s (.xQueueReceive o) s' := by
  simp only [Tasks.step] at h
  split at h
  swap
  · cases h
  rename_i incoming rest hstage hqueue
  obtain ⟨r, number⟩ := incoming
  obtain ⟨t, ht, rfl⟩ := Option.map_eq_some_iff.1 h
  -- a piece of work that leaves the stream's request alone
  have hwork : ∀ posts, Worked s.sdWrite t posts → Tasks.requestAfter s.request (r, number) = s.request →
      (∀ x ∈ posts, ∀ m, x.msg = .logData m → m.count = 0) →
      (∀ p port, r = .logEnd p → TaskSdWrite.portOf p = some port → (t.streams port).active = false) →
      Happened s (.xQueueReceive o)
        ({ s with sdWriteQueue := rest, request := Tasks.requestAfter s.request (r, number) }.worked t) := by
    intro posts hw hreq hzero hend
    rw [hreq]
    obtain ⟨xs, rfl, hs⟩ := worked_sends (s := { s with sdWriteQueue := rest }) hw
    exact .worked xs hw hs rfl rfl rfl (fun _ x hx => hzero _ (List.mem_map_of_mem hx)) (Or.inr ⟨_, hqueue, hend⟩)
  have hrecord := Worked.writeRecord s.sdWrite r o
  cases r with
  | logList p =>
    obtain ⟨port, -, rfl⟩ := Option.map_eq_some_iff.1 ht
    exact hwork [] (.quiet rfl (fun _ => rfl) fun _ h => h) rfl (by simp) (by rintro _ _ ⟨⟩)
  | logEnd p =>
    obtain ⟨port, hport, rfl⟩ := Option.map_eq_some_iff.1 ht
    refine hwork [] (.endStream _ port) rfl (by simp) ?_
    rintro _ port' ⟨⟩ hport'
    obtain rfl : port = port' := Option.some.inj (hport.symm.trans hport')
    rw [streams_endStream, if_pos rfl]
  | logRead p =>
    obtain ⟨port, hport, rfl⟩ := Option.map_eq_some_iff.1 ht
    have hposted : (s.sdWrite.startStream port p).posted = s.sdWrite.posted := by
      have hend := (Worked.endStream s.sdWrite port).posted
      rwa [List.append_nil] at hend
    refine .restarted port p number hqueue ?_ ?_ rfl rfl fun q hq => ?_
    · simp [Tasks.worked, Tasks.requestAfter, hport]
    · simp [Tasks.worked, hposted, Outgoing.sendAll]
    · have hend : (s.sdWrite.endStream port).streams q = s.sdWrite.streams q := by rw [streams_endStream, if_neg hq]
      simp [Tasks.worked, TaskSdWrite.startStream, TaskSdWrite.setStream, hq, hend]
  | sys p | pwr p | time p =>
    cases ht
    obtain ⟨posts, hw, hzero⟩ := hrecord
    exact hwork posts hw rfl hzero (by rintro _ _ ⟨⟩)

theorem drained_cases {s s' : Tasks} (h : s.step .drained = some s') : s' = { s with stage := .portHasRoom false } := by
  simp only [Tasks.step] at h
  split at h
  · cases h
    rfl
  · cases h

/-- The port that is served next had at most one item waiting. -/
theorem portHasRoom_cases {s s' : Tasks} (h : s.step .portHasRoom = some s') :
    ∃ stage, s' = { s with stage } ∧ ∀ port, stage = .service port → (s.out.writeQueue port).length ≤ 1 := by
  simp only [Tasks.step] at h
  split at h
  swap
  · cases h
  rename_i other hstage
  cases h
  refine ⟨_, rfl, fun port hport => ?_⟩
  generalize (if other then otherPort s.sdWrite.nextPort else s.sdWrite.nextPort) = looked at hport
  split at hport
  · rename_i hcond
    obtain rfl := Stage.service.inj hport
    have hroom := (Bool.and_eq_true_iff.1 hcond).2
    exact of_decide_eq_true hroom
  · cases other <;> simp at hport

/-- The piece served posts at most to its own port. -/
theorem service_cases {s s' : Tasks} {noise : List UInt8} (h : s.step (.service noise) = some s') :
    ∃ port xs, s.stage = .service port ∧ Worked s.sdWrite s'.sdWrite (xs.map Sent.post) ∧
      Sends s.request s.out s'.out xs ∧ (∀ x ∈ xs, x.post.port = port) ∧
      s' = { s with sdWrite := s'.sdWrite, stage := .xQueueReceive, out := s'.out } := by
  simp only [Tasks.step] at h
  split at h
  swap
  · cases h
  rename_i port hstage
  obtain ⟨t, ht, rfl⟩ := Option.map_eq_some_iff.1 h
  obtain ⟨posts, hw, hports⟩ := Worked.serve ht
  obtain ⟨xs, rfl, hs⟩ := worked_sends hw
  exact ⟨port, xs, hstage, hw, hs, fun x hx => hports _ (List.mem_map_of_mem hx), rfl⟩

theorem happened {s s' : Tasks} {e : TasksEv} (h : s.step e = some s') : Happened s e s' := by
  cases e with
  | use u =>
    obtain ⟨queue, offered, rfl, hqueue⟩ := use_cases h
    exact .elsewhere (by simp) rfl rfl rfl hqueue
  | enqueueWrite port intent =>
    cases h
    exact .elsewhere (by simp) rfl rfl rfl (Or.inl ⟨rfl, Nat.le_refl _⟩)
  | linkWrite port =>
    cases h
    exact .elsewhere (by simp) rfl rfl rfl (Or.inl ⟨rfl, Nat.le_refl _⟩)
  | xQueueReceive o => exact happened_receive h
  | drained =>
    rw [drained_cases h]
    exact .elsewhere (by simp) rfl rfl rfl (Or.inl ⟨rfl, Nat.le_refl _⟩)
  | portHasRoom =>
    obtain ⟨stage, rfl, -⟩ := portHasRoom_cases h
    exact .elsewhere (by simp) rfl rfl rfl (Or.inl ⟨rfl, Nat.le_refl _⟩)
  | service noise =>
    obtain ⟨port, xs, -, hw, hs, -, hs'⟩ := service_cases h
    refine .worked xs hw hs ?_ ?_ ?_ (fun hne => absurd rfl (hne noise)) (Or.inl ?_) <;> rw [hs']

/-! ## The numbers -/

/-- What waits in `sdWriteQueue` was offered in its order, and after every request a stream is for. -/
structure InOrder (s : Tasks) : Prop where
  rising : s.sdWriteQueue.Pairwise fun x y => x.2 < y.2
  later : ∀ x ∈ s.sdWriteQueue, ∀ port, s.request port < x.2
  known : ∀ x ∈ s.sdWriteQueue, x.2 ≤ s.offered
  served : ∀ port, s.request port ≤ s.offered

/-- The front of the queue may go. -/
theorem InOrder.left {s : Tasks} (h : InOrder s) {q : List (SdRecord × Nat)}
    (hq : q = s.sdWriteQueue ∨ ∃ x, s.sdWriteQueue = x :: q) :
    q.Pairwise (fun x y => x.2 < y.2) ∧ ∀ x ∈ q, x ∈ s.sdWriteQueue := by
  rcases hq with rfl | ⟨x, hx⟩
  · exact ⟨h.rising, fun _ hx => hx⟩
  · have hrising := h.rising
    rw [hx, List.pairwise_cons] at hrising
    exact ⟨hrising.2, fun y hy => hx ▸ List.mem_cons_of_mem _ hy⟩

/-- A record that joins is the newest. -/
theorem InOrder.joined {s s' : Tasks} (h : InOrder s) {r : SdRecord} (request : s'.request = s.request)
    (queue : s'.sdWriteQueue = s.sdWriteQueue ++ [(r, s.offered + 1)]) (hnext : s'.offered = s.offered + 1) : InOrder s' := by
  refine ⟨?_, fun x hx port => ?_, fun x hx => ?_, fun port => ?_⟩
  · rw [queue, List.pairwise_append]
    refine ⟨h.rising, List.pairwise_singleton .., fun x hx y hy => ?_⟩
    rw [List.mem_singleton.1 hy]
    exact Nat.lt_succ_of_le (h.known x hx)
  · rw [request]
    rw [queue] at hx
    rcases List.mem_append.1 hx with hx | hx
    · exact h.later x hx port
    · rw [List.mem_singleton.1 hx]
      exact Nat.lt_succ_of_le (h.served port)
  · rw [hnext]
    rw [queue] at hx
    rcases List.mem_append.1 hx with hx | hx
    · exact Nat.le_succ_of_le (h.known x hx)
    · rw [List.mem_singleton.1 hx]
  · rw [request, hnext]
    exact Nat.le_succ_of_le (h.served port)

/-- A stream that restarts is for the record at the head, and all that waits came behind it. -/
theorem InOrder.restarted {s s' : Tasks} (h : InOrder s) {x : SdRecord × Nat} {port : Fin 2}
    (queue : s.sdWriteQueue = x :: s'.sdWriteQueue) (request : s'.request = Function.update s.request port x.2)
    (offered : s'.offered = s.offered) : InOrder s' := by
  obtain ⟨hrising, hsub⟩ := h.left (Or.inr ⟨x, queue⟩)
  have hafter : ∀ y ∈ s'.sdWriteQueue, x.2 < y.2 := by
    have hqueue := h.rising
    rw [queue, List.pairwise_cons] at hqueue
    exact hqueue.1
  have hhead : x ∈ s.sdWriteQueue := queue ▸ List.mem_cons_self
  refine ⟨hrising, fun y hy q => ?_, fun y hy => offered ▸ h.known y (hsub y hy), fun q => ?_⟩
  · rw [request]
    by_cases hq : q = port
    · rw [hq, Function.update_self]
      exact hafter y hy
    · rw [Function.update_of_ne hq]
      exact h.later y (hsub y hy) q
  · rw [request, offered]
    by_cases hq : q = port
    · rw [hq, Function.update_self]
      exact h.known x hhead
    · rw [Function.update_of_ne hq]
      exact h.served q

theorem inOrder_step {s s' : Tasks} {e : TasksEv} (h : InOrder s) (hs : s.step e = some s') : InOrder s' := by
  cases happened hs with
  | elsewhere _ sdWrite request sent queue =>
    rcases queue with ⟨queue, hle⟩ | ⟨r, queue, hnext⟩
    · refine ⟨queue ▸ h.rising, ?_, ?_, fun port => ?_⟩
      · rw [queue, request]
        exact h.later
      · rw [queue]
        exact fun x hx => (h.known x hx).trans hle
      · rw [request]
        exact (h.served port).trans hle
    · exact h.joined request queue hnext
  | worked xs _ _ _ request offered _ queue =>
    obtain ⟨hrising, hsub⟩ := h.left (queue.imp id fun ⟨x, hx, _⟩ => ⟨x, hx⟩)
    refine ⟨hrising, ?_, ?_, fun port => ?_⟩
    · rw [request]
      exact fun x hx => h.later x (hsub x hx)
    · rw [offered]
      exact fun x hx => h.known x (hsub x hx)
    · rw [request, offered]
      exact h.served port
  | restarted port p number queue request _ _ offered => exact h.restarted queue request offered

theorem inOrder_boot (files size : Nat) (c : Storage.Card LogPiece) (o : Opening) : InOrder (.boot files size c o) :=
  ⟨List.Pairwise.nil, by simp [Tasks.boot], by simp [Tasks.boot], fun _ => Nat.le_refl _⟩

theorem inOrder_run {files size : Nat} {c : Storage.Card LogPiece} {o : Opening} {es : List TasksEv} {s : Tasks}
    (h : Runs.run Tasks.step (.boot files size c o) es = some s) : InOrder s :=
  Runs.inv (fun _ _ _ => inOrder_step) (inOrder_boot files size c o) h

end BoredomOS.Log
