/-
The whole board with a card in it: the link of `Link.Board`, `sdWriteQueue` with its three users, and the task
that owns the card, whose answers go to the write queues among everything else. From the bytes of a port to its
frames: what goes out of the log protocol answers what came in on that port, request by request.
-/
import BoredomOS.Link.Board
import BoredomOS.Link.LogRequests
import BoredomOS.Log.Answers

namespace BoredomOS.Link

open Log (AnswersList AnswersRead LogRequestKind Opening Post SdLogRequestPayload SdRecord SdWriteQueue TaskEv TaskSdWrite)
open Conversation (Answered)
open Runs

/-- The link and the log. `records` is what the pass under way has still to send to `sdWriteQueue`, `posts` what
`TaskSdWrite` has still to send to the write queues. -/
structure Firmware (parser : MavlinkParser) (lib : MavlinkLibrary) where
  board : Board parser lib
  records : List SdRecord := []
  sdWriteQueue : SdWriteQueue := []
  sdWrite : TaskSdWrite
  stage : Log.Stage := .xQueueReceive
  posts : List Post := []

inductive FirmwareEv
  /-- a task of the link goes on -/
  | link (e : BoardEv)
  /-- the next record or request of the pass -/
  | record
  | taskLogger (sinceBootUsec : UInt64) (freeHeapSize : UInt16) (stackMarks : Vector UInt16 7)
  /-- `TaskSdWrite` receives, and an opening behind it would read `o` -/
  | xQueueReceive (o : Opening)
  /-- `TaskSdWrite` finds nothing more to receive -/
  | drained
  | portHasRoom
  /-- the piece of the port that had room, with what a stale handle would read -/
  | service (noise : List UInt8)
  /-- `TaskSdWrite` sends what it has made -/
  | post

namespace Firmware

variable {parser : MavlinkParser} {lib : MavlinkLibrary}

def hasRoom (s : Firmware parser lib) (port : Fin 2) : Bool := (s.board.writers port).writeQueue.length ≤ 1

/-- `TaskSdWrite` has worked, and goes on with the sends of this. -/
def worked (s : Firmware parser lib) (t : TaskSdWrite) : Firmware parser lib :=
  { s with sdWrite := t, stage := .xQueueReceive, posts := t.posted.drop s.sdWrite.posted.length }

/-- A pass looks at the free slots of `sdWriteQueue` before it forwards a request; what it finds is left open, as
with the write queues. -/
def step (c : Conversion) (s : Firmware parser lib) : FirmwareEv → Option (Firmware parser lib)
  -- of the log protocol the write queues get only what `TaskSdWrite` has made
  | .link (.logProtocol _ _) => none
  | .link (.pass e) =>
    -- the pass before has made all its sends
    if s.records.isEmpty then
      (s.board.step c (.pass e)).map fun board =>
        { s with board, records := board.mavlink.recorded.drop s.board.mavlink.recorded.length }
    else none
  | .link e => (s.board.step c e).map fun board => { s with board }
  | .record =>
    match s.records with
    | [] => none
    | r :: rest => some { s with records := rest, sdWriteQueue := (Log.xQueueSend s.sdWriteQueue r).2 }
  | .taskLogger us heap marks =>
    some { s with sdWriteQueue := (Log.xQueueSend s.sdWriteQueue (Log.taskLogger us heap marks)).2 }
  | .xQueueReceive o =>
    match s.stage, s.posts, s.sdWriteQueue with
    | .xQueueReceive, [], incoming :: rest =>
      (s.sdWrite.receive incoming o).map { s with sdWriteQueue := rest }.worked
    | _, _, _ => none
  | .drained =>
    match s.stage, s.posts, s.sdWriteQueue with
    | .xQueueReceive, [], [] => some { s with stage := .portHasRoom false }
    | _, _, _ => none
  | .portHasRoom =>
    match s.stage, s.posts with
    | .portHasRoom other, [] =>
      -- the port whose turn it is, then the other one; room found now may be gone when the piece is sent
      let port := if other then Log.otherPort s.sdWrite.nextPort else s.sdWrite.nextPort
      let next := if other then .xQueueReceive else .portHasRoom true
      some { s with stage := if Log.Tasks.hasWork s.sdWrite port && s.hasRoom port then .service port else next }
    | _, _ => none
  | .service noise =>
    match s.stage, s.posts with
    | .service port, [] => (s.sdWrite.serve (fun q => decide (q = port)) noise).map s.worked
    | _, _ => none
  | .post =>
    match s.posts with
    | [] => none
    | p :: rest => some { s with posts := rest, board := s.board.post p.port (.ofLog p.msg) }

/-- The scheduler has started and `begin()` returned, on whatever card. -/
def boot (parser : MavlinkParser) (lib : MavlinkLibrary) (status : parser.Status) (seq : Fin 2 → UInt8) (b : Start)
    (files size : Nat) (card : Storage.Card Log.LogPiece) (o : Opening) : Firmware parser lib where
  board := .boot parser lib status seq b
  sdWrite := .boot files size card o

end Firmware

/-! ## What is asked and answered on a port -/

def LinkMsg.log : LinkMsg → Option Log.LinkMsg
  | .logEntry m => some (.logEntry m)
  | .logData m => some (.logData m)
  | _ => none

/-- What is of the log protocol. -/
def logsOf (items : List LinkMsg) : List Log.LinkMsg := items.filterMap LinkMsg.log

def postsTo (port : Fin 2) (posts : List Post) : List Log.LinkMsg :=
  posts.filterMap fun x => if x.port = port then some x.msg else none

/-- The requests a port's messages make. -/
def requestsOf (port : Fin 2) (msgs : List MavlinkMessage) : List (LogRequestKind × SdLogRequestPayload) :=
  msgs.filterMap fun msg => InboundMsg.logRequest { msg, chan := port }

/-- The requests of a port among the items of `linkReadQueue`. -/
def requestsOn (port : Fin 2) (xs : List InboundMsg) : List (LogRequestKind × SdLogRequestPayload) :=
  xs.filterMap fun x => if x.chan = port then x.logRequest else none

def ofKind (kind : LogRequestKind) (requests : List (LogRequestKind × SdLogRequestPayload)) : List SdLogRequestPayload :=
  requests.filterMap fun x => if x.1 = kind then some x.2 else none

/-- The requests of a port among the items of `sdWriteQueue`. -/
def recordsOf (port : Fin 2) (xs : List SdRecord) : List SdRecord :=
  xs.filter fun x => TaskMavlink.answerPort x = some (UInt8.ofNat port)

/-- The request of this kind that a record is. -/
def requestIn (kind : LogRequestKind) (x : SdRecord) : Option SdLogRequestPayload :=
  match kind, x with
  | .logList, .logList p => some p
  | .logRead, .logRead p => some p
  | .logEnd, .logEnd p => some p
  | _, _ => none

/-- What `TaskSdWrite` received. -/
def receivedBy (ts : List TaskEv) : List SdRecord :=
  ts.filterMap fun
    | .received incoming _ => some incoming
    | .served _ _ => none

theorem logsOf_append (xs ys : List LinkMsg) : logsOf (xs ++ ys) = logsOf xs ++ logsOf ys := List.filterMap_append

theorem requestsOn_append (port : Fin 2) (xs ys : List InboundMsg) :
    requestsOn port (xs ++ ys) = requestsOn port xs ++ requestsOn port ys := List.filterMap_append

theorem recordsOf_append (port : Fin 2) (xs ys : List SdRecord) :
    recordsOf port (xs ++ ys) = recordsOf port xs ++ recordsOf port ys := List.filter_append ..

theorem receivedBy_append (ts us : List TaskEv) : receivedBy (ts ++ us) = receivedBy ts ++ receivedBy us :=
  List.filterMap_append

theorem postsTo_append (port : Fin 2) (xs ys : List Post) : postsTo port (xs ++ ys) = postsTo port xs ++ postsTo port ys :=
  List.filterMap_append

theorem log_ofLog (m : Log.LinkMsg) : (LinkMsg.ofLog m).log = some m := by
  cases m <;> rfl

theorem logsOf_of_plain {m : LinkMsg} (h : m.isLog = false) : logsOf [m] = [] := by
  cases m <;> first | rfl | cases h

theorem requestsOn_offered (port : Fin 2) (xs : List Offered) :
    requestsOn port (xs.map Offered.inbound) = requestsOf port (offeredBy port xs) := by
  unfold requestsOn requestsOf offeredBy
  rw [List.filterMap_map, List.filterMap_map, List.filterMap_filter]
  refine List.filterMap_congr fun x _ => ?_
  by_cases hchan : x.inbound.chan = port
  · subst hchan
    simp
  · simp [hchan]

theorem requestIn_record (kind : LogRequestKind) (requests : List (LogRequestKind × SdLogRequestPayload)) :
    (requests.map fun x => x.1.record x.2).filterMap (requestIn kind) = ofKind kind requests := by
  rw [List.filterMap_map]
  refine List.filterMap_congr fun x _ => ?_
  rcases x with ⟨other, p⟩
  cases kind <;> cases other <;> rfl

theorem portOf_eq_some {request : SdLogRequestPayload} {port : Fin 2} :
    TaskSdWrite.portOf request = some port ↔ request.port = UInt8.ofNat port := by
  have hport : (UInt8.ofNat port).toNat = port := by
    fin_cases port <;> rfl
  unfold TaskSdWrite.portOf
  split
  · rw [Option.some_inj, Fin.ext_iff, ← UInt8.toNat_inj, hport]
  · rename_i hout
    rw [← UInt8.toNat_inj, hport]
    constructor
    · rintro ⟨⟩
    · omega

/-- With a writer a pass offers a port nothing of the log protocol. -/
theorem plain_of_served {port : Fin 2} {requests : List (LogRequestKind × SdLogRequestPayload)} {s : TaskMavlink}
    (h : TaskMavlink.Served port true requests s) : ∀ x ∈ s.offered, x.1 = port → x.2.isLog = false := by
  intro x hx hport
  have hnone := (h.served rfl).1
  rw [logItems, List.map_eq_nil_iff, List.filter_eq_nil_iff] at hnone
  simpa [hport] using hnone x hx

/-- The requests that `TaskSdWrite` receives for a port. -/
theorem asksRead_eq (port : Fin 2) (ts : List TaskEv) :
    ts.filterMap (Log.asksRead port) = (recordsOf port (receivedBy ts)).filterMap (requestIn .logRead) := by
  unfold recordsOf receivedBy
  rw [List.filterMap_filter, List.filterMap_filterMap]
  refine List.filterMap_congr fun e _ => ?_
  rcases e with ⟨incoming, o⟩ | _
  · cases incoming <;> simp [Log.asksRead, TaskMavlink.answerPort, requestIn, portOf_eq_some]
  · rfl

theorem asksList_eq (port : Fin 2) (ts : List TaskEv) :
    ts.filterMap (Log.asksList port) = (recordsOf port (receivedBy ts)).filterMap (requestIn .logList) := by
  unfold recordsOf receivedBy
  rw [List.filterMap_filter, List.filterMap_filterMap]
  refine List.filterMap_congr fun e _ => ?_
  rcases e with ⟨incoming, o⟩ | _
  · cases incoming <;> simp [Log.asksList, TaskMavlink.answerPort, requestIn, portOf_eq_some]
  · rfl

theorem posted_step {t t' : TaskSdWrite} {e : TaskEv} (h : t.step e = some t') : ∃ xs, t'.posted = t.posted ++ xs := by
  rcases Log.Continues.step 0 h with ⟨-, xs, hxs, -⟩ | ⟨request, -, rfl⟩
  · exact ⟨xs, hxs⟩
  · exact ⟨[], by rw [List.append_nil]; exact Log.posted_endStream t 0⟩

/-! ## The way of a request and of its answers -/

namespace Firmware

variable {parser : MavlinkParser} {lib : MavlinkLibrary} {s s' : Firmware parser lib} {status : parser.Status}
  {seq : Fin 2 → UInt8} {boot : TaskSdWrite} {port : Fin 2}

/-- The requests of a port are forwarded in part and in order, and those the card's task has received are the front
of these; what it posted for the port is what the write queue was sent of the log protocol and what is still to send. -/
structure Ok (status : parser.Status) (seq : Fin 2 → UInt8) (boot : TaskSdWrite) (port : Fin 2) (s : Firmware parser lib) :
    Prop where
  board : Board.Ok status seq port s.board
  served : TaskMavlink.Served port true (requestsOn port s.board.reads.taken) s.board.mavlink
  plain : ∀ x ∈ s.board.pending, x.1 = port → x.2.isLog = false
  forwarded : ∃ done ts, s.board.mavlink.recorded = done ++ s.records ∧ run TaskSdWrite.step boot ts = some s.sdWrite ∧
    (recordsOf port (receivedBy ts ++ s.sdWriteQueue)).Sublist (recordsOf port done)
  posted : ∃ sent, s.sdWrite.posted = sent ++ s.posts ∧ logsOf (s.board.items port) = postsTo port sent

/-- A task of the link goes on, and nothing of the log protocol moves. -/
theorem Ok.link_step (h : Ok status seq boot port s) {board : Board parser lib} (hboard : Board.Ok status seq port board)
    (htaken : board.reads.taken = s.board.reads.taken) (hmavlink : board.mavlink = s.board.mavlink)
    (hpending : ∀ x ∈ board.pending, x ∈ s.board.pending) (hitems : logsOf (board.items port) = logsOf (s.board.items port)) :
    Ok status seq boot port { s with board } := by
  refine ⟨hboard, ?_, fun x hx => h.plain x (hpending x hx), ?_, ?_⟩
  · dsimp only
    rw [htaken, hmavlink]
    exact h.served
  · dsimp only
    rw [hmavlink]
    exact h.forwarded
  · dsimp only
    rw [hitems]
    exact h.posted

/-- A reader or a writer goes on. -/
theorem Ok.aside_step (h : Ok status seq boot port s) {c : Conversion} {e : BoardEv} {board : Board parser lib}
    (hstep : s.board.step c e = some board) (he : (∃ r, e = .read r) ∨ ∃ q w, e = .write q w) :
    Ok status seq boot port { s with board } := by
  have hboard := Board.ok_step h.board hstep
  rcases he with ⟨r, rfl⟩ | ⟨q, w, rfl⟩
  · cases r with
    | xQueueReceive => cases hstep
    | receive | turn | wake =>
      simp only [Board.step] at hstep
      obtain ⟨reads, hreads, rfl⟩ := Option.map_eq_some_iff.1 hstep
      exact h.link_step hboard (taken_step hreads (by simp)) rfl (fun _ hx => hx) rfl
  · cases w with
    | xQueueSend intent => cases hstep
    | xQueueReceive | mavlinkPack | offer =>
      simp only [Board.step] at hstep
      obtain ⟨w, -, rfl⟩ := Option.map_eq_some_iff.1 hstep
      exact h.link_step hboard rfl rfl (fun _ hx => hx) rfl

/-- A pass of `TaskMavlink`: it forwards or drops the request it takes, and answers nothing itself. -/
theorem Ok.pass_step (h : Ok status seq boot port s) {c : Conversion} {e : Pass} {board : Board parser lib}
    (hidle : s.records = []) (hstep : s.board.step c (.pass e) = some board) :
    Ok status seq boot port
      { s with board, records := board.mavlink.recorded.drop s.board.mavlink.recorded.length } := by
  have hboard := Board.ok_step h.board hstep
  simp only [Board.step] at hstep
  split at hstep
  swap
  · cases hstep
  obtain ⟨m, hm, rfl⟩ := Option.map_eq_some_iff.1 hstep
  have hserved := TaskMavlink.served_pass h.served c { e with received := s.board.reads.linkReadQueue.head? }
  obtain ⟨items, records, hsends⟩ := s.board.mavlink.pass_sends c { e with received := s.board.reads.linkReadQueue.head? }
  rw [TaskMavlink.pass_of_step hm] at hserved hsends
  obtain ⟨done, ts, hrecorded, hrun, hsub⟩ := h.forwarded
  rw [hidle, List.append_nil] at hrecorded
  refine ⟨hboard, ?_, ?_, ⟨done, ts, ?_, hrun, hsub⟩, h.posted⟩
  · have htaken : requestsOn port s.board.received.taken = requestsOn port s.board.reads.taken ++
        logRequests port [{ e with received := s.board.reads.linkReadQueue.head? }] := by
      rw [Board.received_taken, requestsOn_append]
      cases hhead : s.board.reads.linkReadQueue.head? <;> rfl
    dsimp only
    rw [htaken]
    exact hserved
  · intro x hx
    exact plain_of_served hserved x (List.mem_of_mem_drop hx)
  · dsimp only
    rw [hsends.recorded, List.drop_left, hrecorded]

/-- A send of the pass, which is not of the log protocol if it is for this port. -/
theorem Ok.send_step (h : Ok status seq boot port s) {c : Conversion} {board : Board parser lib}
    (hstep : s.board.step c .xQueueSend = some board) : Ok status seq boot port { s with board } := by
  have hboard := Board.ok_step h.board hstep
  simp only [Board.step] at hstep
  split at hstep
  · cases hstep
  rename_i q intent rest hpending
  cases hstep
  refine h.link_step hboard rfl rfl (fun x hx => hpending ▸ List.mem_cons_of_mem _ hx) ?_
  rw [Board.post_items, logsOf_append]
  split
  · rename_i hq
    rw [logsOf_of_plain (h.plain (q, intent) (hpending ▸ List.mem_cons_self) hq), List.append_nil]
    rfl
  · exact List.append_nil _

/-- A record goes to `sdWriteQueue`, which takes it or is full. -/
theorem Ok.record_step (h : Ok status seq boot port s) {r : SdRecord} {records : List SdRecord}
    (hrecord : s.records = r :: records ∨ s.records = records ∧ recordsOf port [r] = []) :
    Ok status seq boot port { s with records, sdWriteQueue := (Log.xQueueSend s.sdWriteQueue r).2 } := by
  obtain ⟨done, ts, hrecorded, hrun, hsub⟩ := h.forwarded
  have hqueue : (recordsOf port (receivedBy ts ++ (Log.xQueueSend s.sdWriteQueue r).2)).Sublist
      (recordsOf port done ++ recordsOf port [r]) := by
    refine (List.Sublist.filter _ ?_).trans (recordsOf_append port (receivedBy ts ++ s.sdWriteQueue) [r] ▸ hsub.append_right _)
    rw [List.append_assoc]
    exact (Fifo.send_sublist _ _ _).append_left _
  refine ⟨h.board, h.served, h.plain, ?_, h.posted⟩
  rcases hrecord with hnext | ⟨hsame, hnone⟩
  · refine ⟨done ++ [r], ts, ?_, hrun, ?_⟩
    · rw [hrecorded, hnext, List.append_assoc]
      rfl
    · rw [recordsOf_append port done]
      exact hqueue
  · rw [hnone, List.append_nil] at hqueue
    exact ⟨done, ts, hsame ▸ hrecorded, hrun, hqueue⟩

/-- `TaskSdWrite` works, on what it received or on a piece of a download. -/
theorem Ok.worked (h : Ok status seq boot port s) {e : TaskEv} {t : TaskSdWrite} {sdWriteQueue : SdWriteQueue}
    (hstep : s.sdWrite.step e = some t) (hidle : s.posts = []) (hqueue : s.sdWriteQueue = receivedBy [e] ++ sdWriteQueue) :
    Ok status seq boot port ({ s with sdWriteQueue }.worked t) := by
  obtain ⟨done, ts, hrecorded, hrun, hsub⟩ := h.forwarded
  refine ⟨h.board, h.served, h.plain, ⟨done, ts ++ [e], hrecorded, run_concat.2 ⟨_, hrun, hstep⟩, ?_⟩, ?_⟩
  · rw [hqueue, ← List.append_assoc, ← receivedBy_append] at hsub
    exact hsub
  · obtain ⟨xs, hxs⟩ := posted_step hstep
    obtain ⟨sent, hsent, hitems⟩ := h.posted
    rw [hidle, List.append_nil] at hsent
    refine ⟨sent, ?_, hitems⟩
    change t.posted = sent ++ t.posted.drop s.sdWrite.posted.length
    rw [hxs, List.drop_left, hsent]

/-- The next message goes to its port. -/
theorem Ok.post_step (h : Ok status seq boot port s) {p : Post} {posts : List Post} (hposts : s.posts = p :: posts) :
    Ok status seq boot port { s with posts, board := s.board.post p.port (.ofLog p.msg) } := by
  have hboard : Board.Ok status seq port (s.board.post p.port (.ofLog p.msg)) :=
    Board.ok_step (c := .vcvt) (e := .logProtocol p.port p.msg) h.board rfl
  obtain ⟨sent, hsent, hitems⟩ := h.posted
  refine ⟨hboard, h.served, h.plain, h.forwarded, sent ++ [p], ?_, ?_⟩
  · rw [hsent, hposts, List.append_assoc]
    rfl
  · rw [Board.post_items, logsOf_append, hitems, postsTo_append]
    congr 1
    by_cases hport : p.port = port <;> simp [hport, logsOf, postsTo, log_ofLog]

theorem ok_step {c : Conversion} {e : FirmwareEv} (h : Ok status seq boot port s) (hstep : s.step c e = some s') :
    Ok status seq boot port s' := by
  cases e with
  | link e =>
    cases e with
    | logProtocol q m => cases hstep
    | pass e =>
      simp only [step] at hstep
      split at hstep
      · rename_i hidle
        obtain ⟨board, hboard, rfl⟩ := Option.map_eq_some_iff.1 hstep
        exact h.pass_step (List.isEmpty_iff.1 hidle) hboard
      · cases hstep
    | xQueueSend =>
      simp only [step] at hstep
      obtain ⟨board, hboard, rfl⟩ := Option.map_eq_some_iff.1 hstep
      exact h.send_step hboard
    | read e =>
      simp only [step] at hstep
      obtain ⟨board, hboard, rfl⟩ := Option.map_eq_some_iff.1 hstep
      exact h.aside_step hboard (Or.inl ⟨e, rfl⟩)
    | write q e =>
      simp only [step] at hstep
      obtain ⟨board, hboard, rfl⟩ := Option.map_eq_some_iff.1 hstep
      exact h.aside_step hboard (Or.inr ⟨q, e, rfl⟩)
  | record =>
    simp only [step] at hstep
    split at hstep
    · cases hstep
    · rename_i r rest hrecords
      cases hstep
      exact h.record_step (Or.inl hrecords)
  | taskLogger us heap marks =>
    cases hstep
    exact h.record_step (Or.inr ⟨rfl, rfl⟩)
  | xQueueReceive o =>
    simp only [step] at hstep
    split at hstep
    · rename_i incoming rest _ hidle hqueue
      obtain ⟨t, ht, rfl⟩ := Option.map_eq_some_iff.1 hstep
      exact h.worked (e := .received incoming o) ht hidle hqueue
    · cases hstep
  | drained =>
    simp only [step] at hstep
    split at hstep
    · cases hstep
      exact ⟨h.board, h.served, h.plain, h.forwarded, h.posted⟩
    · cases hstep
  | portHasRoom =>
    simp only [step] at hstep
    split at hstep
    · cases hstep
      exact ⟨h.board, h.served, h.plain, h.forwarded, h.posted⟩
    · cases hstep
  | service noise =>
    simp only [step] at hstep
    split at hstep
    · rename_i q _ hidle
      obtain ⟨t, ht, rfl⟩ := Option.map_eq_some_iff.1 hstep
      exact h.worked (e := .served (fun p => decide (p = q)) noise) ht hidle rfl
    · cases hstep
  | post =>
    simp only [step] at hstep
    split at hstep
    · cases hstep
    · rename_i p rest hposts
      cases hstep
      exact h.post_step hposts

theorem ok_boot {b : Start} (hwriter : b.handles .sdWrite = true) (files size : Nat) (card : Storage.Card Log.LogPiece) (o : Opening) :
    Ok status seq (.boot files size card o) port (Firmware.boot parser lib status seq b files size card o) := by
  have hserved : TaskMavlink.Served port true [] b.task := hwriter ▸ TaskMavlink.served_start b
  exact ⟨Board.ok_boot b, hserved, plain_of_served hserved, ⟨[], [], rfl, rfl, .refl _⟩, [], rfl, rfl⟩

/-- What the card's task received of a port is in order what the port's bytes ask for, and no more. -/
theorem Ok.asked (h : Ok status seq boot port s) {ts : List TaskEv} {done : List SdRecord}
    (hrecorded : s.board.mavlink.recorded = done ++ s.records)
    (hsub : (recordsOf port (receivedBy ts ++ s.sdWriteQueue)).Sublist (recordsOf port done)) (kind : LogRequestKind) :
    ((recordsOf port (receivedBy ts)).filterMap (requestIn kind)).Sublist
      (ofKind kind (requestsOf port (completedBy parser status (s.board.reads.ports port).consumed))) := by
  -- what is received was in `sdWriteQueue`, and was forwarded; what was forwarded was taken by a pass
  have hforwarded : (recordsOf port (receivedBy ts)).Sublist
      ((requestsOn port s.board.reads.taken).map fun x => x.1.record x.2) := by
    have hreceived : (recordsOf port (receivedBy ts)).Sublist (recordsOf port (receivedBy ts ++ s.sdWriteQueue)) :=
      (List.sublist_append_left _ _).filter _
    have hdone : (recordsOf port done).Sublist (recordsOf port s.board.mavlink.recorded) :=
      hrecorded ▸ (List.sublist_append_left _ _).filter _
    exact ((hreceived.trans hsub).trans hdone).trans (h.served.served rfl).2
  -- what a pass took was in `linkReadQueue`, and was completed by the bytes
  have htaken : (requestsOn port s.board.reads.taken).Sublist
      (requestsOf port (completedBy parser status (s.board.reads.ports port).consumed)) := by
    rw [← h.board.read.offered, ← requestsOn_offered]
    have haccepted : s.board.reads.taken.Sublist ((s.board.reads.offered.filter Offered.accepted).map Offered.inbound) :=
      h.board.queue.accepted ▸ List.sublist_append_left _ _
    exact (haccepted.trans (List.filter_sublist.map _)).filterMap _
  have hkind := hforwarded.filterMap (requestIn kind)
  rw [requestIn_record] at hkind
  exact hkind.trans (htaken.filterMap _)

/-- However the tasks take turns, on a board with a card: the frames a port was offered are those of the first messages
its write queue took. Those of the log protocol among them are what the card's task posted for the port, in its order, and
none is missing that the queue did not refuse. And what it posted answers requests that the port's bytes hold, one after
the other in the order they came in: a download with the front of its range, a listing with ids of its range. -/
theorem log_answered (c : Conversion) (parser : MavlinkParser) (lib : MavlinkLibrary) (status : parser.Status)
    (seq : Fin 2 → UInt8) (b : Start) (hwriter : b.handles .sdWrite = true) (files size : Nat) (hpos : 0 < files)
    (hmax : files ≤ 255) (card : Storage.Card Log.LogPiece) (o : Opening) (es : List FirmwareEv) (s : Firmware parser lib)
    (hrun : run (step c) (Firmware.boot parser lib status seq b files size card o) es = some s) (port : Fin 2) :
    let asked := requestsOf port (completedBy parser status (s.board.reads.ports port).consumed)
    ∃ (packed : List (LinkMsg × PackState)) (reads lists : List SdLogRequestPayload),
      s.board.queued port =
        packed.map Prod.fst ++ (s.board.writers port).stage.intents ++ (s.board.writers port).writeQueue ∧
      (s.board.writers port).offered.map Prod.fst ++ (s.board.writers port).stage.frames =
        Mealy.outputs (packer lib port) (seq port) packed ∧
      (logsOf (packed.map Prod.fst)).Sublist (postsTo port s.sdWrite.posted) ∧
      ((∀ x ∈ s.board.sent port, x.accepted = true) →
        logsOf (s.board.queued port) ++ postsTo port s.posts = postsTo port s.sdWrite.posted) ∧
      reads.Sublist (ofKind .logRead asked) ∧ Answered AnswersRead reads (Log.dataTo port s.sdWrite.posted) ∧
      lists.Sublist (ofKind .logList asked) ∧ Answered AnswersList lists (Log.entriesTo port s.sdWrite.posted) := by
  intro asked
  have h : Ok status seq (.boot files size card o) port s := inv (fun _ _ _ => ok_step) (ok_boot hwriter files size card o) hrun
  obtain ⟨packed, hpacked⟩ := h.board.packed
  obtain ⟨done, ts, hrecorded, hts, hsub⟩ := h.forwarded
  obtain ⟨sent, hsent, hitems⟩ := h.posted
  refine ⟨packed, ts.filterMap (Log.asksRead port), ts.filterMap (Log.asksList port), hpacked.accepted, hpacked.frames,
    ?_, fun haccepted => ?_, ?_, ?_, ?_, ?_⟩
  · -- of what was posted, the write queue refuses some at most, and some is not packed yet
    have hpack : (logsOf (packed.map Prod.fst)).Sublist (logsOf (s.board.queued port)) := by
      rw [hpacked.accepted, List.append_assoc, logsOf_append]
      exact List.sublist_append_left _ _
    have hsend : (logsOf (s.board.queued port)).Sublist (logsOf (s.board.items port)) :=
      (List.filter_sublist.map _).filterMap _
    rw [hitems] at hsend
    rw [hsent, postsTo_append]
    exact (hpack.trans hsend).trans (List.sublist_append_left _ _)
  · rw [Board.queued, List.filter_eq_self.2 haccepted]
    change logsOf (s.board.items port) ++ _ = _
    rw [hitems, hsent, postsTo_append]
  · rw [asksRead_eq]
    exact h.asked hrecorded hsub .logRead
  · exact (Log.answers_reads port).run rfl rfl hts
  · rw [asksList_eq]
    exact h.asked hrecorded hsub .logList
  · exact (Log.answers_lists port).run ⟨(Log.taskOk_boot hpos size card o).files.le.trans hmax, rfl⟩ rfl hts

/-! ## A chunk of a log that goes out -/

/-- A LOG_REQUEST_DATA of a ground station to the board. -/
def logRequestFrame (seq sysid compid : UInt8) (request : LogRequestData) : List UInt8 :=
  frameBytes seq sysid compid 119 116
    (LittleEndian.ofNat 4 request.ofs.toNat ++ LittleEndian.ofNat 4 request.count.toNat ++
      LittleEndian.ofNat 2 request.id.toNat ++ [1, 1])

def logRequestParser : MavlinkParser := frameParser 116 fun payload =>
  { groundMessage TaskMavlink.msgIdLogRequestData with logRequestData := {
      ofs := UInt32.ofNat (LittleEndian.toNat (payload.take 4))
      count := UInt32.ofNat (LittleEndian.toNat ((payload.drop 4).take 4))
      id := UInt16.ofNat (LittleEndian.toNat ((payload.drop 8).take 2)) } }

/-- USB's writer takes an item, packs it and finds room. -/
def written : List FirmwareEv :=
  [.link (.write linkChanUsb .xQueueReceive), .link (.write linkChanUsb (.mavlinkPack firstBoot)),
    .link (.write linkChanUsb (.offer 256))]

/-- The start of log 2 is asked for on USB. The pass forwards the request behind the battery's record, and the chunk
goes out after the boot's two texts. -/
def chunkAsked : List FirmwareEv :=
  (logRequestFrame 0 255 190 { ofs := 0, count := 90, id := 2 }).flatMap (fun b =>
    [.link (.read (.receive linkChanUsb b)), .link (.read (.turn linkChanUsb))]) ++
    List.replicate 4 (.link .xQueueSend) ++ [.link (.pass (quietPass 510 none)), .record, .record] ++
    List.replicate 2 (.xQueueReceive Log.opening) ++ written ++ written ++
    -- the UART is looked at first, and has asked for nothing
    [.drained, .portHasRoom, .portHasRoom, .service [], .post] ++ written

def chunkBoard : Firmware logRequestParser Board.answerLibrary :=
  .boot logRequestParser Board.answerLibrary ([], false) (fun _ => 0) freshStart 4 373 (Log.comeRound 4) Log.opening

theorem log_answered_chunk : ∃ (s : Firmware logRequestParser Board.answerLibrary) (packed : List (LinkMsg × PackState)),
    run (step .vcvt) chunkBoard chunkAsked = some s ∧
      (s.board.writers linkChanUsb).written.map (fun f => f.msg.msgid) = [253, 253, 120] ∧
      (s.board.writers linkChanUsb).offered.map Prod.fst ++ (s.board.writers linkChanUsb).stage.frames =
        Mealy.outputs (packer Board.answerLibrary linkChanUsb) 0 packed ∧
      logsOf (packed.map Prod.fst) = postsTo linkChanUsb s.sdWrite.posted ∧
      (Log.dataTo linkChanUsb s.sdWrite.posted).map (fun m => (m.ofs, m.id, m.count)) = [(0, 2, 90)] ∧
      Answered AnswersRead [{ ofs := 0, count := 90, start := 2, «end» := 0, port := 1 }]
        (Log.dataTo linkChanUsb s.sdWrite.posted) ∧
      Answered AnswersList [] (Log.entriesTo linkChanUsb s.sdWrite.posted) := by
  have hrun : (run (step .vcvt) chunkBoard chunkAsked).map (fun s =>
      ((s.board.writers linkChanUsb).written.map (fun f : Board.AnswerFrame => f.msg.msgid),
        (s.board.sent linkChanUsb).all Sent.accepted && (postsTo linkChanUsb s.posts).isEmpty,
        logsOf ((s.board.writers linkChanUsb).stage.intents ++ (s.board.writers linkChanUsb).writeQueue))) =
      some ([253, 253, 120], true, []) := by decide +kernel
  have hanswer : (run (step .vcvt) chunkBoard chunkAsked).map (fun s =>
      (requestsOf linkChanUsb (completedBy logRequestParser ([], false) (s.board.reads.ports linkChanUsb).consumed),
        (Log.dataTo linkChanUsb s.sdWrite.posted).map (fun m => (m.ofs, m.id, m.count)))) =
      some ([(.logRead, { ofs := 0, count := 90, start := 2, «end» := 0, port := 1 })], [(0, 2, 90)]) := by decide +kernel
  obtain ⟨s, hs, hseen⟩ := Option.map_eq_some_iff.1 hrun
  rw [hs, Option.map_some, Option.some_inj] at hanswer
  obtain ⟨hasked, hdata⟩ := Prod.mk.inj hanswer
  simp only [Prod.mk.injEq, Bool.and_eq_true, List.all_eq_true, List.isEmpty_iff] at hseen
  obtain ⟨hwritten, ⟨hsent, hposts⟩, hwaiting⟩ := hseen
  obtain ⟨packed, reads, lists, hqueued, hframes, -, hlogs, hreads, hread, hlists, hlist⟩ :=
    log_answered .vcvt logRequestParser Board.answerLibrary ([], false) (fun _ => 0) freshStart rfl 4 373 (by decide) (by decide)
      (Log.comeRound 4) Log.opening chunkAsked s hs linkChanUsb
  have hlogs := hlogs hsent
  rw [hqueued, List.append_assoc, logsOf_append, hwaiting, hposts, List.append_nil, List.append_nil] at hlogs
  rw [hasked] at hreads hlists
  refine ⟨s, packed, hs, hwritten, hframes, hlogs, hdata, ?_, List.sublist_nil.1 hlists ▸ hlist⟩
  rcases List.sublist_singleton.1 hreads with rfl | rfl
  · obtain ⟨parts, hparts, hsame⟩ := hread
    cases hparts
    rw [← hsame] at hdata
    cases hdata
  · exact hread

end Firmware

end BoredomOS.Link
