/-
How many slots of a port's write queue the log protocol holds. A piece served goes to a queue that held
at most one item when `portHasRoom()` looked, and only `TaskSdWrite` adds to its own items since: two at
most. The end of a download whose slot a write reuses is posted without that look, and is the third if
it finds two.
-/
import BoredomOS.Log.Tasks
import BoredomOS.Log.Unmixed

namespace BoredomOS.Log

open Runs
open Link (Producer writeQueueDepth)

/-- The items of `TaskSdWrite` in the write queue of a port. -/
def logItems (s : Tasks) (port : Fin 2) : Nat :=
  (s.out.writeQueue port).countP fun x => x.1 = .taskSdWrite

/-- Two of them at most, in every state of the run. -/
def SlotsKept (b : Tasks) (es : List TasksEv) : Prop :=
  ∀ es₁ es₂ s, es = es₁ ++ es₂ → run Tasks.step b es₁ = some s → ∀ port, logItems s port ≤ 2

/-- The port's download is of that slot. -/
def TaskSdWrite.downloads (t : TaskSdWrite) (slot : Nat) (port : Fin 2) : Bool :=
  (t.streams port).active && !(t.streams port).absent && decide ((t.streams port).slot.toInt = slot)

/-- The write of the record fills the file, and the slot it moves on to is that of the port's download. -/
def TaskSdWrite.reusesSlot (t : TaskSdWrite) (incoming : SdRecord) (port : Fin 2) : Bool :=
  let next := (t.currentFile + 1) % t.fileCount
  t.sdData.fills (Log.writeRecord incoming) && decide (next ≠ t.currentFile) && t.downloads next port

/-- A record that reuses the slot of a running download finds at most one item of `TaskSdWrite` in the port's
write queue, or the queue full. -/
def EndsFindRoom (b : Tasks) (es : List TasksEv) : Prop :=
  ∀ es₁ o es₂ s incoming rest port, es = es₁ ++ .xQueueReceive o :: es₂ → run Tasks.step b es₁ = some s →
    s.stage = .xQueueReceive → s.sdWriteQueue = incoming :: rest → s.sdWrite.reusesSlot incoming.1 port = true →
      logItems s port ≤ 1 ∨ writeQueueDepth ≤ (s.out.writeQueue port).length

/-! ## What a write posts -/

namespace TaskSdWrite

theorem posted_endReplaced (t : TaskSdWrite) (after : Nat) (port : Fin 2) :
    (t.endReplaced after port).posted = t.posted ++ if t.downloads after port then [{
      port, msg := .logData { id := (t.streams port).id, ofs := (t.streams port).pos, count := 0, data := chars 90 [] }
      named := t.named port, source := none }] else [] := by
  unfold endReplaced
  dsimp only
  change (if t.downloads after port = true then (t.postNoData port).endStream port else t).posted = _
  split
  · simpa [postNoData, send] using (Worked.endStream (t.postNoData port) port).posted
  · rw [List.append_nil]

theorem downloads_endReplaced {port q : Fin 2} (hq : q ≠ port) (t : TaskSdWrite) (after slot : Nat) :
    (t.endReplaced after port).downloads slot q = t.downloads slot q := by
  have hstream : (t.endReplaced after port).streams q = t.streams q := by
    unfold endReplaced
    dsimp only
    split
    · rw [streams_endStream, if_neg hq]
      rfl
    · rfl
  rw [downloads, downloads, hstream]

/-- A rotation posts to the ports whose downloads are of the slot it moves on to. -/
theorem posts_endReplaced (t : TaskSdWrite) (after : Nat) (port : Fin 2) :
    (∃ x ∈ ((t.endReplaced after 0).endReplaced after 1).posted.drop t.posted.length, x.port = port) ↔
      t.downloads after port = true := by
  rw [posted_endReplaced, posted_endReplaced, downloads_endReplaced (by decide : (1 : Fin 2) ≠ 0), List.append_assoc,
    List.drop_left]
  cases h₀ : t.downloads after 0 <;> cases h₁ : t.downloads after 1 <;> fin_cases port <;> simp [h₀, h₁]

/-- What `writeRecord()` posts, it posts to the ports whose slot it reuses. -/
theorem posts_writeRecord (t : TaskSdWrite) (incoming : SdRecord) (o : Opening) (port : Fin 2) :
    (∃ x ∈ (t.writeRecord incoming o).posted.drop t.posted.length, x.port = port) ↔
      t.reusesSlot incoming port = true := by
  have hnone : ∀ t' : TaskSdWrite, t'.posted = t.posted → ¬ ∃ x ∈ t'.posted.drop t.posted.length, x.port = port := by
    intro t' hposted
    simp [hposted]
  unfold writeRecord reusesSlot
  cases Log.writeRecord incoming with
  | none => simp [Storage.Sys.fills]
  | some record =>
    have hwrite := Storage.onward_or_rotated_write (some record) (writeLogPreamble o) t.sdData
    dsimp only
    generalize ((Storage.write (some record) (writeLogPreamble o)).run t.sdData).2 = sd at hwrite
    rcases hwrite with ⟨hfills, hsame⟩ | ⟨hfills, hrotated⟩
    · rw [if_neg fun hmoved => hmoved hsame.fileIdx, hfills]
      exact iff_of_false (hnone _ rfl) (by simp)
    · have hnext : currentFile { t with sdData := sd } = (t.currentFile + 1) % t.fileCount := hrotated.fileIdx
      rw [hnext, hfills, Bool.true_and]
      by_cases hmoved : (t.currentFile + 1) % t.fileCount ≠ t.currentFile
      · rw [if_pos hmoved, decide_eq_true hmoved, Bool.true_and]
        exact posts_endReplaced { t with sdData := sd } _ port
      · rw [if_neg hmoved, decide_eq_false hmoved]
        exact iff_of_false (hnone _ rfl) (by simp)

theorem reusesSlot_of_request {incoming : SdRecord} (h : Log.writeRecord incoming = none) (t : TaskSdWrite) (port : Fin 2) :
    t.reusesSlot incoming port = false := by
  simp [reusesSlot, h, Storage.Sys.fills]

theorem posts_receive {t t' : TaskSdWrite} {incoming : SdRecord} {o : Opening} (h : t.receive incoming o = some t')
    (port : Fin 2) :
    (∃ x ∈ t'.posted.drop t.posted.length, x.port = port) ↔ t.reusesSlot incoming port = true := by
  have hrequest : Log.writeRecord incoming = none → t'.posted = t.posted →
      ((∃ x ∈ t'.posted.drop t.posted.length, x.port = port) ↔ t.reusesSlot incoming port = true) := by
    intro hkind hposted
    rw [reusesSlot_of_request hkind, hposted]
    simp
  have hend : ∀ q, (t.endStream q).posted = t.posted := fun q => by
    simpa using (Worked.endStream t q).posted
  cases incoming with
  | logList p =>
    obtain ⟨q, -, rfl⟩ := Option.map_eq_some_iff.1 h
    exact hrequest rfl rfl
  | logRead p =>
    obtain ⟨q, -, rfl⟩ := Option.map_eq_some_iff.1 h
    exact hrequest rfl (hend q)
  | logEnd p =>
    obtain ⟨q, -, rfl⟩ := Option.map_eq_some_iff.1 h
    exact hrequest rfl (hend q)
  | sys p | pwr p | time p =>
    cases h
    exact posts_writeRecord t _ o port

end TaskSdWrite

/-! ## One step -/

/-- And no more than one in the queue of the port about to be served. -/
structure Paced (s : Tasks) : Prop where
  two : ∀ port, logItems s port ≤ 2
  one : ∀ port, s.stage = .service port → logItems s port ≤ 1

theorem logItems_send {s s' : Tasks} {xs : List Sent} (h : Sends s.request s.out s'.out xs) {x : Sent} (hx : x ∈ xs) :
    logItems s' x.post.port = logItems s x.post.port +
      if (s.out.writeQueue x.post.port).length < writeQueueDepth then 1 else 0 := by
  unfold logItems
  rw [h.queued x hx]
  by_cases hroom : (s.out.writeQueue x.post.port).length < writeQueueDepth
  · rw [Fifo.send_room hroom, if_pos hroom]
    simp
  · rw [Fifo.send_full hroom, if_neg hroom, Nat.add_zero]

/-- Whatever is posted, a port whose items leave room for one more keeps to two. -/
theorem paced_of_sends {s s' : Tasks} {xs : List Sent} (h : Paced s) (hs : Sends s.request s.out s'.out xs)
    (hstage : s'.stage = .xQueueReceive) (hroom : ∀ x ∈ xs, logItems s x.post.port ≤ 1 ∨
      writeQueueDepth ≤ (s.out.writeQueue x.post.port).length) : Paced s' := by
  refine ⟨fun port => ?_, fun port hp => by rw [hstage] at hp; cases hp⟩
  by_cases hport : ∃ x ∈ xs, x.post.port = port
  · obtain ⟨x, hx, rfl⟩ := hport
    have hitems := logItems_send hs hx
    have htwo := h.two x.post.port
    rcases hroom x hx with hle | hfull
    · split at hitems <;> omega
    · rw [if_neg (by omega)] at hitems
      omega
  · push Not at hport
    have hsame : logItems s' port = logItems s port := by
      unfold logItems
      rw [hs.still port hport]
    rw [hsame]
    exact h.two port

/-- What is received posts to the ports whose slot it reuses. -/
theorem receive_sends {s s' : Tasks} {o : Opening} (h : s.step (.xQueueReceive o) = some s') :
    ∃ incoming rest xs, s.stage = .xQueueReceive ∧ s.sdWriteQueue = incoming :: rest ∧ s'.stage = .xQueueReceive ∧
      Sends s.request s.out s'.out xs ∧
      ∀ port, (∃ x ∈ xs, x.post.port = port) ↔ s.sdWrite.reusesSlot incoming.1 port = true := by
  obtain ⟨incoming, rest, hstage, hqueue, hreceive⟩ : ∃ incoming rest, s.stage = .xQueueReceive ∧
      s.sdWriteQueue = incoming :: rest ∧ s.sdWrite.receive incoming.1 o = some s'.sdWrite := by
    simp only [Tasks.step] at h
    split at h
    · rename_i incoming rest hstage hqueue
      obtain ⟨t, ht, rfl⟩ := Option.map_eq_some_iff.1 h
      exact ⟨incoming, rest, hstage, hqueue, ht⟩
    · cases h
  have hposts := TaskSdWrite.posts_receive hreceive
  cases happened h with
  | elsewhere event => exact absurd rfl (event o)
  | worked xs worked sends stage =>
    refine ⟨incoming, rest, xs, hstage, hqueue, stage, sends, fun port => ?_⟩
    rw [← hposts port, worked.posted, List.drop_left]
    simp
  | restarted q p number queue _ out stage =>
    refine ⟨incoming, rest, [], hstage, hqueue, stage,
      ⟨by rw [out, List.append_nil], by simp, by simp, by simp, fun q _ => by rw [out]⟩, fun port => ?_⟩
    obtain rfl : incoming = (.logRead p, number) := (List.cons.inj (hqueue.symm.trans queue)).1
    rw [TaskSdWrite.reusesSlot_of_request rfl]
    simp

/-- A record that is received is always written. -/
theorem isSome_receive {s : Tasks} {incoming : SdRecord × Nat} {rest : List (SdRecord × Nat)} {port : Fin 2}
    (hstage : s.stage = .xQueueReceive) (hqueue : s.sdWriteQueue = incoming :: rest)
    (hreuses : s.sdWrite.reusesSlot incoming.1 port = true) (o : Opening) : (s.step (.xQueueReceive o)).isSome = true := by
  obtain ⟨r, number⟩ := incoming
  simp only [Tasks.step, hstage, hqueue, Option.isSome_map]
  cases r with
  | sys p | pwr p | time p => rfl
  | logList p | logRead p | logEnd p => rw [TaskSdWrite.reusesSlot_of_request rfl] at hreuses; cases hreuses

theorem paced_step {s s' : Tasks} {e : TasksEv} (h : Paced s) (hs : s.step e = some s')
    (hends : ∀ o incoming rest port, e = .xQueueReceive o → s.stage = .xQueueReceive → s.sdWriteQueue = incoming :: rest →
      s.sdWrite.reusesSlot incoming.1 port = true →
        logItems s port ≤ 1 ∨ writeQueueDepth ≤ (s.out.writeQueue port).length) : Paced s' := by
  -- the queues change, and no port gets more items of `TaskSdWrite`
  have hframe : ∀ s' : Tasks, s'.stage = s.stage → (∀ port, logItems s' port ≤ logItems s port) → Paced s' :=
    fun s' hstage hle => ⟨fun port => (hle port).trans (h.two port),
      fun port hp => (hle port).trans (h.one port (hstage ▸ hp))⟩
  cases e with
  | use u =>
    obtain ⟨queue, offered, rfl, -⟩ := use_cases hs
    exact hframe _ rfl fun _ => Nat.le_refl _
  | enqueueWrite port intent =>
    cases hs
    refine hframe _ rfl fun q => ?_
    by_cases hq : q = port
    · subst hq
      simp only [logItems, Function.update_self]
      by_cases hroom : (s.out.writeQueue q).length < writeQueueDepth
      · rw [Fifo.send_room hroom]
        simp
      · rw [Fifo.send_full hroom]
    · simp [logItems, Function.update_of_ne hq]
  | linkWrite port =>
    cases hs
    refine hframe _ rfl fun q => ?_
    by_cases hq : q = port
    · subst hq
      simp only [logItems, Function.update_self]
      cases s.out.writeQueue q with
      | nil => simp [Fifo.receive]
      | cons x queue => simp [Fifo.receive, List.countP_cons]
    · simp [logItems, Function.update_of_ne hq]
  | xQueueReceive o =>
    obtain ⟨incoming, rest, xs, hstage, hqueue, hstage', hsends, hposts⟩ := receive_sends hs
    exact paced_of_sends h hsends hstage' fun x hx =>
      hends o incoming rest x.post.port rfl hstage hqueue ((hposts x.post.port).1 ⟨x, hx, rfl⟩)
  | drained =>
    rw [drained_cases hs]
    exact ⟨h.two, fun port hp => by cases hp⟩
  | portHasRoom =>
    obtain ⟨stage, rfl, hlook⟩ := portHasRoom_cases hs
    exact ⟨h.two, fun port hp => List.countP_le_length.trans (hlook port hp)⟩
  | service noise =>
    obtain ⟨port, xs, hstage, -, hsends, hports, hs'⟩ := service_cases hs
    refine paced_of_sends h hsends (by rw [hs']) fun x hx => Or.inl ?_
    rw [hports x hx]
    exact h.one port hstage

/-! ## Every run -/

/-- From boot on, whatever is logged, asked for and sent: the log protocol keeps to two slots of each
port exactly if no record reuses the slot of a download behind two items of its own. -/
theorem slots_kept_iff (files size : Nat) (c : Storage.Card LogPiece) (o : Opening) (es : List TasksEv) :
    SlotsKept (.boot files size c o) es ↔ EndsFindRoom (.boot files size c o) es := by
  constructor
  · intro hkept es₁ o' es₂ s incoming rest port hes hrun hstage hqueue hreuses
    by_contra hcrowded
    rw [not_or, Nat.not_le, Nat.not_le] at hcrowded
    obtain ⟨s', hs⟩ := Option.isSome_iff_exists.1 (isSome_receive hstage hqueue hreuses o')
    obtain ⟨incoming', rest', xs, -, hqueue', -, hsends, hposts⟩ := receive_sends hs
    obtain rfl : incoming = incoming' := (List.cons.inj (hqueue.symm.trans hqueue')).1
    obtain ⟨x, hx, rfl⟩ := (hposts port).2 hreuses
    have hitems := logItems_send hsends hx
    rw [if_pos hcrowded.2] at hitems
    have htwo := hkept (es₁ ++ [.xQueueReceive o']) es₂ s' (by rw [hes, List.append_assoc]; rfl)
      (run_concat.2 ⟨s, hrun, hs⟩) x.post.port
    omega
  · intro hroom es₁ es₂ s hes hrun
    refine (inv_along (P := Paced) ?_ ?_ hes hrun).two
    · exact ⟨fun _ => Nat.zero_le _, fun _ _ => Nat.zero_le _⟩
    · rintro es₁ e es₂ s s' hes hrun hs hpaced
      refine paced_step hpaced hs ?_
      rintro o' incoming rest port rfl
      exact hroom es₁ o' es₂ s incoming rest port hes hrun

/-! ## A third item -/

def pwrRecord : Use := .logBattery true 3700 2000 80

/-- Two chunks of id 2 wait for a host that does not read, and the next record moves into its slot. -/
def reusedSlot : List TasksEv :=
  [.use (.forwardLogRequest .logRead { ofs := 0, count := 0xFFFFFFFF, start := 2, «end» := 0, port := 0 }),
    .xQueueReceive opening,
    .drained, .portHasRoom, .service [],
    .drained, .portHasRoom, .portHasRoom, .service [],
    .use pwrRecord, .xQueueReceive opening]

theorem reusedSlot_three : ¬ ∀ (files size : Nat) (c : Storage.Card LogPiece) (o : Opening) (es : List TasksEv),
    SlotsKept (.boot files size c o) es := by
  intro h
  have hrun : (run Tasks.step (.boot 4 373 (comeRound 4) opening) reusedSlot).map (fun s => logItems s 0) = some 3 := by
    decide +kernel
  obtain ⟨s, hs, hitems⟩ := Option.map_eq_some_iff.1 hrun
  have htwo := h 4 373 (comeRound 4) opening reusedSlot reusedSlot [] s (List.append_nil _).symm hs 0
  omega

end BoredomOS.Log
