/-
LOG_REQUEST_END. Where it passes the guard of `forwardLogRequest` it waits in `sdWriteQueue` behind the
requests `TaskMavlink` handled before it and ahead of the later ones: once it is received, the stream of
its port is over or answers a later request. Where fewer than two slots are free it is dropped like any
request, and the ground, which repeats a data request, does not repeat it.
-/
import BoredomOS.Log.Tasks
import BoredomOS.Log.Unmixed

namespace BoredomOS.Log

open Runs

/-! ## What is asked of a run -/

/-- Once an end has been handled and the queue drained, every LOG_DATA on its port is for a request that
was handled after it. -/
def StopsDownload (b : Tasks) (es : List TasksEv) : Prop :=
  ∀ es₁ p port es₂ es₃ s s₂ s₃, es = (es₁ ++ .use (.forwardLogRequest .logEnd p) :: es₂) ++ es₃ →
    TaskSdWrite.portOf p = some port → run Tasks.step b es₁ = some s →
    run Tasks.step b (es₁ ++ .use (.forwardLogRequest .logEnd p) :: es₂) = some s₂ → s₂.sdWriteQueue = [] →
    run Tasks.step s₂ es₃ = some s₃ →
    ∀ x ∈ s₃.out.sent.drop s₂.out.sent.length, x.post.port = port → (∃ m, x.post.msg = .logData m) → s.offered < x.request

/-- Every end finds two free slots in `sdWriteQueue`. -/
def EndsForwarded (b : Tasks) (es : List TasksEv) : Prop :=
  ∀ es₁ p es₂ s, es = es₁ ++ .use (.forwardLogRequest .logEnd p) :: es₂ → run Tasks.step b es₁ = some s →
    2 ≤ Fifo.spaces sdWriteQueueDepth s.sdWriteQueue

/-! ## The life of an end -/

/-- What the end with number `k` has done once received. -/
structure Ended (k : Nat) (port : Fin 2) (s : Tasks) : Prop where
  later : ∀ x ∈ s.sdWriteQueue, k < x.2
  stream : (s.sdWrite.streams port).active = true → k < s.request port

/-- The end waits in the queue, or is received. -/
structure Handled (k : Nat) (port : Fin 2) (s : Tasks) : Prop where
  order : InOrder s
  known : k ≤ s.offered
  done : (∃ p, (.logEnd p, k) ∈ s.sdWriteQueue ∧ TaskSdWrite.portOf p = some port) ∨ Ended k port s

theorem ended_step {k : Nat} {port : Fin 2} {s s' : Tasks} {e : TasksEv} (h : Ended k port s) (hknown : k ≤ s.offered)
    (hs : s.step e = some s') : Ended k port s' := by
  cases happened hs with
  | elsewhere _ sdWrite request _ queue =>
    refine ⟨fun x hx => ?_, ?_⟩
    · rcases queue with ⟨queue, -⟩ | ⟨r, queue, -⟩
      · exact h.later x (queue ▸ hx)
      · rw [queue] at hx
        rcases List.mem_append.1 hx with hx | hx
        · exact h.later x hx
        · rw [List.mem_singleton.1 hx]
          exact Nat.lt_succ_of_le hknown
    · rw [sdWrite, request]
      exact h.stream
  | worked xs worked _ _ request _ _ queue =>
    refine ⟨fun x hx => ?_, fun hactive => ?_⟩
    · rcases queue with queue | ⟨y, queue, -⟩
      · exact h.later x (queue ▸ hx)
      · exact h.later x (queue ▸ List.mem_cons_of_mem _ hx)
    · rw [request]
      exact h.stream (worked.active port hactive)
  | restarted q p number queue request _ _ _ others =>
    refine ⟨fun x hx => h.later x (queue ▸ List.mem_cons_of_mem _ hx), fun hactive => ?_⟩
    rw [request]
    by_cases hq : port = q
    · rw [hq, Function.update_self]
      exact h.later (.logRead p, number) (queue ▸ List.mem_cons_self)
    · rw [Function.update_of_ne hq]
      rw [others port hq] at hactive
      exact h.stream hactive

theorem offered_le_step {s s' : Tasks} {e : TasksEv} (hs : s.step e = some s') : s.offered ≤ s'.offered := by
  cases happened hs with
  | elsewhere _ _ _ _ queue =>
    rcases queue with ⟨-, hle⟩ | ⟨r, -, hnext⟩
    · exact hle
    · omega
  | worked _ _ _ _ _ offered => exact offered.ge
  | restarted _ _ _ _ _ _ _ offered => exact offered.ge

theorem handled_step {k : Nat} {port : Fin 2} {s s' : Tasks} {e : TasksEv} (h : Handled k port s)
    (hs : s.step e = some s') : Handled k port s' := by
  refine ⟨inOrder_step h.order hs, h.known.trans (offered_le_step hs), ?_⟩
  rcases h.done with ⟨p, hp, hport⟩ | hended
  swap
  · exact Or.inr (ended_step hended h.known hs)
  cases happened hs with
  | elsewhere _ _ _ _ queue =>
    refine Or.inl ⟨p, ?_, hport⟩
    rcases queue with ⟨queue, -⟩ | ⟨r, queue, -⟩
    · rwa [queue]
    · rw [queue]
      exact List.mem_append_left _ hp
  | worked xs worked _ _ _ _ _ queue =>
    rcases queue with queue | ⟨y, queue, hend⟩
    · exact Or.inl ⟨p, queue ▸ hp, hport⟩
    · rw [queue] at hp
      rcases List.mem_cons.1 hp with rfl | hp
      · -- it is received: what is left in the queue was handled after it
        have hrising := h.order.rising
        rw [queue, List.pairwise_cons] at hrising
        refine Or.inr ⟨hrising.1, fun hactive => ?_⟩
        rw [hend p port rfl hport] at hactive
        cases hactive
      · exact Or.inl ⟨p, hp, hport⟩
  | restarted q r number queue =>
    rw [queue] at hp
    rcases List.mem_cons.1 hp with heq | hp
    · cases heq
    · exact Or.inl ⟨p, hp, hport⟩

/-- With two free slots the end is forwarded. -/
theorem handled_forward {p : SdLogRequestPayload} {port : Fin 2} {s s' : Tasks} (h : InOrder s)
    (hport : TaskSdWrite.portOf p = some port) (hroom : 2 ≤ Fifo.spaces sdWriteQueueDepth s.sdWriteQueue)
    (hs : s.step (.use (.forwardLogRequest .logEnd p)) = some s') : Handled (s.offered + 1) port s' := by
  refine ⟨inOrder_step h hs, ?_, ?_⟩
  all_goals
    simp only [Tasks.step, Tasks.use, hport, Option.isSome_some, if_true] at hs
    cases hs
  · exact Nat.le_refl _
  · refine Or.inl ⟨p, ?_, hport⟩
    rw [if_neg (Nat.not_lt.2 hroom), Fifo.send_room (by simp only [Fifo.spaces] at hroom; omega)]
    exact List.mem_append_right _ (List.mem_singleton_self _)

/-! ## After the queue is drained -/

/-- What was posted since is for later requests. -/
structure Stopped (k : Nat) (port : Fin 2) (before : Nat) (s : Tasks) : Prop where
  ended : Ended k port s
  known : k ≤ s.offered
  length : before ≤ s.out.sent.length
  posted : ∀ x ∈ s.out.sent.drop before, x.post.port = port → (∃ m, x.post.msg = .logData m) → k < x.request

theorem stopped_step {k before : Nat} {port : Fin 2} {s s' : Tasks} {e : TasksEv} (h : Stopped k port before s)
    (hs : s.step e = some s') : Stopped k port before s' := by
  have hended := ended_step h.ended h.known hs
  have hknown := h.known.trans (offered_le_step hs)
  cases happened hs with
  | elsewhere _ _ _ sent => exact ⟨hended, hknown, sent ▸ h.length, sent ▸ h.posted⟩
  | worked xs worked sends _ request =>
    refine ⟨hended, hknown, ?_, ?_⟩
    · rw [sends.sent, List.length_append]
      exact Nat.le_add_right_of_le h.length
    · rw [sends.sent, List.drop_append_of_le_length h.length]
      rintro x hx rfl ⟨m, hm⟩
      rcases List.mem_append.1 hx with hx | hx
      · exact h.posted x hx rfl ⟨m, hm⟩
      · rw [sends.request x hx]
        exact h.ended.stream (worked.data x.post (List.mem_map_of_mem hx) m hm).1
  | restarted _ _ _ _ _ out => exact ⟨hended, hknown, out ▸ h.length, out ▸ h.posted⟩

/-- From boot on: where every end finds two free slots, it stops the download of its port. -/
theorem end_stops_download (files size : Nat) (c : Storage.Card LogPiece) (o : Opening) (es : List TasksEv)
    (h : EndsForwarded (.boot files size c o) es) : StopsDownload (.boot files size c o) es := by
  intro es₁ p port es₂ es₃ s s₂ s₃ hes hport hrun hmid hdrained hafter
  have hroom := h es₁ p (es₂ ++ es₃) s (by rw [hes, List.append_assoc]; rfl) hrun
  rw [run_append, hrun, Option.bind_some, run_cons] at hmid
  obtain ⟨s₁, hs, hmid⟩ := Option.bind_eq_some_iff.1 hmid
  have hhandled : Handled (s.offered + 1) port s₂ :=
    inv (fun _ _ _ => handled_step) (handled_forward (inOrder_run hrun) hport hroom hs) hmid
  have hended : Ended (s.offered + 1) port s₂ := by
    rcases hhandled.done with ⟨q, hq, -⟩ | hended
    · rw [hdrained] at hq
      cases hq
    · exact hended
  have hstopped : Stopped (s.offered + 1) port s₂.out.sent.length s₃ := by
    refine inv (fun _ _ _ => stopped_step) ?_ hafter
    exact ⟨hended, hhandled.known, Nat.le_refl _, fun x hx => by rw [List.drop_length] at hx; cases hx⟩
  exact fun x hx hport hm => Nat.lt_of_succ_lt (hstopped.posted x hx hport hm)

/-! ## An end that is dropped -/

def askFor : TasksEv :=
  .use (.forwardLogRequest .logRead { ofs := 0, count := 0xFFFFFFFF, start := 2, «end» := 0, port := 0 })

def endRequest : SdLogRequestPayload := { ofs := 0, count := 0, start := 0, «end» := 0, port := 0 }

def endIt : TasksEv := .use (.forwardLogRequest .logEnd endRequest)

/-- Five requests for one file leave one slot free, and the end that follows is dropped. -/
theorem dropped_end_serves : ¬ ∀ (files size : Nat) (c : Storage.Card LogPiece) (o : Opening) (es : List TasksEv),
    StopsDownload (.boot files size c o) es := by
  intro h
  have hasked : (run Tasks.step (.boot 4 373 (comeRound 4) opening) (List.replicate 5 askFor)).map Tasks.offered =
      some 5 := by decide +kernel
  have hdrained : (run Tasks.step (.boot 4 373 (comeRound 4) opening)
      (List.replicate 5 askFor ++ endIt :: List.replicate 5 (.xQueueReceive opening))).map
      (fun s => (s.sdWriteQueue, s.out.sent)) = some ([], []) := by decide +kernel
  have hserved : (run Tasks.step (.boot 4 373 (comeRound 4) opening)
      ((List.replicate 5 askFor ++ endIt :: List.replicate 5 (.xQueueReceive opening)) ++
        [.drained, .portHasRoom, .service []])).map
      (fun s => s.out.sent.map fun x => (x.post.port, x.request, x.post.answer.isSome)) = some [(0, 5, true)] := by
    decide +kernel
  obtain ⟨s, hs, hoffered⟩ := Option.map_eq_some_iff.1 hasked
  obtain ⟨s₂, hs₂, hempty⟩ := Option.map_eq_some_iff.1 hdrained
  obtain ⟨s₃, hs₃, hsent⟩ := Option.map_eq_some_iff.1 hserved
  rw [Prod.mk.injEq] at hempty
  rw [run_append, hs₂, Option.bind_some] at hs₃
  have hlate := h 4 373 (comeRound 4) opening _ (List.replicate 5 askFor) endRequest 0 _ _ s s₂ s₃ rfl rfl hs hs₂
    hempty.1 hs₃
  obtain ⟨x, hx⟩ : ∃ x, s₃.out.sent = [x] := by
    rw [← List.length_eq_one_iff, ← List.length_map, hsent]
    rfl
  rw [hempty.2, hx] at hlate
  rw [hx, List.map_singleton, List.singleton_inj, Prod.mk.injEq, Prod.mk.injEq] at hsent
  obtain ⟨hport, hrequest, hanswer⟩ := hsent
  have hdata : ∃ m, x.post.msg = .logData m := by
    unfold Post.answer at hanswer
    split at hanswer
    · exact ⟨_, ‹_›⟩
    · cases hanswer
  have := hlate x (List.mem_singleton_self x) hport hdata
  omega

/-- An end that finds the queue empty: the request before it is already received. -/
theorem end_stops_download_asked : StopsDownload (.boot 4 373 (comeRound 4) opening)
    [askFor, .xQueueReceive opening, endIt, .xQueueReceive opening, .drained] := by
  apply end_stops_download
  intro es₁ p es₂ s hes hrun
  have hspaces : (run Tasks.step (.boot 4 373 (comeRound 4) opening) [askFor, .xQueueReceive opening]).map
      (fun s => Fifo.spaces sdWriteQueueDepth s.sdWriteQueue) = some 6 := by decide +kernel
  rcases es₁ with _ | ⟨e₁, _ | ⟨e₂, _ | ⟨e₃, _ | ⟨e₄, _ | ⟨e₅, es₁⟩⟩⟩⟩⟩ <;> simp [askFor, endIt] at hes
  obtain ⟨rfl, rfl, -⟩ := hes
  change run Tasks.step _ [askFor, .xQueueReceive opening] = some s at hrun
  rw [hrun] at hspaces
  have hsix : Fifo.spaces sdWriteQueueDepth s.sdWriteQueue = 6 := Option.some.inj hspaces
  omega

end BoredomOS.Log
