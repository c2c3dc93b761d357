/-
`sdWriteQueue`, six records deep, between its two producers and `TaskSdWrite`. `TaskMavlink` runs
above the priority of the other two, so `forwardLogRequest` sees nobody between its look at the
free slots and its send. The guard looks only there: a request never takes the last slot, but
several of them leave one slot for all the records of a pass. When a record is refused with a
request waiting is therefore a matter of how many records follow the newest request.
-/
import Mathlib.Data.List.Induction
import BoredomOS.Lib.Fifo
import BoredomOS.Log.Record

namespace BoredomOS.Log

/-! ## The queue and its users -/

def sdWriteQueueDepth : Nat := 6

abbrev SdWriteQueue := List SdRecord

def xQueueSend (q : SdWriteQueue) (r : SdRecord) : Bool × SdWriteQueue := Fifo.send sdWriteQueueDepth q r

def uxQueueSpacesAvailable (q : SdWriteQueue) : Nat := Fifo.spaces sdWriteQueueDepth q

def forwardLogRequest (kind : LogRequestKind) (p : SdLogRequestPayload) (q : SdWriteQueue) : SdWriteQueue :=
  if uxQueueSpacesAvailable q < 2 then q else (xQueueSend q (kind.record p)).2

/-- One use of the queue, with what its task has at hand. -/
inductive Use
  | taskLogger (sinceBootUsec : UInt64) (freeHeapSize : UInt16) (stackMarks : Vector UInt16 7)
  | logBattery (taskSdWriteHandler : Bool) (millivolts : UInt16) (sinceBootUsec : UInt64) (remaining : Int8)
  | logClock (taskSdWriteHandler : Bool) (sinceBootUsec unixTime : UInt64) (source : UInt8)
  | forwardLogRequest (kind : LogRequestKind) (p : SdLogRequestPayload)
  | xQueueReceive

namespace Use

/-- The log record a producer sends. -/
def record : Use → Option SdRecord
  | .taskLogger us heap marks => some (Log.taskLogger us heap marks)
  | .logBattery writer mv us rem => Log.logBattery writer mv us rem
  | .logClock writer us unix src => Log.logClock writer us unix src
  | .forwardLogRequest _ _ => none
  | .xQueueReceive => none

def receives : Use → Bool
  | .xQueueReceive => true
  | _ => false

/-- A forward that passes the guard. -/
def accepted (q : SdWriteQueue) : Use → Bool
  | .forwardLogRequest _ _ => 2 ≤ uxQueueSpacesAvailable q
  | _ => false

def step (q : SdWriteQueue) (u : Use) : SdWriteQueue :=
  match u with
  | .forwardLogRequest kind p => Log.forwardLogRequest kind p q
  | .xQueueReceive => (Fifo.receive q).2
  | u => match u.record with
    | some r => (xQueueSend q r).2
    | none => q

end Use

def runQueue (q : SdWriteQueue) (us : List Use) : SdWriteQueue := us.foldl Use.step q

/-- No record is refused while a request occupies a slot. -/
def NeverCrowded (q : SdWriteQueue) (us : List Use) : Prop :=
  ∀ us₁ u us₂ r, us = us₁ ++ u :: us₂ → u.record = some r → (xQueueSend (runQueue q us₁) r).1 = false →
    ∀ x ∈ runQueue q us₁, x.isRequest = false

/-- No forward among these uses passes the guard. -/
def Unforwarded (q : SdWriteQueue) (us : List Use) : Prop :=
  ∀ us₁ u us₂, us = us₁ ++ u :: us₂ → u.accepted (runQueue q us₁) = false

def records (us : List Use) : Nat := us.countP fun u => u.record.isSome

def received (us : List Use) : Nat := us.countP Use.receives

/-- From the acceptance of a request until it is received or a newer one is accepted, the records
sent outnumber the receives by no more than the slots the request left free. -/
def RoomBehindRequests (us : List Use) : Prop :=
  ∀ us₁ f us₂ u us₃, us = us₁ ++ f :: us₂ ++ u :: us₃ → f.accepted (runQueue [] us₁) = true →
    Unforwarded (f.step (runQueue [] us₁)) us₂ → received us₂ ≤ (runQueue [] us₁).length → u.record.isSome →
      records us₂ + 1 ≤ uxQueueSpacesAvailable (f.step (runQueue [] us₁)) + received us₂

/-! ## One use -/

theorem isRequest_of_record {u : Use} {r : SdRecord} (h : u.record = some r) : r.isRequest = false := by
  cases u with
  | taskLogger => cases h; rfl
  | logBattery writer mv us rem =>
    simp only [Use.record, logBattery] at h
    split at h
    · cases h
    · split at h <;> cases h; rfl
  | logClock writer us unix src =>
    simp only [Use.record, logClock] at h
    split at h <;> cases h; rfl
  | forwardLogRequest => cases h
  | xQueueReceive => cases h

theorem step_record {u : Use} {r : SdRecord} (h : u.record = some r) (q : SdWriteQueue) :
    u.step q = (xQueueSend q r).2 := by
  cases u with
  | forwardLogRequest => cases h
  | xQueueReceive => cases h
  | _ => simp only [Use.step]; rw [h]

theorem not_receives_of_record {u : Use} {r : SdRecord} (h : u.record = some r) : u.receives = false := by
  cases u <;> first | rfl | cases h

/-- What a use can be: a record, an accepted request, a receive, or nothing. -/
theorem step_cases (u : Use) (q : SdWriteQueue) :
    (∃ r, u.record = some r) ∨
    (u.record = none ∧ u.receives = false ∧ u.accepted q = true ∧ q.length ≤ 4 ∧
      ∃ x, x.isRequest = true ∧ u.step q = q ++ [x]) ∨
    (u.record = none ∧ u.receives = true ∧ u.accepted q = false ∧ u.step q = (Fifo.receive q).2) ∨
    (u.record = none ∧ u.receives = false ∧ u.accepted q = false ∧ u.step q = q) := by
  cases hrec : u.record with
  | some r => exact Or.inl ⟨r, rfl⟩
  | none =>
    refine Or.inr ?_
    cases u with
    | taskLogger => cases hrec
    | logBattery => exact Or.inr (Or.inr ⟨rfl, rfl, rfl, by simp [Use.step, hrec]⟩)
    | logClock => exact Or.inr (Or.inr ⟨rfl, rfl, rfl, by simp [Use.step, hrec]⟩)
    | xQueueReceive => exact Or.inr (Or.inl ⟨rfl, rfl, rfl, rfl⟩)
    | forwardLogRequest kind p =>
      by_cases h : uxQueueSpacesAvailable q < 2
      · exact Or.inr (Or.inr ⟨rfl, rfl, by simpa [Use.accepted] using h, by simp [Use.step, forwardLogRequest, h]⟩)
      · have hlen : q.length ≤ 4 := by
          simp only [uxQueueSpacesAvailable, Fifo.spaces, sdWriteQueueDepth] at h; omega
        have haccepted : (Use.forwardLogRequest kind p).accepted q = true := by
          rw [Use.accepted, decide_eq_true_eq]
          omega
        refine Or.inl ⟨rfl, rfl, haccepted, hlen, kind.record p, isRequest_record kind p, ?_⟩
        simp only [Use.step, forwardLogRequest, h, if_false, xQueueSend]
        exact Fifo.send_room (by simp only [sdWriteQueueDepth]; omega) _

theorem step_receives {u : Use} (h : u.receives = true) (q : SdWriteQueue) : u.step q = (Fifo.receive q).2 := by
  cases u <;> first | rfl | cases h

theorem accepted_of_record {u : Use} {r : SdRecord} (h : u.record = some r) (q : SdWriteQueue) :
    u.accepted q = false := by
  cases u <;> first | rfl | cases h

theorem runQueue_append (q : SdWriteQueue) (us vs : List Use) :
    runQueue q (us ++ vs) = runQueue (runQueue q us) vs := List.foldl_append ..

theorem runQueue_cons (q : SdWriteQueue) (u : Use) (us : List Use) :
    runQueue q (u :: us) = runQueue (u.step q) us := rfl

theorem Unforwarded.tail {q : SdWriteQueue} {u : Use} {us : List Use} (h : Unforwarded q (u :: us)) :
    u.accepted q = false ∧ Unforwarded (u.step q) us :=
  ⟨h [] u us rfl, fun us₁ v us₂ he => h (u :: us₁) v us₂ (by rw [he]; rfl)⟩

theorem Unforwarded.snoc {q : SdWriteQueue} {u : Use} {us : List Use} (h : Unforwarded q us)
    (hu : u.accepted (runQueue q us) = false) : Unforwarded q (us ++ [u]) := by
  intro us₁ v us₂ he
  rcases List.eq_nil_or_concat us₂ with rfl | ⟨ws, w, rfl⟩
  · obtain ⟨rfl, hv⟩ := List.append_inj' he rfl
    cases hv; exact hu
  · rw [List.concat_eq_append, ← List.cons_append, ← List.append_assoc] at he
    exact h us₁ v ws (List.append_inj' he rfl).1

/-! ## The life of a request in the queue -/

/-- A queued request with only log records behind it. -/
structure Newest (q : SdWriteQueue) (ahead : List SdRecord) (x : SdRecord) (behind : List SdRecord) : Prop where
  split : q = ahead ++ x :: behind
  request : x.isRequest = true
  logged : ∀ r ∈ behind, r.isRequest = false

theorem exists_newest : ∀ {q : SdWriteQueue}, (∃ x ∈ q, x.isRequest = true) → ∃ ahead x behind, Newest q ahead x behind
  | [], h => by simp at h
  | y :: q, h => by
    by_cases hq : ∃ x ∈ q, x.isRequest = true
    · obtain ⟨ahead, x, behind, hn⟩ := exists_newest hq
      exact ⟨y :: ahead, x, behind, by rw [hn.split]; rfl, hn.request, hn.logged⟩
    · push Not at hq
      obtain ⟨x, hx, hr⟩ := h
      rcases List.mem_cons.1 hx with rfl | hx
      · exact ⟨[], x, q, rfl, hr, fun r h => by simpa using hq r h⟩
      · exact absurd hr (hq x hx)

theorem Newest.length {q : SdWriteQueue} {ahead behind : List SdRecord} {x : SdRecord} (h : Newest q ahead x behind) :
    q.length = ahead.length + behind.length + 1 := by
  rw [h.split]; simp; omega

/-- One use, seen from the newest request: it moves one place up, or at most one record joins the
ones behind it. -/
theorem Newest.step {q : SdWriteQueue} {ahead behind : List SdRecord} {x : SdRecord} (h : Newest q ahead x behind)
    {u : Use} (hacc : u.accepted q = false) (hrec : received [u] ≤ ahead.length) :
    ∃ behind', Newest (u.step q) (ahead.drop (received [u])) x behind' ∧
      behind'.length ≤ behind.length + records [u] ∧
      ((u.record.isSome → q.length < sdWriteQueueDepth) → behind'.length = behind.length + records [u]) := by
  rcases step_cases u q with ⟨r, hr⟩ | ⟨-, -, hacc', -⟩ | ⟨hn, hrcv, -, hstep⟩ | ⟨hn, hrcv, -, hstep⟩
  · have hrcv := not_receives_of_record hr
    rw [step_record hr, xQueueSend]
    by_cases hroom : q.length < sdWriteQueueDepth
    · refine ⟨behind ++ [r], ⟨?_, h.request, ?_⟩, ?_, ?_⟩
      · rw [Fifo.send_room hroom, h.split]; simp [received, hrcv]
      · intro y hy
        rcases List.mem_append.1 hy with hy | hy
        · exact h.logged y hy
        · rw [List.mem_singleton.1 hy]; exact isRequest_of_record hr
      all_goals simp [records, hr]
    · rw [Fifo.send_full hroom]
      exact ⟨behind, ⟨by simpa [received, hrcv] using h.split, h.request, h.logged⟩, by omega,
        fun hlt => absurd (hlt (by simp [hr])) hroom⟩
  · rw [hacc] at hacc'; cases hacc'
  · have hne : ahead ≠ [] := by
      intro he; simp [he, received, hrcv] at hrec
    rw [hstep, h.split, Fifo.receive_ahead hne]
    exact ⟨behind, ⟨by simp [received, hrcv], h.request, h.logged⟩, by omega, by simp [records, hn]⟩
  · rw [hstep]
    exact ⟨behind, ⟨by simpa [received, hrcv] using h.split, h.request, h.logged⟩, by omega, by simp [records, hn]⟩

theorem received_cons (u : Use) (us : List Use) : received (u :: us) = received us + received [u] := by
  simp [received, List.countP_cons]

theorem records_cons (u : Use) (us : List Use) : records (u :: us) = records us + records [u] := by
  simp [records, List.countP_cons]

/-- A stretch of uses in which the request stays the newest one and is not received. -/
theorem Newest.run : ∀ {us : List Use} {q : SdWriteQueue} {ahead behind : List SdRecord} {x : SdRecord},
    Newest q ahead x behind → Unforwarded q us → received us ≤ ahead.length →
      ∃ behind', Newest (runQueue q us) (ahead.drop (received us)) x behind' ∧
        behind'.length ≤ behind.length + records us ∧
        (NeverCrowded q us → behind'.length = behind.length + records us)
  | [], q, ahead, behind, x, h, _, _ => ⟨behind, by simpa [received, runQueue] using h, by simp, by simp [records]⟩
  | u :: us, q, ahead, behind, x, h, hun, hrec => by
    obtain ⟨hacc, hun'⟩ := hun.tail
    rw [received_cons] at hrec ⊢
    rw [records_cons]
    obtain ⟨b₁, h₁, hle₁, heq₁⟩ := h.step hacc (by omega)
    obtain ⟨b₂, h₂, hle₂, heq₂⟩ := h₁.run hun' (by simp only [List.length_drop]; omega)
    refine ⟨b₂, by rw [List.drop_drop, Nat.add_comm] at h₂; exact h₂, by omega, fun hkept => ?_⟩
    have hkept' : NeverCrowded (u.step q) us := fun us₁ v us₂ r he =>
      hkept (u :: us₁) v us₂ r (by rw [he]; rfl)
    have h2 := heq₂ hkept'
    -- a record sent now is accepted, because the request is still queued
    have h1 : b₁.length = behind.length + records [u] := by
      refine heq₁ fun hr => ?_
      obtain ⟨r, hr⟩ := Option.isSome_iff_exists.1 hr
      by_contra hfull
      have hx := hkept [] u us r rfl hr (by simpa [xQueueSend, runQueue] using hfull)
      have := hx x (by rw [runQueue, List.foldl_nil, h.split]; simp)
      rw [h.request] at this
      cases this
    omega

/-! ## When records are crowded out -/

/-- An accepted request is the newest one, and leaves at least one slot free. -/
theorem newest_of_accepted {u : Use} {q : SdWriteQueue} (h : u.accepted q = true) :
    ∃ x, Newest (u.step q) q x [] ∧ q.length ≤ 4 := by
  rcases step_cases u q with ⟨r, hr⟩ | ⟨-, -, -, hlen, x, hx, hstep⟩ | ⟨-, -, hacc, -⟩ | ⟨-, -, hacc, -⟩
  · rw [accepted_of_record hr] at h; cases h
  · exact ⟨x, ⟨hstep, hx, by simp⟩, hlen⟩
  all_goals rw [h] at hacc; cases hacc

/-- A queued request was accepted at some point, and is not yet received. -/
theorem exists_accepted {us : List Use} : (∃ x ∈ runQueue [] us, x.isRequest = true) →
    ∃ us₁ f us₂, us = us₁ ++ f :: us₂ ∧ f.accepted (runQueue [] us₁) = true ∧
      Unforwarded (f.step (runQueue [] us₁)) us₂ ∧ received us₂ ≤ (runQueue [] us₁).length := by
  induction us using List.reverseRecOn with
  | nil => intro h; simp [runQueue] at h
  | append_singleton us u ih =>
    intro h
    cases hacc : u.accepted (runQueue [] us) with
    | true => exact ⟨us, u, [], rfl, hacc, by intro us₁ v us₂ he; simp at he, by simp [received]⟩
    | false =>
      have hq : ∃ x ∈ runQueue [] us, x.isRequest = true := by
        obtain ⟨x, hx, hreq⟩ := h
        rw [runQueue_append] at hx
        change x ∈ u.step (runQueue [] us) at hx
        rcases step_cases u (runQueue [] us) with ⟨r, hr⟩ | ⟨-, -, hacc', -⟩ | ⟨-, -, -, hstep⟩ | ⟨-, -, -, hstep⟩
        · rw [step_record hr] at hx
          rcases Fifo.mem_send hx with hx | rfl
          · exact ⟨x, hx, hreq⟩
          · rw [isRequest_of_record hr] at hreq; cases hreq
        · rw [hacc] at hacc'; cases hacc'
        · rw [hstep] at hx; exact ⟨x, Fifo.mem_receive hx, hreq⟩
        · rw [hstep] at hx; exact ⟨x, hx, hreq⟩
      obtain ⟨us₁, f, us₂, rfl, hf, hun, hrec⟩ := ih hq
      obtain ⟨x, hnew, -⟩ := newest_of_accepted hf
      obtain ⟨b, hb, -⟩ := hnew.run hun hrec
      rw [runQueue_append, runQueue_cons] at hacc hq
      refine ⟨us₁, f, us₂ ++ [u], by simp, hf, hun.snoc hacc, ?_⟩
      have hadd : received (us₂ ++ [u]) = received us₂ + received [u] := by simp [received]
      rcases Nat.lt_or_ge (received us₂) (runQueue [] us₁).length with hlt | hge
      · have : received [u] ≤ 1 := by simp only [received]; exact List.countP_le_length
        omega
      · -- the request is at the front: were it received now, no request would be left
        rw [List.drop_eq_nil_of_le hge] at hb
        have hno : u.receives = false := by
          by_contra hrcv
          obtain ⟨y, hy, hreq⟩ := h
          rw [runQueue_append, runQueue_append, runQueue_cons] at hy
          change y ∈ u.step _ at hy
          rw [step_receives (by simpa using hrcv), runQueue_cons, hb.split] at hy
          rw [hb.logged y hy] at hreq
          cases hreq
        have : received [u] = 0 := by simp [received, hno]
        omega

/-- On the depth-6 queue, no record is refused while a request occupies a slot exactly when, behind
every accepted request, the records leave room for themselves. -/
theorem never_crowded_iff (us : List Use) : NeverCrowded [] us ↔ RoomBehindRequests us := by
  constructor
  · intro hkept us₁ f us₂ u us₃ hus hacc hun hrec hu
    obtain ⟨x, hnew, hlen⟩ := newest_of_accepted hacc
    obtain ⟨b, hb, -, heq⟩ := hnew.run hun hrec
    have hb_len : b.length = records us₂ := by
      rw [heq ?_]; · simp
      intro vs₁ v vs₂ r hvs hr
      have := hkept (us₁ ++ f :: vs₁) v (vs₂ ++ u :: us₃) r (by rw [hus, hvs]; simp) hr
      rwa [runQueue_append, runQueue_cons] at this
    obtain ⟨r, hr⟩ := Option.isSome_iff_exists.1 hu
    -- the record now sent is accepted
    have hroom : (runQueue (f.step (runQueue [] us₁)) us₂).length < 6 := by
      by_contra hfull
      have hx := hkept (us₁ ++ f :: us₂) u us₃ r hus hr (by
        rw [runQueue_append, runQueue_cons]; simpa [xQueueSend, sdWriteQueueDepth] using hfull)
      rw [runQueue_append, runQueue_cons] at hx
      have := hx x (by rw [hb.split]; simp)
      rw [hb.request] at this
      cases this
    have h1 := hb.length
    have h2 := hnew.length
    simp only [List.length_drop, List.length_nil] at h1 h2
    simp only [uxQueueSpacesAvailable, Fifo.spaces, sdWriteQueueDepth]
    omega
  · intro hroom us₁ u us₂ r hus hr hfull
    by_contra hreq
    push Not at hreq
    obtain ⟨x, hx, hxr⟩ := hreq
    obtain ⟨vs₁, f, vs₂, rfl, hacc, hun, hrec⟩ := exists_accepted ⟨x, hx, by simpa using hxr⟩
    obtain ⟨y, hnew, hlen⟩ := newest_of_accepted hacc
    obtain ⟨b, hb, hle, -⟩ := hnew.run hun hrec
    have hspace := hroom vs₁ f vs₂ u us₂ (by rw [hus]) hacc hun hrec (by simp [hr])
    rw [runQueue_append, runQueue_cons] at hfull
    have h1 := hb.length
    have h2 := hnew.length
    simp only [List.length_drop, List.length_nil] at h1 h2 hle
    simp only [xQueueSend, Fifo.send_fst, decide_eq_false_iff_not, sdWriteQueueDepth] at hfull
    simp only [uxQueueSpacesAvailable, Fifo.spaces, sdWriteQueueDepth] at hspace
    omega

/-- Five requests in one pass of `TaskMavlink`, then its battery record, then the one of `TaskLogger`. -/
def burst : List Use :=
  List.replicate 5 (.forwardLogRequest .logRead ⟨0, 90, 1, 0, 0⟩) ++
    [.logBattery true 3700 1000000 80, .taskLogger 1000000 2048 ⟨#[0, 0, 0, 0, 0, 0, 0], rfl⟩]

theorem burst_crowds : ¬ NeverCrowded [] burst := by
  intro h
  have hx := h (burst.take 6) (.taskLogger 1000000 2048 ⟨#[0, 0, 0, 0, 0, 0, 0], rfl⟩) [] _ rfl rfl (by decide)
    (.logRead ⟨0, 90, 1, 0, 0⟩) (by decide)
  cases hx

/-- The guard keeps every request out of the last slot. -/
theorem request_slot (us : List Use) (i : Nat) (x : SdRecord) (h : (runQueue [] us)[i]? = some x)
    (hx : x.isRequest = true) : i ≤ 4 := by
  induction us using List.reverseRecOn generalizing i with
  | nil => simp [runQueue] at h
  | append_singleton us u ih =>
    rw [runQueue_append] at h
    change (u.step (runQueue [] us))[i]? = some x at h
    rcases step_cases u (runQueue [] us) with ⟨r, hr⟩ | ⟨-, -, -, hlen, y, -, hstep⟩ | ⟨-, -, -, hstep⟩ | ⟨-, -, -, hstep⟩
    · rw [step_record hr, xQueueSend, Fifo.send] at h
      split at h
      · rw [List.getElem?_append] at h
        split at h
        · exact ih i h
        · have := List.mem_of_getElem? h
          rw [List.mem_singleton.1 this, isRequest_of_record hr] at hx
          cases hx
      · exact ih i h
    · rw [hstep] at h
      have := (List.getElem?_eq_some_iff.1 h).1
      simp only [List.length_append, List.length_singleton] at this
      omega
    · rw [hstep] at h
      cases hq : runQueue [] us with
      | nil => rw [hq] at h; simp [Fifo.receive] at h
      | cons y q =>
        rw [hq] at h ih
        have := ih (i + 1) (by simpa [Fifo.receive] using h)
        omega
    · rw [hstep] at h; exact ih i h

end BoredomOS.Log
