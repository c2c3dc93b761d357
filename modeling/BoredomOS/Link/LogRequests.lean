/-
The log protocol in `TaskMavlink`, which owns no card. With a writer running it answers nothing itself: a request
goes to `sdWriteQueue`, or is dropped where that has less than two slots free. Without one it answers every
request at once with an empty reply and leaves the queue alone, its own records included, as nobody reads it.
-/
import BoredomOS.Link.Rows

namespace BoredomOS.Link

open Log (LogRequestKind SdLogRequestPayload SdRecord)
open Runs

/-- A LOG_ENTRY or LOG_DATA. -/
def LinkMsg.isLog : LinkMsg → Bool
  | .logEntry _ | .logData _ => true
  | _ => false

/-- What goes to a port of the log protocol. -/
def logItems (port : Fin 2) (items : List (Fin 2 × LinkMsg)) : List LinkMsg :=
  (items.filter fun x => x.1 = port && x.2.isLog).map Prod.snd

/-- The request a message makes, as it is to be forwarded. -/
def InboundMsg.logRequest (x : InboundMsg) : Option (LogRequestKind × SdLogRequestPayload) :=
  let port := UInt8.ofNat x.chan
  let list := x.msg.logRequestList
  let data := x.msg.logRequestData
  if x.msg.msgid = TaskMavlink.msgIdLogRequestList then
    some (.logList, { ofs := 0, count := 0, start := list.start, «end» := list.end, port })
  else if x.msg.msgid = TaskMavlink.msgIdLogRequestData then
    some (.logRead, { ofs := data.ofs, count := data.count, start := data.id, «end» := 0, port })
  else if x.msg.msgid = TaskMavlink.msgIdLogRequestEnd then
    some (.logEnd, { ofs := 0, count := 0, start := 0, «end» := 0, port })
  else none

/-- The requests of a port, in the order they are received. -/
def logRequests (port : Fin 2) (es : List Pass) : List (LogRequestKind × SdLogRequestPayload) :=
  es.filterMap fun e => e.received.bind fun x => if x.chan = port then x.logRequest else none

/-- What the ground is told where there is no log. -/
def emptyAnswer : LogRequestKind × SdLogRequestPayload → Option LinkMsg
  | (.logList, _) => some (.logEntry { timeUtc := 0, size := 0, id := 0, numLogs := 0, lastLogNum := 0 })
  | (.logRead, p) => some (.logData { ofs := p.ofs, id := p.start, count := 0, data := Vector.replicate 90 0 })
  | (.logEnd, _) => none

theorem logItems_append (port : Fin 2) (xs ys : List (Fin 2 × LinkMsg)) :
    logItems port (xs ++ ys) = logItems port xs ++ logItems port ys := by
  rw [logItems, List.filter_append, List.map_append]
  rfl

theorem isLog_of_packedAs {m : LinkMsg} {function : SendFunction} (h : m.PackedAs function.msgid) : m.isLog = false := by
  have hid := h ⟨⟨.start, [], .powerOn, false, 0, 0⟩, fun _ => 0, 0⟩
  cases m with
  | logEntry m => cases function <;> cases hid
  | logData m => cases function <;> cases hid
  | _ => rfl

theorem isLog_emptyAnswer (x : LogRequestKind × SdLogRequestPayload) : ∀ m ∈ emptyAnswer x, m.isLog = true := by
  rcases x with ⟨kind, p⟩
  rintro m hm
  cases kind <;> cases hm <;> rfl

namespace TaskMavlink

/-! ## All that is not of the log protocol -/

/-- A step that neither makes nor answers a request, and records nothing where nobody would read it. -/
structure Aside (s s' : TaskMavlink) : Prop where
  offered : ∃ items, s'.offered = s.offered ++ items ∧ ∀ x ∈ items, x.2.isLog = false
  recorded : ∃ records, s'.recorded = s.recorded ++ records ∧ (∀ x ∈ records, x.isRequest = false) ∧
    (s.handles .sdWrite = false → records = [])
  handles : s'.handles = s.handles

section

variable {s s' s'' : TaskMavlink}

theorem Aside.of_same (hoffered : s'.offered = s.offered) (hrecorded : s'.recorded = s.recorded)
    (hhandles : s'.handles = s.handles) : Aside s s' := by
  constructor
  · exact ⟨[], by rw [hoffered, List.append_nil], by simp⟩
  · exact ⟨[], by rw [hrecorded, List.append_nil], by simp, fun _ => rfl⟩
  · exact hhandles

theorem Aside.refl (s : TaskMavlink) : Aside s s := .of_same rfl rfl rfl

theorem Aside.trans (h : Aside s s') (h' : Aside s' s'') : Aside s s'' := by
  obtain ⟨items, hitems, hplain⟩ := h.offered
  obtain ⟨items', hitems', hplain'⟩ := h'.offered
  obtain ⟨records, hrecords, hkind, hnone⟩ := h.recorded
  obtain ⟨records', hrecords', hkind', hnone'⟩ := h'.recorded
  constructor
  · refine ⟨items ++ items', by rw [hitems', hitems, List.append_assoc], ?_⟩
    rintro x hx
    exact (List.mem_append.1 hx).elim (hplain x) (hplain' x)
  · refine ⟨records ++ records', by rw [hrecords', hrecords, List.append_assoc], ?_, fun hwriter => ?_⟩
    · rintro x hx
      exact (List.mem_append.1 hx).elim (hkind x) (hkind' x)
    · rw [hnone hwriter, hnone' (h.handles ▸ hwriter), List.append_nil]
  · exact h'.handles.trans h.handles

end

variable (s : TaskMavlink)

theorem aside_enqueueWrite (port : Fin 2) {m : LinkMsg} (hm : m.isLog = false) (r : Readings) :
    Aside s (s.enqueueWrite port m r) := by
  constructor
  · refine ⟨[(port, m)], rfl, ?_⟩
    rintro x hx
    rw [List.mem_singleton.1 hx]
    exact hm
  · exact (Aside.refl s).recorded
  · rfl

theorem aside_clock {α : Type} (call : Steps.Prog Clock.SystemTime α) (r : Readings) : Aside s (s.clock call r).2 :=
  .of_same rfl rfl rfl

theorem aside_setRow (port : Fin 2) (row : Fin 5) (entry : ScheduleEntry) : Aside s (s.setRow port row entry) :=
  .of_same rfl rfl rfl

theorem aside_record (x : Option SdRecord) (hkind : ∀ y ∈ x, y.isRequest = false)
    (hwriter : s.handles .sdWrite = false → x = none) (r : Readings) : Aside s (s.record x r) := by
  cases x with
  | none => exact .refl s
  | some x =>
    constructor
    · exact (Aside.refl s).offered
    · refine ⟨[x], rfl, ?_, fun h => absurd (hwriter h) (by simp)⟩
      simpa using hkind
    · rfl

theorem aside_call (function : SendFunction) (port : Fin 2) (r : Readings) : Aside s (s.call function port r) := by
  obtain ⟨m, t, cursor, hm, -, -, -, hcall⟩ := s.call_spec function port r
  rw [hcall]
  exact (s.aside_enqueueWrite port (isLog_of_packedAs hm) r).trans (.of_same rfl rfl rfl)

theorem aside_sendClockStatusText (r : Nat → Readings) : Aside s (s.sendClockStatusText r) :=
  (s.aside_enqueueWrite linkChanUart rfl (r 1)).trans (aside_enqueueWrite _ linkChanUsb rfl (r 2))

theorem aside_logClock (r : Nat → Readings) : Aside s (s.logClock r) := by
  unfold logClock
  split
  · exact .refl s
  · rename_i hwriter
    dsimp only
    have hread := (s.aside_clock Clock.sinceBootUsec (r 3)).trans (aside_clock _ Clock.getUnixTime (r 4))
    apply hread.trans
    apply aside_record
    · simp [Log.logClock, SdRecord.isRequest]
    · intro h
      exact absurd (congrArg not (hread.handles ▸ h)) hwriter

theorem aside_recordBattery (now : UInt32) (r : Readings) : Aside s (s.recordBattery now r) := by
  unfold recordBattery
  split
  swap
  · exact .refl s
  unfold logBattery
  split
  · exact .of_same rfl rfl rfl
  · rename_i hgate
    have hread : r.millivolts ≠ 0 := by
      intro h0
      simp [h0] at hgate
    dsimp only
    have hclock : Aside s ({ s with lastBatteryLogMs := s.lastBatteryLogMs + kBatteryLogIntervalMs }.clock
        Clock.sinceBootUsec r).2 := .of_same rfl rfl rfl
    apply hclock.trans
    apply aside_record
    · simp [Log.logBattery, hread, SdRecord.isRequest]
    · intro h
      have hnone : s.handles .sdWrite = false := h
      simp [hnone] at hgate

theorem aside_text (wanted : Bool) (r : Nat → Readings) : Aside s (if wanted then s.sendClockStatusText r else s) := by
  split
  · exact s.aside_sendClockStatusText r
  · exact .refl s

theorem aside_entry (wanted : Bool) (r : Nat → Readings) : Aside s (if wanted then s.logClock r else s) := by
  split
  · exact s.aside_logClock r
  · exact .refl s

theorem aside_reconcile (now : UInt32) (r : Nat → Readings) : Aside s (s.reconcile now r) := by
  unfold reconcile
  split
  · exact .refl s
  · dsimp only
    refine Aside.trans ?_ (aside_entry _ _ r)
    refine Aside.trans ?_ (aside_text _ _ r)
    by_cases hground : s.systemTime.source = .ground
    · simp only [if_pos hground]
      exact .of_same rfl rfl rfl
    · simp only [if_neg hground]
      exact .of_same rfl rfl rfl

theorem aside_onSystemTime (unixUsec : UInt64) (r : Nat → Readings) : Aside s (s.onSystemTime unixUsec r) := by
  unfold onSystemTime
  dsimp only
  apply (s.aside_clock (Clock.setUnixTime (unixUsec / 1000000).toNat .ground) (r 0)).trans
  have hreport : ∀ s₁ s₂ : TaskMavlink, Aside s₁ s₂ →
      Aside s₁ (if s₂.systemTime.source ≠ s.systemTime.source then s₂.sendClockStatusText r else s₂) := by
    intro s₁ s₂ h
    split
    · exact h.trans (s₂.aside_sendClockStatusText r)
    · exact h
  split
  · exact hreport _ _ (aside_entry _ _ r)
  · exact .refl _

theorem aside_onTimesync (port : Fin 2) (timesync : Timesync) (r : Nat → Readings) : Aside s (s.onTimesync port timesync r) := by
  unfold onTimesync
  split
  · exact (s.aside_clock Clock.sinceBootUsec (r 0)).trans (aside_enqueueWrite _ port rfl (r 1))
  · exact .refl s

theorem aside_commandLong (c : Conversion) (now : UInt32) (port : Fin 2) (command : CommandLong) (r : Nat → Readings) :
    Aside s (s.commandLong c now port command r) := by
  have hack : ∀ (s : TaskMavlink) (result : UInt8) (r : Readings) (command : UInt16), Aside s (s.sendCommandAck port command result r) :=
    fun s result r command => s.aside_enqueueWrite port rfl r
  unfold commandLong
  split
  · exact (s.aside_enqueueWrite port rfl (r 0)).trans (hack _ _ _ _)
  split
  · exact (hack s _ (r 0) _).trans (.of_same rfl rfl rfl)
  split
  · unfold setMessageInterval
    dsimp only
    split
    · split
      · exact (s.aside_setRow port _ _).trans (hack _ _ _ _)
      · split
        · exact hack _ _ _ _
        · exact (s.aside_setRow port _ _).trans (hack _ _ _ _)
    · exact hack _ _ _ _
  split
  · unfold requestMessage
    split
    · exact hack _ _ _ _
    · split
      · exact hack _ _ _ _
      · split
        · exact hack _ _ _ _
        · exact (hack s _ (r 0) _).trans (aside_call _ _ port (r 1))
  split
  · unfold getMessageInterval
    split
    · exact hack _ _ _ _
    · exact (hack s _ (r 0) _).trans (aside_enqueueWrite _ port rfl (r 1))
  · exact hack _ _ _ _

theorem aside_fire (now : UInt32) (r : Fin 2 → Fin 5 → Readings) : Aside s (s.fire now r) := by
  unfold fire
  induction rows generalizing s with
  | nil => exact .refl s
  | cons x l ih =>
    refine Aside.trans ?_ (ih (fireRow now r s x))
    unfold fireRow
    dsimp only
    split
    · exact (s.aside_call _ x.1 (r x.1 x.2)).trans (.of_same rfl rfl rfl)
    · exact .refl s

/-! ## A request -/

/-- A request is answered with nothing where there is no writer, and otherwise forwarded or dropped. -/
structure Requested (chan : Fin 2) (x : LogRequestKind × SdLogRequestPayload) (s s' : TaskMavlink) : Prop where
  handles : s'.handles = s.handles
  unserved : s.handles .sdWrite = false →
    s'.offered = s.offered ++ (emptyAnswer x).toList.map (fun m => (chan, m)) ∧ s'.recorded = s.recorded
  served : s.handles .sdWrite = true →
    s'.offered = s.offered ∧ (s'.recorded = s.recorded ∨ s'.recorded = s.recorded ++ [x.1.record x.2])

theorem requested_forward (kind : LogRequestKind) (chan : Fin 2) (start «end» : UInt16) (ofs count : UInt32) (r : Readings)
    (hwriter : s.handles .sdWrite = true) :
    Requested chan (kind, { ofs, count, start, «end», port := UInt8.ofNat chan }) s
      (s.forwardLogRequest kind chan start «end» ofs count r) := by
  constructor
  · rfl
  · intro h
    rw [hwriter] at h
    cases h
  · intro _
    constructor
    · rfl
    · unfold forwardLogRequest
      dsimp only
      split
      · exact Or.inl rfl
      · exact Or.inr rfl

theorem dispatch_request (c : Conversion) (now : UInt32) {inbound : InboundMsg} {x : LogRequestKind × SdLogRequestPayload}
    (hx : inbound.logRequest = some x) (r : Nat → Readings) : Requested inbound.chan x s (s.dispatch c now inbound r) := by
  have hsilent : ∀ x s', s' = s → s.handles .sdWrite = false → emptyAnswer x = none → Requested inbound.chan x s s' := by
    rintro x s' rfl hwriter hnone
    refine ⟨rfl, fun _ => ?_, fun h => ?_⟩
    · rw [hnone]
      exact ⟨(List.append_nil _).symm, rfl⟩
    · rw [hwriter] at h
      cases h
  have hempty : ∀ x m, s.handles .sdWrite = false → emptyAnswer x = some m →
      Requested inbound.chan x s (s.enqueueWrite inbound.chan m (r 0)) := by
    intro x m hwriter hm
    refine ⟨rfl, fun _ => ?_, fun h => ?_⟩
    · rw [hm]
      exact ⟨rfl, rfl⟩
    · rw [hwriter] at h
      cases h
  unfold InboundMsg.logRequest at hx
  dsimp only at hx
  unfold dispatch
  dsimp only
  split at hx
  · rename_i hid
    cases hx
    rw [hid, if_neg (by decide), if_neg (by decide), if_neg (by decide), if_pos rfl]
    cases hwriter : s.handles .sdWrite with
    | false => exact hempty _ _ hwriter rfl
    | true => exact s.requested_forward .logList inbound.chan _ _ 0 0 (r 0) hwriter
  split at hx
  · rename_i hid
    cases hx
    rw [hid, if_neg (by decide), if_neg (by decide), if_neg (by decide), if_neg (by decide), if_pos rfl]
    cases hwriter : s.handles .sdWrite with
    | false => exact hempty _ _ hwriter rfl
    | true => exact s.requested_forward .logRead inbound.chan _ 0 _ _ (r 0) hwriter
  split at hx
  · rename_i hid
    cases hx
    rw [hid, if_neg (by decide), if_neg (by decide), if_neg (by decide), if_neg (by decide), if_neg (by decide), if_pos rfl]
    cases hwriter : s.handles .sdWrite with
    | false => exact hsilent _ s rfl hwriter rfl
    | true => exact s.requested_forward .logEnd inbound.chan 0 0 0 0 (r 0) hwriter
  · cases hx

theorem aside_dispatch (c : Conversion) (now : UInt32) {inbound : InboundMsg} (hx : inbound.logRequest = none)
    (r : Nat → Readings) : Aside s (s.dispatch c now inbound r) := by
  unfold InboundMsg.logRequest at hx
  dsimp only at hx
  split at hx
  · cases hx
  split at hx
  · cases hx
  split at hx
  · cases hx
  -- none of the three ids is left
  unfold dispatch
  dsimp only
  split
  · exact .refl s
  split
  · exact s.aside_commandLong c now inbound.chan _ r
  split
  · exact s.aside_enqueueWrite inbound.chan rfl (r 0)
  split
  · exact s.aside_onSystemTime _ r
  split
  · exact s.aside_onTimesync inbound.chan _ r
  · exact s.aside_enqueueWrite inbound.chan rfl (r 0)

/-! ## Runs -/

/-- What a port got of its requests so far. -/
structure Served (port : Fin 2) (writer : Bool) (requests : List (LogRequestKind × SdLogRequestPayload)) (s : TaskMavlink) :
    Prop where
  handles : s.handles .sdWrite = writer
  unserved : writer = false → s.recorded = [] ∧ logItems port s.offered = requests.filterMap emptyAnswer
  served : writer = true → logItems port s.offered = [] ∧
    (s.recorded.filter fun x => answerPort x = some (UInt8.ofNat port)).Sublist (requests.map fun x => x.1.record x.2)

variable {s} {port : Fin 2} {writer : Bool} {requests : List (LogRequestKind × SdLogRequestPayload)}

theorem Served.aside {s' : TaskMavlink} (h : Served port writer requests s) (ha : Aside s s') : Served port writer requests s' := by
  obtain ⟨items, hitems, hplain⟩ := ha.offered
  obtain ⟨records, hrecords, hkind, hnone⟩ := ha.recorded
  have hnoItems : logItems port items = [] := by
    refine List.map_eq_nil_iff.2 (List.filter_eq_nil_iff.2 fun x hx => ?_)
    rw [hplain x hx, Bool.and_false]
    decide
  have hnoRequest : (records.filter fun x => answerPort x = some (UInt8.ofNat port)) = [] := by
    refine List.filter_eq_nil_iff.2 fun x hx => ?_
    have hkind := hkind x hx
    cases x with
    | sys p => simp [answerPort]
    | pwr p => simp [answerPort]
    | time p => simp [answerPort]
    | logList p => cases hkind
    | logRead p => cases hkind
    | logEnd p => cases hkind
  refine ⟨?_, fun hw => ?_, fun hw => ?_⟩
  · rw [ha.handles]
    exact h.handles
  · rw [hrecords, hnone (h.handles.trans hw), hitems, logItems_append, hnoItems, List.append_nil, List.append_nil]
    exact h.unserved hw
  · rw [hrecords, hitems, logItems_append, hnoItems, List.append_nil, List.filter_append, hnoRequest, List.append_nil]
    exact h.served hw

theorem Served.requested {s' : TaskMavlink} {chan : Fin 2} {x : LogRequestKind × SdLogRequestPayload}
    (h : Served port writer requests s) (hx : Requested chan x s s') (hport : x.2.port = UInt8.ofNat chan) :
    Served port writer (requests ++ if chan = port then [x] else []) s' := by
  have hports : ∀ p q : Fin 2, UInt8.ofNat p = UInt8.ofNat q → p = q := by decide
  refine ⟨?_, fun hw => ?_, fun hw => ?_⟩
  · rw [hx.handles]
    exact h.handles
  · obtain ⟨hoffered, hrecorded⟩ := hx.unserved (h.handles.trans hw)
    obtain ⟨hnone, hitems⟩ := h.unserved hw
    refine ⟨hrecorded.trans hnone, ?_⟩
    rw [hoffered, logItems_append, hitems, List.filterMap_append]
    congr 1
    have hlog := isLog_emptyAnswer x
    cases hm : emptyAnswer x with
    | none => by_cases hchan : chan = port <;> simp [logItems, hchan, hm]
    | some m =>
      have hm' := hlog m hm
      by_cases hchan : chan = port <;> simp [logItems, hchan, hm, hm']
  · obtain ⟨hoffered, hrecorded⟩ := hx.served (h.handles.trans hw)
    obtain ⟨hitems, hsub⟩ := h.served hw
    refine ⟨by rw [hoffered]; exact hitems, ?_⟩
    rw [List.map_append]
    rcases hrecorded with hsame | hmore
    · rw [hsame]
      exact hsub.trans (List.sublist_append_left _ _)
    · rw [hmore, List.filter_append]
      refine hsub.append ?_
      by_cases hchan : chan = port
      · simp [hchan, answerPort_record, hport]
      · have hne : UInt8.ofNat chan ≠ UInt8.ofNat port := fun h => hchan (hports _ _ h)
        simp [hchan, answerPort_record, hport, hne]

theorem logRequest_port {x : InboundMsg} {request : LogRequestKind × SdLogRequestPayload} (h : x.logRequest = some request) :
    request.2.port = UInt8.ofNat x.chan := by
  unfold InboundMsg.logRequest at h
  dsimp only at h
  split at h
  · cases h
    rfl
  split at h
  · cases h
    rfl
  split at h
  · cases h
    rfl
  · cases h

theorem served_pass (h : Served port writer requests s) (c : Conversion) (e : Pass) :
    Served port writer (requests ++ logRequests port [e]) (s.pass c e) := by
  have hawaited : Served port writer requests (s.awaited e) := by
    have hbefore : Aside s (s.awaited e) :=
      ((s.aside_reconcile (tickMs e.started) e.reconcile).trans (aside_recordBattery _ (tickMs e.started) e.battery)).trans
        (.of_same rfl rfl rfl)
    exact h.aside hbefore
  have hheard : Served port writer (requests ++ logRequests port [e]) (s.heard c e) := by
    unfold heard
    cases hreceived : e.received with
    | none => simpa [logRequests, hreceived] using hawaited
    | some inbound =>
      dsimp only
      cases hrequest : inbound.logRequest with
      | none => simpa [logRequests, hreceived, hrequest] using hawaited.aside (aside_dispatch _ c _ hrequest e.dispatch)
      | some x =>
        have hnext := hawaited.requested (dispatch_request _ c (tickMs e.started) hrequest e.dispatch) (logRequest_port hrequest)
        by_cases hchan : inbound.chan = port <;> simpa [logRequests, hreceived, hrequest, hchan] using hnext
  rw [pass_eq]
  split
  · exact hheard
  · exact (hheard.aside (aside_fire _ _ _)).aside (.of_same rfl rfl rfl)

theorem served_start (b : Start) : Served port (b.handles .sdWrite) [] b.task := by
  have htexts : Aside { b.task with offered := [] } b.task := by
    refine ⟨⟨b.task.offered, rfl, ?_⟩, (Aside.refl _).recorded, rfl⟩
    unfold Start.task sendClockStatusText
    simp only [sendStatusText, sendBootStatement, enqueueWrite]
    simp [Link.sendBootStatement, Link.sendStatusText, LinkMsg.isLog]
  have hbefore : Served port (b.handles .sdWrite) [] { b.task with offered := [] } :=
    ⟨rfl, fun _ => ⟨rfl, rfl⟩, fun _ => ⟨rfl, List.Sublist.refl []⟩⟩
  exact hbefore.aside htexts

/-- In every run. Without a writer nothing is ever recorded, and what a port gets of the log protocol is the empty
answers to its requests, one each and in their order. With one, the task answers none of them itself, and the
requests it forwards for a port are ones received there, as they were asked, in their order and no more often. -/
theorem log_requests_handled (c : Conversion) (b : Start) (es : List Pass) (s : TaskMavlink)
    (hrun : run (step c) b.task es = some s) (port : Fin 2) :
    (b.handles .sdWrite = false →
      s.recorded = [] ∧ logItems port s.offered = (logRequests port es).filterMap emptyAnswer) ∧
    (b.handles .sdWrite = true → logItems port s.offered = [] ∧
      (s.recorded.filter fun x => answerPort x = some (UInt8.ofNat port)).Sublist
        ((logRequests port es).map fun x => x.1.record x.2)) := by
  have hserved : Served port (b.handles .sdWrite) (logRequests port es) s := by
    refine inv_history (P := fun es s => Served port (b.handles .sdWrite) (logRequests port es) s) (served_start b) ?_ hrun
    intro es s e s' _ h hstep
    rw [← pass_of_step hstep, logRequests, List.filterMap_append]
    exact served_pass h c e
  exact ⟨hserved.unserved, hserved.served⟩

/-- A board with no card is asked for its logs on USB and for one of them on the UART. -/
def cardless : Start := { freshStart with sdCardAvailable := false, handles := fun task => task != .logger && task != .sdWrite }

def logsAsked : List Pass :=
  [quietPass 600 (some { chan := linkChanUsb, msg := groundMessage msgIdLogRequestList }),
    quietPass 700 (some { chan := linkChanUart, msg := { groundMessage msgIdLogRequestData with
      logRequestData := { ofs := 90, count := 90, id := 2 } } }),
    quietPass 800 (some { chan := linkChanUsb, msg := groundMessage msgIdLogRequestEnd })]

/-- The board without a card answers for itself. One with a card that does not come to receive is asked twice over:
the battery's record and four requests leave its queue no second free slot, and the last two are dropped. -/
theorem log_requests_handled_twice : ∃ s s', run (step .vcvt) cardless.task logsAsked = some s ∧ s.recorded = [] ∧
    logItems linkChanUsb s.offered = [.logEntry { timeUtc := 0, size := 0, id := 0, numLogs := 0, lastLogNum := 0 }] ∧
    logItems linkChanUart s.offered = [.logData { ofs := 90, id := 2, count := 0, data := Vector.replicate 90 0 }] ∧
    run (step .vcvt) freshStart.task (logsAsked ++ logsAsked) = some s' ∧ s'.sdWriteQueue.length = 5 ∧
    logItems linkChanUsb s'.offered = [] ∧
    (s'.recorded.filter fun x => answerPort x = some (UInt8.ofNat linkChanUart)) =
      [.logRead { ofs := 90, count := 90, start := 2, «end» := 0, port := 0 }] ∧
    (s'.recorded.filter fun x => answerPort x = some (UInt8.ofNat linkChanUart)).Sublist
      ((logRequests linkChanUart (logsAsked ++ logsAsked)).map fun x => x.1.record x.2) := by
  obtain ⟨s, hs⟩ : ∃ s, run (step .vcvt) cardless.task logsAsked = some s := ⟨_, rfl⟩
  obtain ⟨hnone, husb⟩ := (log_requests_handled .vcvt cardless logsAsked s hs linkChanUsb).1 rfl
  obtain ⟨-, huart⟩ := (log_requests_handled .vcvt cardless logsAsked s hs linkChanUart).1 rfl
  have hrun : (run (step .vcvt) freshStart.task (logsAsked ++ logsAsked)).map (fun s' => (s'.sdWriteQueue.length,
      s'.recorded.filter fun x => answerPort x = some (UInt8.ofNat linkChanUart))) =
      some (5, [.logRead { ofs := 90, count := 90, start := 2, «end» := 0, port := 0 }]) := by decide +kernel
  obtain ⟨s', hs', hseen⟩ := Option.map_eq_some_iff.1 hrun
  obtain ⟨hqueue, hforwarded⟩ := Prod.mk.inj hseen
  obtain ⟨hsilent, -⟩ := (log_requests_handled .vcvt freshStart _ s' hs' linkChanUsb).2 rfl
  obtain ⟨-, hsublist⟩ := (log_requests_handled .vcvt freshStart _ s' hs' linkChanUart).2 rfl
  exact ⟨s, s', hs, hnone, husb.trans (by decide), huart.trans (by decide), hs', hqueue, hsilent, hforwarded, hsublist⟩

end TaskMavlink

end BoredomOS.Link
