/-
`TaskLinkRead` of `src/link.cpp`, one instance a port: bytes off the port's driver through the library's
parser of that channel, and what it completes into the one queue both readers share. A pass reads at most
128 bytes. However the two ports' bytes, their passes and the reads of `TaskMavlink` fall, each port's bytes
are parsed once and in order, and what comes out depends on no more than these bytes.
-/
import BoredomOS.Lib.Fifo
import BoredomOS.Lib.Mealy
import BoredomOS.Link.Sequence
import BoredomOS.Link.TaskMavlink

namespace BoredomOS.Link

open Runs

/-! ## The readers -/

/-- The MAVLink library is not part of the repository. `mavlink_parse_char` takes the state of a channel
and a byte, and gives the message the byte completed, if it did, and whether it counted an error:
`packet_rx_drop_count` is 0 or 1 after each call. -/
structure MavlinkParser where
  Status : Type
  parseChar : Status → UInt8 → Status × Option MavlinkMessage × Bool

/-- What `xQueueCreateStatic` of `linkReadQueue` gets as its length. -/
def linkReadQueueDepth : Nat := 8

def kMaxBytesPerPass : Nat := 128

/-- Where the loop of `TaskLinkRead` is. -/
inductive ReadStage
  | draining (drained : Nat)
  | vTaskDelay
  deriving DecidableEq, Repr

/-- The reading side of a `LinkPort`: the bytes its driver holds, the channel's parser, and the count of
errors. Kept beside them: the bytes read so far. -/
structure ReadPort (lib : MavlinkParser) where
  received : List UInt8 := []
  status : lib.Status
  rxDropCount : UInt16 := 0
  stage : ReadStage := .draining 0
  consumed : List UInt8 := []

/-- An item for `linkReadQueue`, and how many it found waiting there. -/
structure Offered where
  inbound : InboundMsg
  waiting : Nat

def Offered.accepted (x : Offered) : Bool := x.waiting < linkReadQueueDepth

/-- Both readers and their queue. Kept beside them: what was offered to it, and what `TaskMavlink` took. -/
structure LinkRead (lib : MavlinkParser) where
  ports : Fin 2 → ReadPort lib
  linkReadQueue : List InboundMsg := []
  offered : List Offered := []
  taken : List InboundMsg := []

inductive LinkReadEv
  /-- the port's driver receives a byte -/
  | receive (port : Fin 2) (receivedByte : UInt8)
  /-- one round of the reader's inner loop, or its end -/
  | turn (port : Fin 2)
  /-- `vTaskDelay` returns -/
  | wake (port : Fin 2)
  /-- `TaskMavlink` takes an item -/
  | xQueueReceive

variable {lib : MavlinkParser}

namespace LinkRead

def setPort (s : LinkRead lib) (port : Fin 2) (p : ReadPort lib) : LinkRead lib :=
  { s with ports := Function.update s.ports port p }

/-- `xQueueSend(linkReadQueue, &port.rx, 0)`, whose result nobody looks at. -/
def xQueueSend (s : LinkRead lib) (inbound : InboundMsg) : LinkRead lib :=
  { s with
    linkReadQueue := (Fifo.send linkReadQueueDepth s.linkReadQueue inbound).2
    offered := s.offered ++ [{ inbound, waiting := s.linkReadQueue.length }] }

/-- A byte is read, parsed and counted. -/
def readByte (s : LinkRead lib) (port : Fin 2) (drained : Nat) (receivedByte : UInt8) (rest : List UInt8) : LinkRead lib :=
  let p := s.ports port
  let (status, completed, dropped) := lib.parseChar p.status receivedByte
  let s := s.setPort port
    { received := rest, status, stage := .draining (drained + 1), consumed := p.consumed ++ [receivedByte]
      rxDropCount := if dropped && p.rxDropCount < 65535 then p.rxDropCount + 1 else p.rxDropCount }
  match completed with
  | some msg => s.xQueueSend { msg, chan := port }
  | none => s

def step (s : LinkRead lib) : LinkReadEv → Option (LinkRead lib)
  | .receive port receivedByte =>
    some (s.setPort port { s.ports port with received := (s.ports port).received ++ [receivedByte] })
  | .turn port =>
    match (s.ports port).stage, (s.ports port).received with
    | .vTaskDelay, _ => none
    | .draining _, [] => some (s.setPort port { s.ports port with stage := .vTaskDelay })
    | .draining drained, receivedByte :: rest =>
      if drained < kMaxBytesPerPass then some (s.readByte port drained receivedByte rest)
      else some (s.setPort port { s.ports port with stage := .vTaskDelay })
  | .wake port =>
    match (s.ports port).stage with
    | .vTaskDelay => some (s.setPort port { s.ports port with stage := .draining 0 })
    | .draining _ => none
  | .xQueueReceive =>
    match s.linkReadQueue with
    | [] => none
    | inbound :: rest => some { s with linkReadQueue := rest, taken := s.taken ++ [inbound] }

/-- Before the first byte. -/
def boot (lib : MavlinkParser) (first : lib.Status) : LinkRead lib where
  ports _ := { status := first }

end LinkRead

/-! ## What a port's bytes come to -/

/-- What the parser said of each byte. -/
def parsed (lib : MavlinkParser) (first : lib.Status) (bytes : List UInt8) : List (Option MavlinkMessage × Bool) :=
  Mealy.outputs lib.parseChar first bytes

/-- The messages completed. -/
def completedBy (lib : MavlinkParser) (first : lib.Status) (bytes : List UInt8) : List MavlinkMessage :=
  (parsed lib first bytes).filterMap Prod.fst

/-- The errors counted. -/
def droppedBy (lib : MavlinkParser) (first : lib.Status) (bytes : List UInt8) : Nat :=
  (parsed lib first bytes).countP Prod.snd

theorem parsed_concat (first : lib.Status) (bytes : List UInt8) (b : UInt8) : parsed lib first (bytes ++ [b]) =
    parsed lib first bytes ++ [(lib.parseChar (Mealy.state lib.parseChar first bytes) b).2] := Mealy.outputs_concat ..

/-- The messages offered for a port. -/
def offeredBy (port : Fin 2) (xs : List Offered) : List MavlinkMessage :=
  (xs.filter fun x => x.inbound.chan = port).map fun x => x.inbound.msg

/-- The bytes a port's driver received. -/
def arrived (port : Fin 2) (es : List LinkReadEv) : List UInt8 :=
  es.filterMap fun
    | .receive q b => if q = port then some b else none
    | _ => none

/-- A port's reader has parsed the bytes it read, and no others, once and in order. -/
structure ReadOk (first : lib.Status) (port : Fin 2) (s : LinkRead lib) : Prop where
  status : (s.ports port).status = Mealy.state lib.parseChar first (s.ports port).consumed
  offered : offeredBy port s.offered = completedBy lib first (s.ports port).consumed
  dropped : (s.ports port).rxDropCount.toNat = min 65535 (droppedBy lib first (s.ports port).consumed)

/-- The queue holds what it accepted and was not taken from it, at most eight. -/
structure QueueOk (s : LinkRead lib) : Prop where
  accepted : s.taken ++ s.linkReadQueue = (s.offered.filter Offered.accepted).map Offered.inbound
  depth : s.linkReadQueue.length ≤ linkReadQueueDepth

theorem offeredBy_concat (port : Fin 2) (xs : List Offered) (x : Offered) : offeredBy port (xs ++ [x]) =
    offeredBy port xs ++ if x.inbound.chan = port then [x.inbound.msg] else [] := by
  unfold offeredBy
  rw [List.filter_append, List.map_append, List.filter_singleton]
  by_cases hchan : x.inbound.chan = port <;> simp [hchan]

/-! ## Steps -/

/-- What an event does, and when it can happen. -/
inductive LinkRead.Stepped (s : LinkRead lib) : LinkReadEv → LinkRead lib → Prop
  | received (q : Fin 2) (b : UInt8) :
      Stepped s (.receive q b) (s.setPort q { s.ports q with received := (s.ports q).received ++ [b] })
  | read (q : Fin 2) (drained : Nat) (b : UInt8) (rest : List UInt8) (draining : (s.ports q).stage = .draining drained)
      (received : (s.ports q).received = b :: rest) (more : drained < kMaxBytesPerPass) :
      Stepped s (.turn q) (s.readByte q drained b rest)
  | ended (q : Fin 2) (drained : Nat) (draining : (s.ports q).stage = .draining drained)
      (done : (s.ports q).received = [] ∨ ¬ drained < kMaxBytesPerPass) :
      Stepped s (.turn q) (s.setPort q { s.ports q with stage := .vTaskDelay })
  | woken (q : Fin 2) (delayed : (s.ports q).stage = .vTaskDelay) :
      Stepped s (.wake q) (s.setPort q { s.ports q with stage := .draining 0 })
  | taken (inbound : InboundMsg) (rest : List InboundMsg) (waiting : s.linkReadQueue = inbound :: rest) :
      Stepped s .xQueueReceive { s with linkReadQueue := rest, taken := s.taken ++ [inbound] }

theorem LinkRead.step_cases {s s' : LinkRead lib} {e : LinkReadEv} (hstep : s.step e = some s') : s.Stepped e s' := by
  cases e with
  | receive q b =>
    cases hstep
    exact .received q b
  | turn q =>
    simp only [step] at hstep
    split at hstep
    · cases hstep
    · rename_i drained hdraining hnone
      cases hstep
      exact .ended q drained hdraining (.inl hnone)
    · rename_i drained b rest hdraining hreceived
      split at hstep
      · rename_i hmore
        cases hstep
        exact .read q drained b rest hdraining hreceived hmore
      · rename_i hfull
        cases hstep
        exact .ended q drained hdraining (.inr hfull)
  | wake q =>
    simp only [step] at hstep
    split at hstep
    · rename_i hdelayed
      cases hstep
      exact .woken q hdelayed
    · cases hstep
  | xQueueReceive =>
    simp only [step] at hstep
    split at hstep
    · cases hstep
    · rename_i inbound rest hwaiting
      cases hstep
      exact .taken inbound rest hwaiting

/-- What `TaskMavlink` has taken is its own. -/
theorem taken_step {s s' : LinkRead lib} {e : LinkReadEv} (hstep : s.step e = some s') (he : e ≠ .xQueueReceive) :
    s'.taken = s.taken := by
  cases LinkRead.step_cases hstep with
  | received | ended | woken => rfl
  | read q drained b rest =>
    unfold LinkRead.readByte
    dsimp only
    split <;> rfl
  | taken => exact absurd rfl he

theorem ReadOk.of_same {first : lib.Status} {port : Fin 2} {s s' : LinkRead lib} (h : ReadOk first port s)
    (hstatus : (s'.ports port).status = (s.ports port).status) (hconsumed : (s'.ports port).consumed = (s.ports port).consumed)
    (hdropped : (s'.ports port).rxDropCount = (s.ports port).rxDropCount)
    (hoffered : offeredBy port s'.offered = offeredBy port s.offered) : ReadOk first port s' := by
  refine ⟨?_, ?_, ?_⟩
  · rw [hstatus, hconsumed]
    exact h.status
  · rw [hoffered, hconsumed]
    exact h.offered
  · rw [hdropped, hconsumed]
    exact h.dropped

/-- A port that only changes its stage or what its driver holds. -/
theorem ReadOk.setPort {first : lib.Status} {port q : Fin 2} {s : LinkRead lib} (h : ReadOk first port s) {p : ReadPort lib}
    (hstatus : p.status = (s.ports q).status) (hconsumed : p.consumed = (s.ports q).consumed)
    (hdropped : p.rxDropCount = (s.ports q).rxDropCount) : ReadOk first port (s.setPort q p) := by
  by_cases hq : port = q
  · subst hq
    refine h.of_same ?_ ?_ ?_ rfl <;> simpa [LinkRead.setPort]
  · refine h.of_same ?_ ?_ ?_ rfl <;> simp [LinkRead.setPort, hq]

/-- What a byte does to its port, and to the queue. -/
theorem readByte_ports (s : LinkRead lib) (port : Fin 2) (drained : Nat) (b : UInt8) (rest : List UInt8) :
    (s.readByte port drained b rest).ports = Function.update s.ports port
      { received := rest, status := (lib.parseChar (s.ports port).status b).1, stage := .draining (drained + 1)
        consumed := (s.ports port).consumed ++ [b]
        rxDropCount := if (lib.parseChar (s.ports port).status b).2.2 && (s.ports port).rxDropCount < 65535 then
          (s.ports port).rxDropCount + 1 else (s.ports port).rxDropCount } := by
  unfold LinkRead.readByte
  dsimp only
  split <;> rfl

theorem readByte_offered (s : LinkRead lib) (port : Fin 2) (drained : Nat) (b : UInt8) (rest : List UInt8) :
    (s.readByte port drained b rest).offered = s.offered ++ ((lib.parseChar (s.ports port).status b).2.1.map fun msg =>
      { inbound := { msg, chan := port }, waiting := s.linkReadQueue.length }).toList := by
  unfold LinkRead.readByte
  dsimp only
  split
  · rename_i msg hmsg
    rw [hmsg]
    rfl
  · rename_i hmsg
    rw [hmsg]
    exact (List.append_nil _).symm

theorem offeredBy_readByte (s : LinkRead lib) (port q : Fin 2) (drained : Nat) (b : UInt8) (rest : List UInt8) :
    offeredBy port (s.readByte q drained b rest).offered = offeredBy port s.offered ++
      if q = port then (lib.parseChar (s.ports q).status b).2.1.toList else [] := by
  rw [readByte_offered]
  cases (lib.parseChar (s.ports q).status b).2.1 with
  | none => simp
  | some msg => exact offeredBy_concat _ _ _

theorem readOk_readByte {first : lib.Status} {port q : Fin 2} {s : LinkRead lib} (h : ReadOk first port s) (drained : Nat)
    (b : UInt8) (rest : List UInt8) : ReadOk first port (s.readByte q drained b rest) := by
  have hports := readByte_ports s q drained b rest
  have hoffered := offeredBy_readByte s port q drained b rest
  by_cases hq : port = q
  swap
  · have hport : (s.readByte q drained b rest).ports port = s.ports port := by
      rw [hports]
      exact Function.update_of_ne hq _ _
    rw [if_neg (Ne.symm hq), List.append_nil] at hoffered
    exact h.of_same (congrArg _ hport) (congrArg _ hport) (congrArg _ hport) hoffered
  subst hq
  have hport := congrFun hports port
  rw [Function.update_self] at hport
  rw [if_pos rfl] at hoffered
  refine ⟨?_, ?_, ?_⟩
  · rw [hport]
    dsimp only
    rw [Mealy.state_concat, ← h.status]
  · rw [hoffered, hport, h.offered]
    unfold completedBy
    rw [parsed_concat, List.filterMap_append, ← h.status]
    cases hmsg : (lib.parseChar (s.ports port).status b).2.1 <;> simp [hmsg]
  · rw [hport]
    unfold droppedBy
    rw [parsed_concat, List.countP_append, ← h.status]
    have hold := h.dropped
    unfold droppedBy at hold
    dsimp only
    cases hdropped : (lib.parseChar (s.ports port).status b).2.2 with
    | false => simpa [hdropped] using hold
    | true =>
      by_cases hsat : (s.ports port).rxDropCount < 65535
      · have hlt : (s.ports port).rxDropCount.toNat < 65535 := hsat
        simp only [hdropped, hsat, Bool.true_and, decide_true, if_true, List.countP_singleton, UInt16.toNat_add, UInt16.toNat_one]
        omega
      · have hge : ¬ (s.ports port).rxDropCount.toNat < 65535 := hsat
        simp only [hdropped, hsat, Bool.true_and, decide_false, Bool.false_eq_true, if_false, if_true, List.countP_singleton]
        omega

theorem readOk_step {first : lib.Status} {port : Fin 2} {s s' : LinkRead lib} {e : LinkReadEv} (h : ReadOk first port s)
    (hstep : s.step e = some s') : ReadOk first port s' := by
  cases LinkRead.step_cases hstep with
  | received | ended | woken => exact h.setPort rfl rfl rfl
  | read q drained b rest => exact readOk_readByte h drained b rest
  | taken => exact h.of_same rfl rfl rfl rfl

/-- The queue takes an item it has room for. -/
theorem queueOk_send {s : LinkRead lib} (h : QueueOk s) (inbound : InboundMsg) : QueueOk (s.xQueueSend inbound) := by
  obtain ⟨haccepted, hdepth⟩ := h
  unfold LinkRead.xQueueSend
  by_cases hroom : s.linkReadQueue.length < linkReadQueueDepth
  · refine ⟨?_, ?_⟩
    · dsimp only
      rw [Fifo.send_room hroom, ← List.append_assoc, haccepted, List.filter_append, List.map_append]
      simp [Offered.accepted, hroom]
    · dsimp only
      rw [Fifo.send_room hroom, List.length_append, List.length_singleton]
      exact hroom
  · refine ⟨?_, ?_⟩
    · dsimp only
      rw [Fifo.send_full hroom, haccepted, List.filter_append, List.map_append]
      simp [Offered.accepted, hroom]
    · dsimp only
      rw [Fifo.send_full hroom]
      exact hdepth

theorem queueOk_step {s s' : LinkRead lib} {e : LinkReadEv} (h : QueueOk s) (hstep : s.step e = some s') : QueueOk s' := by
  have hset : ∀ q p, QueueOk (s.setPort q p) := fun q p => ⟨h.accepted, h.depth⟩
  cases LinkRead.step_cases hstep with
  | received | ended | woken => exact hset _ _
  | read q drained b rest =>
    unfold LinkRead.readByte
    dsimp only
    split
    · exact queueOk_send (hset _ _) _
    · exact hset _ _
  | taken inbound rest hwaiting =>
    obtain ⟨haccepted, hdepth⟩ := h
    rw [hwaiting] at haccepted hdepth
    exact ⟨by simpa using haccepted, (Nat.le_succ _).trans hdepth⟩

/-! ## Bytes and passes -/

/-- How often the reader of a port came back from its delay. -/
def wakes (port : Fin 2) (es : List LinkReadEv) : Nat :=
  es.countP fun
    | .wake q => q = port
    | _ => false

/-- The bytes a pass may have read when the reader is at this point. -/
def ReadStage.most : ReadStage → Nat
  | .draining drained => drained
  | .vTaskDelay => kMaxBytesPerPass

/-- From `old` on, no byte is lost or read twice, and 128 of them are read for each pass at most. -/
structure Paced (port : Fin 2) (old : LinkRead lib) (es : List LinkReadEv) (s : LinkRead lib) : Prop where
  consumed : (old.ports port).consumed <+: (s.ports port).consumed
  bytes : (s.ports port).consumed ++ (s.ports port).received =
    (old.ports port).consumed ++ (old.ports port).received ++ arrived port es
  stage : (s.ports port).stage.most ≤ kMaxBytesPerPass
  length : (s.ports port).consumed.length + (old.ports port).stage.most ≤
    (old.ports port).consumed.length + kMaxBytesPerPass * wakes port es + (s.ports port).stage.most

theorem arrived_concat (port : Fin 2) (es : List LinkReadEv) (e : LinkReadEv) :
    arrived port (es ++ [e]) = arrived port es ++ arrived port [e] := List.filterMap_append

theorem wakes_concat (port : Fin 2) (es : List LinkReadEv) (e : LinkReadEv) :
    wakes port (es ++ [e]) = wakes port es + wakes port [e] := List.countP_append

/-- An event of one port, which leaves the other alone. -/
theorem Paced.update {port q : Fin 2} {es : List LinkReadEv} {e : LinkReadEv} {old s s' : LinkRead lib} {p : ReadPort lib}
    (h : Paced port old es s) (hports : s'.ports = Function.update s.ports q p)
    (hother : port ≠ q → arrived port [e] = [] ∧ wakes port [e] = 0) (hconsumed : (s.ports q).consumed <+: p.consumed)
    (hbytes : p.consumed ++ p.received = (s.ports q).consumed ++ (s.ports q).received ++ arrived q [e])
    (hpass : (s.ports q).stage.most ≤ kMaxBytesPerPass → p.stage.most ≤ kMaxBytesPerPass ∧
      p.consumed.length + (s.ports q).stage.most ≤
        (s.ports q).consumed.length + kMaxBytesPerPass * wakes q [e] + p.stage.most) :
    Paced port old (es ++ [e]) s' := by
  obtain ⟨hgrows, hread, hstage, hlength⟩ := h
  by_cases hq : port = q
  · subst hq
    have hport : s'.ports port = p := by rw [hports, Function.update_self]
    obtain ⟨hmost, hgrown⟩ := hpass hstage
    refine ⟨?_, ?_, ?_, ?_⟩
    · rw [hport]
      exact hgrows.trans hconsumed
    · rw [hport, arrived_concat, ← List.append_assoc, ← hread]
      exact hbytes
    · rw [hport]
      exact hmost
    · rw [hport, wakes_concat, Nat.mul_add]
      omega
  · have hport : s'.ports port = s.ports port := by rw [hports, Function.update_of_ne hq]
    obtain ⟨hnone, hzero⟩ := hother hq
    refine ⟨?_, ?_, ?_, ?_⟩
    · rw [hport]
      exact hgrows
    · rw [hport, arrived_concat, hnone, List.append_nil]
      exact hread
    · rw [hport]
      exact hstage
    · rw [hport, wakes_concat, hzero, Nat.add_zero]
      exact hlength

theorem paced_step {port : Fin 2} {es : List LinkReadEv} {old s s' : LinkRead lib} {e : LinkReadEv}
    (h : Paced port old es s) (hstep : s.step e = some s') : Paced port old (es ++ [e]) s' := by
  cases LinkRead.step_cases hstep with
  | received q b =>
    refine h.update rfl (fun hq => ⟨by simp [arrived, Ne.symm hq], rfl⟩) (List.prefix_refl _) ?_
      fun hmost => ⟨hmost, Nat.le_refl _⟩
    simp [arrived]
  | read q drained b rest hdraining hreceived hmore =>
    refine h.update (readByte_ports s q drained b rest) (fun _ => ⟨rfl, rfl⟩) (List.prefix_append _ _) ?_
      fun _ => ⟨hmore, ?_⟩
    · simp [hreceived, arrived]
    · rw [hdraining, List.length_append, List.length_singleton]
      simp only [ReadStage.most]
      omega
  | ended q drained =>
    -- a pass that ends has read what it may
    refine h.update rfl (fun _ => ⟨rfl, rfl⟩) (List.prefix_refl _) (List.append_nil _).symm
      fun hmost => ⟨Nat.le_refl _, ?_⟩
    simp only [ReadStage.most] at hmost ⊢
    omega
  | woken q hdelayed =>
    refine h.update rfl (fun hq => ⟨rfl, by simp [wakes, Ne.symm hq]⟩) (List.prefix_refl _) (List.append_nil _).symm
      fun _ => ⟨Nat.zero_le _, ?_⟩
    simp [hdelayed, ReadStage.most, wakes]
  | taken inbound rest =>
    obtain ⟨hconsumed, hbytes, hstage, hlength⟩ := h
    constructor
    · exact hconsumed
    · rw [arrived_concat]
      exact hbytes.trans (congrArg _ (List.append_nil _).symm)
    · exact hstage
    · rw [wakes_concat]
      exact hlength

/-! ## Runs -/

theorem paced_run {port : Fin 2} {old s : LinkRead lib} {es : List LinkReadEv}
    (hold : (old.ports port).stage.most ≤ kMaxBytesPerPass) (hrun : run LinkRead.step old es = some s) :
    Paced port old es s :=
  inv_history ⟨List.prefix_refl _, (List.append_nil _).symm, hold, Nat.le_refl _⟩
    (fun _ _ _ _ _ h hstep => paced_step h hstep) hrun

theorem paced_boot (port : Fin 2) {first : lib.Status} {es : List LinkReadEv} {s : LinkRead lib}
    (hrun : run LinkRead.step (.boot lib first) es = some s) : Paced port (.boot lib first) es s :=
  paced_run (Nat.zero_le _) hrun

/-- Between two wakes a reader reads 128 bytes at most. -/
theorem drained_pass {port : Fin 2} {old s : LinkRead lib} {es : List LinkReadEv}
    (hold : (old.ports port).stage.most ≤ kMaxBytesPerPass) (hrun : run LinkRead.step old es = some s)
    (hwakes : wakes port es = 0) : ∃ drained : List UInt8,
      (s.ports port).consumed = (old.ports port).consumed ++ drained ∧ drained.length ≤ kMaxBytesPerPass := by
  obtain ⟨⟨drained, hdrained⟩, -, hstage, hlength⟩ := paced_run hold hrun
  refine ⟨drained, hdrained.symm, ?_⟩
  rw [← hdrained, hwakes, List.length_append] at hlength
  omega

theorem readOk_run {first : lib.Status} {es : List LinkReadEv} {s : LinkRead lib}
    (hrun : run LinkRead.step (.boot lib first) es = some s) (port : Fin 2) : ReadOk first port s :=
  inv (fun _ _ _ => readOk_step) ⟨rfl, rfl, rfl⟩ hrun

/-- Whatever the two ports receive, however their passes fall and whenever `TaskMavlink` reads: every byte of
a port is parsed once and in order, at most 128 a pass; each message completed is offered to the queue under
the port it arrived on and each error counted, up to 65535; and what `TaskMavlink` has taken, with what still
waits, is what was offered while fewer than eight waited. -/
theorem inbound_exact (lib : MavlinkParser) (first : lib.Status) (es : List LinkReadEv) (s : LinkRead lib)
    (hrun : run LinkRead.step (.boot lib first) es = some s) :
    (∀ port, let bytes := (s.ports port).consumed
      bytes ++ (s.ports port).received = arrived port es ∧ bytes.length ≤ kMaxBytesPerPass * (wakes port es + 1) ∧
        offeredBy port s.offered = completedBy lib first bytes ∧
        (s.ports port).rxDropCount.toNat = min 65535 (droppedBy lib first bytes)) ∧
      (∀ port before pass after, es = before ++ pass ++ after → wakes port pass = 0 →
        ∃ (old new : LinkRead lib) (drained : List UInt8), run LinkRead.step (.boot lib first) before = some old ∧
          run LinkRead.step old pass = some new ∧ (new.ports port).consumed = (old.ports port).consumed ++ drained ∧
          drained.length ≤ kMaxBytesPerPass) ∧
      s.taken ++ s.linkReadQueue = (s.offered.filter Offered.accepted).map Offered.inbound ∧
      s.linkReadQueue.length ≤ linkReadQueueDepth := by
  have hqueue : QueueOk s := inv (fun _ _ _ => queueOk_step) ⟨rfl, Nat.zero_le _⟩ hrun
  refine ⟨fun port => ?_, ?_, hqueue.accepted, hqueue.depth⟩
  · have hread := readOk_run hrun port
    obtain ⟨-, hbytes, hstage, hlength⟩ := paced_boot port hrun
    refine ⟨hbytes, ?_, hread.offered, hread.dropped⟩
    change (s.ports port).consumed.length + 0 ≤ 0 + kMaxBytesPerPass * wakes port es + _ at hlength
    rw [Nat.mul_add, Nat.mul_one]
    omega
  · rintro port before pass after rfl hwakes
    rw [List.append_assoc, run_append] at hrun
    obtain ⟨old, hold, hrun⟩ := Option.bind_eq_some_iff.1 hrun
    rw [run_append] at hrun
    obtain ⟨new, hnew, -⟩ := Option.bind_eq_some_iff.1 hrun
    obtain ⟨drained, hdrained⟩ := drained_pass (paced_boot port hold).stage hnew hwakes
    exact ⟨old, new, drained, hold, hnew, hdrained⟩

/-- Two runs in which a port received the same bytes and has read them all agree on that port: the messages it
offered, the errors it counted and the state of its parser. -/
theorem reads_alike (lib : MavlinkParser) (first : lib.Status) (port : Fin 2) (es es' : List LinkReadEv) (s s' : LinkRead lib)
    (hrun : run LinkRead.step (.boot lib first) es = some s) (hrun' : run LinkRead.step (.boot lib first) es' = some s')
    (hsame : arrived port es = arrived port es') (hread : (s.ports port).received = [])
    (hread' : (s'.ports port).received = []) :
    offeredBy port s.offered = offeredBy port s'.offered ∧ (s.ports port).rxDropCount = (s'.ports port).rxDropCount ∧
      (s.ports port).status = (s'.ports port).status := by
  have hbytes : (s.ports port).consumed ++ (s.ports port).received = arrived port es := (paced_boot port hrun).bytes
  have hbytes' : (s'.ports port).consumed ++ (s'.ports port).received = arrived port es' := (paced_boot port hrun').bytes
  rw [hread, List.append_nil] at hbytes
  rw [hread', List.append_nil, ← hsame, ← hbytes] at hbytes'
  have h := readOk_run hrun port
  have h' := readOk_run hrun' port
  refine ⟨?_, ?_, ?_⟩
  · rw [h.offered, h'.offered, hbytes']
  · rw [← UInt16.toNat_inj, h.dropped, h'.dropped, hbytes']
  · rw [h.status, h'.status, hbytes']

/-! ## Two heartbeats -/

/-- The library's parser on MAVLink 2 frames of one message, given its extra byte and what a payload says: idle until
the magic byte, then as many bytes as the frame says, then the checksum. The call after the one that found a wrong
checksum is the one that counts it. -/
def frameParser (crcExtra : UInt8) (message : List UInt8 → MavlinkMessage) : MavlinkParser where
  Status := List UInt8 × Bool
  parseChar
    | (frame, wrong), receivedByte =>
      if frame.isEmpty then ((if receivedByte = 0xFD then [0xFD] else [], false), none, wrong)
      else
        let frame := frame ++ [receivedByte]
        if frame.length < 12 + (frame.getD 1 0).toNat then ((frame, false), none, wrong)
        else
          let body := (frame.drop 1).dropLast.dropLast
          let checksum := ((body ++ [crcExtra]).foldl crcAccumulate 0xFFFF).toNat
          if frame.drop (frame.length - 2) = LittleEndian.ofNat 2 checksum then
            (([], false), some { message (body.drop 9) with sysid := frame.getD 5 0, compid := frame.getD 6 0 }, wrong)
          else (([], true), none, wrong)

def heartbeatParser : MavlinkParser := frameParser 50 fun _ => groundMessage 0

/-- A heartbeat of a ground station, and one with a byte of it changed. -/
def heartbeatBytes : List UInt8 :=
  HeartbeatFrame.bytes { seq := 7, sysid := 255, compid := 190, payload := ⟨[0, 0, 0, 0, 6, 8, 192, 4, 3], rfl⟩ }

def damagedBytes : List UInt8 := heartbeatBytes.set 11 1

/-- Seven good ones in USB's driver at once, and on the UART the damaged one, with a good one to follow. -/
def heartbeatsWait : List LinkReadEv :=
  (List.replicate 7 heartbeatBytes).flatten.map (.receive linkChanUsb) ++
    (damagedBytes ++ heartbeatBytes).map (.receive linkChanUart)

/-- A pass on USB, among the turns of the UART. -/
def heartbeatsPass : List LinkReadEv :=
  List.replicate 22 (.turn linkChanUart) ++ List.replicate 129 (.turn linkChanUsb)

/-- The pass after it, and `TaskMavlink` takes two. -/
def heartbeatsRest : List LinkReadEv :=
  .wake linkChanUsb :: List.replicate 19 (.turn linkChanUsb) ++ [.xQueueReceive, .xQueueReceive]

theorem inbound_exact_heartbeats : ∃ (old new s : LinkRead heartbeatParser) (drained : List UInt8),
    run LinkRead.step (.boot heartbeatParser ([], false)) heartbeatsWait = some old ∧
      run LinkRead.step old heartbeatsPass = some new ∧
      run LinkRead.step (.boot heartbeatParser ([], false)) (heartbeatsWait ++ heartbeatsPass ++ heartbeatsRest) = some s ∧
      (new.ports linkChanUsb).consumed = (old.ports linkChanUsb).consumed ++ drained ∧
      drained.length ≤ kMaxBytesPerPass ∧ (new.ports linkChanUsb).received.length = 19 ∧
      (s.taken.map fun x => (x.chan, x.msg.sysid)) = [(linkChanUsb, 255), (linkChanUsb, 255)] ∧
      (s.ports linkChanUart).rxDropCount = 1 ∧
      offeredBy linkChanUsb s.offered = completedBy heartbeatParser ([], false) (s.ports linkChanUsb).consumed ∧
      s.taken ++ s.linkReadQueue = (s.offered.filter Offered.accepted).map Offered.inbound := by
  have hrun : (run LinkRead.step (.boot heartbeatParser ([], false)) (heartbeatsWait ++ heartbeatsPass ++ heartbeatsRest)).map
      (fun s => (s.taken.map fun x => (x.chan, x.msg.sysid), (s.ports linkChanUart).rxDropCount)) =
      some ([(linkChanUsb, 255), (linkChanUsb, 255)], 1) := by decide +kernel
  have hpass : (run LinkRead.step (.boot heartbeatParser ([], false)) (heartbeatsWait ++ heartbeatsPass)).map
      (fun s => (s.ports linkChanUsb).received.length) = some 19 := by decide +kernel
  obtain ⟨s, hs, hseen⟩ := Option.map_eq_some_iff.1 hrun
  obtain ⟨htaken, hdropped⟩ := Prod.mk.inj hseen
  obtain ⟨hports, hpasses, haccepted, -⟩ := inbound_exact heartbeatParser ([], false) _ s hs
  obtain ⟨old, new, drained, hold, hnew, hdrained, hmost⟩ :=
    hpasses linkChanUsb heartbeatsWait heartbeatsPass heartbeatsRest rfl (by decide)
  rw [run_append, hold, Option.bind_some, hnew] at hpass
  exact ⟨old, new, s, drained, hold, hnew, hs, hdrained, hmost, Option.some.inj hpass, htaken, hdropped,
    (hports linkChanUsb).2.2.1, haccepted⟩

/-- The good one on the UART, a byte at a time, and the damaged one on USB in between. -/
def heartbeatsArrive : List LinkReadEv :=
  (heartbeatBytes.zip damagedBytes).flatMap (fun (b, d) =>
    [.receive linkChanUart b, .receive linkChanUsb d, .turn linkChanUart, .turn linkChanUart, .wake linkChanUart]) ++
    List.replicate 21 (.turn linkChanUsb) ++ [.xQueueReceive]

/-- The UART's bytes again, all in one pass and with nothing on USB. -/
def heartbeatAtOnce : List LinkReadEv :=
  heartbeatBytes.map (.receive linkChanUart) ++ List.replicate 21 (.turn linkChanUart)

theorem reads_alike_heartbeats : ∃ s s' : LinkRead heartbeatParser,
    run LinkRead.step (.boot heartbeatParser ([], false)) heartbeatsArrive = some s ∧
      run LinkRead.step (.boot heartbeatParser ([], false)) heartbeatAtOnce = some s' ∧
        offeredBy linkChanUart s.offered = offeredBy linkChanUart s'.offered := by
  have hread : ∀ es ∈ [heartbeatsArrive, heartbeatAtOnce], (run LinkRead.step (.boot heartbeatParser ([], false)) es).map
      (fun s => (s.ports linkChanUart).received) = some [] := by decide +kernel
  obtain ⟨s, hs, hnone⟩ := Option.map_eq_some_iff.1 (hread heartbeatsArrive (by simp))
  obtain ⟨s', hs', hnone'⟩ := Option.map_eq_some_iff.1 (hread heartbeatAtOnce (by simp))
  exact ⟨s, s', hs, hs', (reads_alike heartbeatParser ([], false) linkChanUart heartbeatsArrive heartbeatAtOnce s s' hs hs'
    (by decide +kernel) hnone hnone').1⟩

end BoredomOS.Link
