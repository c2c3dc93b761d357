/-
How a boot can end, down to the store: a reset may fall between two writes of a running boot or
inside one, and so may a fault hook, which a hardware reset may cut short in turn. What the block
holds then is followed byte by byte, because no checksum vouches for a write cut short.
-/
import Mathlib.Data.List.Induction
import BoredomOS.Recovery.Life
import BoredomOS.Recovery.Torn

namespace BoredomOS.Recovery

open Steps Steps.Prog

/-! ## The ends of a boot -/

/-- What a boot writes to the block past its `setPhase(Start)`, the fault hooks apart. -/
inductive Write
  | milestone (phase : BootPhase)
  | pass
  | reboot

def Write.ev : Write → Ev
  | .milestone phase => .milestone phase
  | .pass => .pass
  | .reboot => .reboot

/-- The block `k` steps into the write. -/
def Write.upTo (run : Running) (k : Nat) (regs : Regs) : Write → Regs
  | .milestone phase => (setPhase phase).upTo k regs
  | .pass => (endOfPass run).upTo k regs
  | .reboot => rebootCommand.upTo k regs

/-- Where in a boot something hits it: between two writes, or `k` steps into one. -/
inductive Spot
  | between
  | within (w : Write) (k : Nat)

def Spot.regs (run : Running) (regs : Regs) : Spot → Regs
  | .between => regs
  | .within w k => w.upTo run k regs

def Spot.inside : Spot → Bool
  | .between => false
  | .within _ _ => true

/-- What ends a boot that does not reset itself. -/
inductive Ending
  | hardware (cause : Cause)
  /-- a `NVIC_SystemReset()` that is not this firmware's: the idle hook's `goBootloader()` -/
  | software
  /-- a fault hook, to its `NVIC_SystemReset()` -/
  | hook (phase : BootPhase) (taskName : Option (Nat → UInt8))
  /-- a hardware reset `k` steps into the record of a fault hook -/
  | hookCut (phase : BootPhase) (taskName : Option (Nat → UInt8)) (k : Nat) (cause : Cause)

def Ending.regs (regs : Regs) : Ending → Regs
  | .hardware _ => regs
  | .software => regs
  | .hook phase taskName => ((recordFault phase taskName).run regs).2
  | .hookCut phase taskName k _ => (recordFault phase taskName).upTo k regs

def Ending.raise (status : ResetStatus) : Ending → ResetStatus
  | .hardware cause => cause.raise status
  | .software => { status with swrf := true }
  | .hook _ _ => { status with swrf := true }
  | .hookCut _ _ _ cause => cause.raise status

inductive Moment
  | boot
  | write (w : Write)
  | wait (ms : Nat)
  /-- the `NVIC_SystemReset()` behind the reboot command or the retry -/
  | nvicReset
  | ended (spot : Spot) (how : Ending)

/-- A boot about to reset itself begins no further write. -/
def Board.next (b : Board) : Moment → Option Board
  | .boot => b.step .boot
  | .write w => b.step w.ev
  | .wait ms => b.step (.wait ms)
  | .nvicReset => b.step .nvicReset
  | .ended spot how => b.running.bind fun r =>
    if r.resetting.isSome && spot.inside then none
    else some { b with
      regs := how.regs (spot.regs r b.regs), status := how.raise b.status, running := none }

/-- `LinkDone` to `SchedulerStarted`. -/
def BootPhase.isMilestone : BootPhase → Bool
  | .linkDone | .clockDone | .cardDone | .queuesDone | .tasksDone | .schedulerStarted => true
  | _ => false

def Write.Proper : Write → Prop
  | .milestone phase => phase.isMilestone = true
  | _ => True

/-- The phases are those `setup()` and the hooks store. -/
def Moment.Proper : Moment → Prop
  | .write w => w.Proper
  | .ended spot how =>
    (match spot with | .between => True | .within w _ => w.Proper) ∧
    match how with
    | .hook phase _ => phase.isFault = true
    | .hookCut phase _ _ _ => phase.isFault = true
    | _ => True
  | _ => True

/-- The moment ends a boot. -/
def Moment.ends : Moment → Bool
  | .nvicReset => true
  | .ended _ _ => true
  | _ => false

abbrev Board.runAt : Board → List Moment → Option Board := Runs.run Board.next

/-! ## How far a boot got -/

/-- The last phase a boot stored as its own, and whether the reboot command has zeroed it since. -/
structure Progress where
  reached : BootPhase := .start
  wiped : Bool := false
  deriving DecidableEq, Repr

namespace Progress

/-- What the phase byte holds. -/
def byte (g : Progress) : UInt8 := if g.wiped then 0 else g.reached.toByte

def write (g : Progress) : Write → Progress
  | .milestone phase => { reached := phase }
  | .pass => g
  | .reboot => { g with wiped := true }

/-- A milestone is its first store, and the phase is the fourth byte `reinitialise()` zeroes. -/
def within (g : Progress) (k : Nat) : Write → Progress
  | .milestone phase => if 1 ≤ k then { reached := phase } else g
  | .pass => g
  | .reboot => { g with wiped := g.wiped || 4 ≤ k }

def spot (g : Progress) : Spot → Progress
  | .between => g
  | .within w k => g.within k w

/-- A fault record stores the phase behind the fifteen bytes of the name. -/
def ending (g : Progress) : Ending → Progress
  | .hardware _ => g
  | .software => g
  | .hook phase _ => { reached := phase }
  | .hookCut phase _ k _ => if 16 ≤ k then { reached := phase } else g

def next (g : Progress) : Moment → Progress
  | .boot => {}
  | .write w => g.write w
  | .wait _ => g
  | .nvicReset => g
  | .ended spot how => (g.spot spot).ending how

end Progress

def progress (es : List Moment) : Progress := es.foldl Progress.next {}

theorem progress_concat (es : List Moment) (m : Moment) : progress (es ++ [m]) = (progress es).next m := by
  simp [progress]

/-! ## The phase byte through a write -/

theorem run_poke (off : Nat) (v : UInt8) (r : Regs) : ((poke off v).run r).2 = Function.update r off v := rfl

/-- What a byte write leaves of each covered byte, valid or not. -/
theorem run_writeByte (off : Nat) (v : UInt8) (r : Regs) {o : Nat} (ho : 6 ≤ o) :
    ((writeByte off v).run r).2 o = if o = off then v else r o := by
  simp only [writeByte, run_bind]
  rw [(run_refresh _).2 o ho, run_poke, Function.update_apply]

theorem upTo_of_keeps {α : Type} {m : Prog Regs α} {o : Nat} {r : Regs} (h : Keeps (fun p => p o = r o) m) (k : Nat) :
    (m.upTo k r) o = r o :=
  cuts_of_keeps h rfl _ (upTo_mem_cuts k m r)

theorem upTo_setPhase (phase : BootPhase) (r : Regs) (k : Nat) :
    ((setPhase phase).upTo k r) 9 = if 1 ≤ k then phase.toByte else r 9 := by
  cases k with
  | zero => simp
  | succ k =>
    have hstep : (setPhase phase).upTo (k + 1) r = refresh.upTo k (Function.update r 9 phase.toByte) := rfl
    rw [hstep, upTo_of_keeps (keeps_refresh (by decide) (by decide) _) k, if_pos (by omega), Function.update_self]

theorem keeps_endOfPass (run : Running) (v : UInt8) : Keeps (fun p : Regs => p 9 = v) (endOfPass run) := by
  refine keeps_bind (keeps_when _ (keeps_writeByte ?_ ?_ ?_ v _)) fun _ =>
    keeps_bind (keeps_when _ (keeps_writeByte ?_ ?_ ?_ v _)) fun _ => keeps_pure _
  all_goals decide

theorem upTo_rebootCommand (r : Regs) (k : Nat) : (rebootCommand.upTo k r) 9 = if 4 ≤ k then 0 else r 9 := by
  rcases Nat.lt_or_ge k 4 with hk | hk
  · rw [if_neg (by omega)]
    obtain rfl | rfl | rfl | rfl : k = 0 ∨ k = 1 ∨ k = 2 ∨ k = 3 := by omega
    all_goals rfl
  · rw [if_pos hk]
    obtain ⟨j, rfl⟩ := Nat.exists_eq_add_of_le' hk
    -- past the fourth store, nothing moves the phase any more
    have hstep : rebootCommand.upTo (j + 4) r =
        (((zeroFrom 10 17 >>= fun _ => refresh) >>= fun _ => setDeliberateReset .commanded) : Prog Regs Unit).upTo j
          (Function.update (Function.update (Function.update (Function.update r 6 0) 7 0) 8 0) 9 0) := rfl
    rw [hstep, upTo_of_keeps ?_ j, Function.update_self]
    refine keeps_bind (keeps_bind (keeps_zeroFrom _ 17 10 (by omega)) fun _ => keeps_refresh ?_ ?_ _) fun _ =>
      keeps_writeByte ?_ ?_ ?_ _ _
    all_goals decide

/-- A fault record is the copy of the name, then a store of the phase like any other. -/
theorem recordFault_eq (phase : BootPhase) (taskName : Option (Nat → UInt8)) : recordFault phase taskName =
    copyFaultTask (taskName.getD fun _ => 0) faultTaskLen 0 taskName.isNone >>= fun _ => setPhase phase := rfl

theorem length_points_copyFaultTask (name : Nat → UInt8) (n : Nat) : ∀ (i : Nat) (ended : Bool) (r : Regs),
    ((copyFaultTask name n i ended).points r).length = n := by
  induction n with
  | zero => intro i ended r; rfl
  | succ n ih => intro i ended r; exact congrArg (· + 1) (ih (i + 1) _ _)

theorem run_recordFault_phase (phase : BootPhase) (taskName : Option (Nat → UInt8)) (r : Regs) :
    ((recordFault phase taskName).run r).2 9 = phase.toByte := by
  rw [recordFault_eq, run_bind, setPhase, run_writeByte _ _ _ (by omega)]
  rfl

/-- A fault record, up to its phase and past it. -/
theorem upTo_recordFault (phase : BootPhase) (taskName : Option (Nat → UInt8)) (r : Regs) (k : Nat) :
    ((recordFault phase taskName).upTo k r) 9 = if 16 ≤ k then phase.toByte else r 9 := by
  have hlen := length_points_copyFaultTask (taskName.getD fun _ => 0) faultTaskLen 0 taskName.isNone r
  have hkeep := keeps_copyFaultTask (taskName.getD fun _ => 0) (o := 9) (r 9) faultTaskLen 0 taskName.isNone (by omega)
  rw [recordFault_eq]
  rcases Nat.lt_or_ge k 16 with hk | hk
  · rw [if_neg (by omega), upTo_bind_of_le _ (by rw [hlen, faultTaskLen]; omega)]
    exact upTo_of_keeps hkeep k
  · obtain ⟨j, rfl⟩ := Nat.exists_eq_add_of_le' hk
    have hsplit : j + 16 = ((copyFaultTask (taskName.getD fun _ => 0) faultTaskLen 0 taskName.isNone).points r).length +
        (j + 1) := by
      rw [hlen, faultTaskLen]
      omega
    rw [if_pos hk, hsplit, upTo_bind_add, upTo_setPhase, if_pos (by omega)]

theorem upTo_write (run : Running) (w : Write) (k : Nat) {r : Regs} {g : Progress} (h : r 9 = g.byte) :
    (w.upTo run k r) 9 = (g.within k w).byte := by
  cases w with
  | milestone phase =>
    change ((setPhase phase).upTo k r) 9 = _
    rw [upTo_setPhase, h, Progress.within]
    split <;> rfl
  | pass => exact (upTo_of_keeps (keeps_endOfPass run (r 9)) k).trans h
  | reboot =>
    change (rebootCommand.upTo k r) 9 = _
    rw [upTo_rebootCommand, h]
    by_cases hk : 4 ≤ k <;> simp [Progress.within, Progress.byte, hk]

theorem regs_spot (run : Running) (spot : Spot) {r : Regs} {g : Progress} (h : r 9 = g.byte) :
    (spot.regs run r) 9 = (g.spot spot).byte := by
  cases spot with
  | between => exact h
  | within w k => exact upTo_write run w k h

theorem regs_ending (how : Ending) {r : Regs} {g : Progress} (h : r 9 = g.byte) : (how.regs r) 9 = (g.ending how).byte := by
  cases how with
  | hardware cause => exact h
  | software => exact h
  | hook phase taskName =>
    exact run_recordFault_phase phase taskName r
  | hookCut phase taskName k cause =>
    change ((recordFault phase taskName).upTo k r) 9 = _
    rw [upTo_recordFault, h, Progress.ending]
    split <;> rfl

/-! ## One moment -/

theorem next_ended {b b' : Board} {spot : Spot} {how : Ending} (h : b.next (.ended spot how) = some b') :
    ∃ r, b.running = some r ∧ (spot.inside = true → r.resetting = none) ∧
      b' = { b with regs := how.regs (spot.regs r b.regs), status := how.raise b.status, running := none } := by
  obtain ⟨r, hrun, h⟩ := Option.bind_eq_some_iff.1 h
  split at h
  · cases h
  · rename_i hspot
    refine ⟨r, hrun, fun hin => ?_, (Option.some.inj h).symm⟩
    rw [hin, Bool.and_true, Option.not_isSome_iff_eq_none] at hspot
    exact hspot

theorem next_boot {b b' : Board} (h : b.next .boot = some b') : b.running = none ∧
    b'.regs = ((setup b.status).run b.regs).2 ∧ b'.status = (decodeAndClearResetReason b.status).2 ∧
      b'.running = some { info := ((setup b.status).run b.regs).1 } := by
  change b.step .boot = some b' at h
  cases hrun : b.running with
  | none =>
    simp only [Board.step, hrun, Option.some.injEq] at h
    subst h
    exact ⟨rfl, rfl, rfl, rfl⟩
  | some r => simp [Board.step, hrun] at h

/-- A whole write is a write cut behind its last step. -/
theorem next_write {b b' : Board} {w : Write} (h : b.next (.write w) = some b') :
    ∃ r k, b.running = some r ∧ b'.regs = w.upTo r k b.regs ∧ ∀ g : Progress, g.write w = g.within k w := by
  change b.step w.ev = some b' at h
  cases hrun : b.running with
  | none => cases w <;> simp [Board.step, Write.ev, hrun] at h
  | some r =>
    refine ⟨r, ?_⟩
    cases w with
    | milestone phase =>
      simp only [Board.step, Write.ev, hrun] at h
      split at h
      · cases h
        refine ⟨((setPhase phase).points b.regs).length, rfl, (upTo_length _ _).symm, fun g => ?_⟩
        have hlen : ((setPhase phase).points b.regs).length = 4 := rfl
        simp [Progress.write, Progress.within, hlen]
      · cases h
    | pass =>
      simp only [Board.step, Write.ev, hrun] at h
      split at h
      · cases h
      · cases h
        exact ⟨((endOfPass r).points b.regs).length, rfl, (upTo_length _ _).symm, fun g => rfl⟩
    | reboot =>
      simp only [Board.step, Write.ev, hrun] at h
      split at h
      · cases h
      · cases h
        refine ⟨(rebootCommand.points b.regs).length, rfl, (upTo_length _ _).symm, fun g => ?_⟩
        have hlen : (rebootCommand.points b.regs).length = 28 := rfl
        simp [Progress.write, Progress.within, hlen]

/-! ## The phase byte through a run -/

theorem setup_phase (status : ResetStatus) (r : Regs) : ((setup status).run r).2 9 = 0 := by
  simp only [setup, run_bind, run_pure, setPhase]
  rw [run_writeByte _ _ _ (by omega)]
  rfl

/-- The phase byte follows the progress of the boot. -/
theorem next_phase {b b' : Board} {m : Moment} {g : Progress} (h : b.next m = some b')
    (hg : b.running.isSome = true → b.regs 9 = g.byte) : b'.regs 9 = (g.next m).byte := by
  cases m with
  | boot =>
    obtain ⟨-, hregs, -, -⟩ := next_boot h
    rw [hregs]
    exact setup_phase b.status b.regs
  | write w =>
    obtain ⟨r, k, hrun, hregs, hw⟩ := next_write h
    rw [hregs, Progress.next, hw]
    exact upTo_write r w k (hg (by rw [hrun]; rfl))
  | wait ms =>
    change b.step (.wait ms) = some b' at h
    cases hrun : b.running with
    | none => simp [Board.step, hrun] at h
    | some r =>
      simp only [Board.step, hrun, Option.some.injEq] at h
      subst h
      exact hg (by rw [hrun]; rfl)
  | nvicReset =>
    change b.step .nvicReset = some b' at h
    simp only [Board.step] at h
    split at h
    · rename_i hrun
      cases h
      exact hg (by rw [hrun]; rfl)
    · cases h
  | ended spot how =>
    obtain ⟨r, hrun, -, rfl⟩ := next_ended h
    exact regs_ending how (regs_spot r spot (hg (by rw [hrun]; rfl)))

theorem phase_run {regs : Regs} {status : ResetStatus} {es : List Moment} {b : Board}
    (h : (Board.off regs status).runAt es = some b) (hrun : b.running.isSome = true) : b.regs 9 = (progress es).byte := by
  induction es using List.reverseRecOn generalizing b with
  | nil => cases h; cases hrun
  | append_singleton es m ih =>
    obtain ⟨b₁, h₁, hm⟩ := Runs.run_concat.1 h
    rw [progress_concat]
    exact next_phase hm fun hrun₁ => ih h₁ hrun₁

/-- Where a boot ended: the phase byte its end leaves. -/
theorem phase_end {regs : Regs} {status : ResetStatus} {es : List Moment} {m : Moment} {b : Board}
    (h : (Board.off regs status).runAt (es ++ [m]) = some b) : b.regs 9 = (progress (es ++ [m])).byte := by
  obtain ⟨b₁, h₁, hm⟩ := Runs.run_concat.1 h
  rw [progress_concat]
  exact next_phase hm fun hrun₁ => phase_run h₁ hrun₁

end BoredomOS.Recovery
