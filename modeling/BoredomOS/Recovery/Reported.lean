/-
What a boot reports of the one before it. The name of a faulting task is never cleared: that an old
one is not repeated rests on the phase byte, which every boot overwrites. The same byte is the
measure of how far a boot got, and there the reboot command interferes: its `reinitialise()` zeroes
the phase with the rest.
-/
import BoredomOS.Link.BootStatement
import BoredomOS.Recovery.Ends

namespace BoredomOS.Recovery

open Steps Steps.Prog
open Log (ascii chars LogRst LogPiece Opening writeLogPreamble)
open Link (NamesFault buildBootStatement bootPhaseText faultText packCustomMode resetReasonText sendBootStatement
  severityCritical)

/-! ## What is reported -/

/-- A task's name as it can be read back: up to a NUL, fifteen bytes at most, and printable. -/
def faultName (taskName : Option (Nat → UInt8)) : List UInt8 :=
  match taskName with
  | none => []
  | some name => (((List.range' 0 faultTaskLen).map name).takeWhile (· ≠ 0)).map printable

/-- The RST records of an opening. -/
def rstRecords (pieces : List (Option LogPiece)) : List LogRst :=
  pieces.filterMap fun
    | some (.rst r) => some r
    | _ => none

/-- The boot statement, in its field of 50 characters, and every RST record tell this fault and the
whole of this name. -/
structure ReportsFault (info : BootInfo) (phase : BootPhase) (task : List UInt8) : Prop where
  statement : ∃ fault, faultText phase = some fault ∧
    buildBootStatement info = ascii "Reset: " ++ resetReasonText info.previousResetReason ++ fault ++ task
  sent : sendBootStatement info = .statusText { severity := severityCritical, text := chars 50 (buildBootStatement info) }
  length_le : (buildBootStatement info).length ≤ 50
  rst : ∀ o : Opening, o.boot = info → ∀ r ∈ rstRecords (writeLogPreamble o),
    r.phase = phase.toByte ∧ r.task = chars 16 task ∧ task.length < 16

/-- Neither speaks of a fault or a task. -/
structure ReportsNoFault (info : BootInfo) : Prop where
  statement : ¬ NamesFault (buildBootStatement info)
  rst : ∀ o : Opening, o.boot = info → ∀ r ∈ rstRecords (writeLogPreamble o),
    (BootPhase.ofByte r.phase).isFault = false ∧ r.task = chars 16 []

/-- The moment ends the boot in a fault hook whose record is complete: no store left of it would
change the block. -/
def Moment.InHook (b : Board) (phase : BootPhase) (taskName : Option (Nat → UInt8)) : Moment → Prop
  | .ended _ (.hook p name) => p = phase ∧ name = taskName
  | .ended spot (.hookCut p name k _) => p = phase ∧ name = taskName ∧ ∃ run, b.running = some run ∧
      (recordFault p name).upTo k (spot.regs run b.regs) = ((recordFault p name).run (spot.regs run b.regs)).2
  | _ => False

/-! ## The name that is read back -/

/-- What the copy makes of a name: zeros from its first NUL on. -/
def cutName : Bool → List UInt8 → List UInt8
  | _, [] => []
  | ended, c :: cs => (if ended then 0 else c) :: cutName (ended || (if ended then 0 else c) == 0) cs

theorem takeWhile_cutName_ended : ∀ cs : List UInt8, (cutName true cs).takeWhile (· ≠ 0) = []
  | [] => rfl
  | _ :: _ => by simp [cutName]

theorem takeWhile_cutName : ∀ cs : List UInt8, (cutName false cs).takeWhile (· ≠ 0) = cs.takeWhile (· ≠ 0)
  | [] => rfl
  | c :: cs => by
    by_cases hc : c = 0
    · simp [cutName, hc]
    · have hcs := takeWhile_cutName cs
      have hended : (c == 0) = false := by simpa using hc
      simpa [cutName, hc, hended] using hcs

theorem map_copyFaultTask (name : Nat → UInt8) (n : Nat) : ∀ (i : Nat) (ended : Bool) (r : Regs),
    (List.range' (12 + i) n).map ((copyFaultTask name n i ended).run r).2 = cutName ended ((List.range' i n).map name) := by
  induction n with
  | zero => intro i ended r; rfl
  | succ n ih =>
    intro i ended r
    have hnext := ih (i + 1) (ended || (if ended then 0 else name i) == 0)
      (Function.update r (12 + i) (if ended then 0 else name i))
    -- the rest of the copy leaves the byte just stored alone
    have hkept := cuts_of_keeps (keeps_copyFaultTask name (o := 12 + i) (if ended then 0 else name i) n (i + 1)
      (ended || (if ended then 0 else name i) == 0) (by omega))
      (s := Function.update r (12 + i) (if ended then 0 else name i)) (Function.update_self ..) _ (run_mem_cuts _ _)
    have hrun : (copyFaultTask name (n + 1) i ended).run r =
        (copyFaultTask name n (i + 1) (ended || (if ended then 0 else name i) == 0)).run
          (Function.update r (12 + i) (if ended then 0 else name i)) := rfl
    rw [hrun, List.range'_succ, List.range'_succ, List.map_cons, List.map_cons, cutName, hkept]
    exact congrArg _ hnext

/-- A recorded fault reads back as itself, whatever the block held before. -/
theorem getFaultTask_recordFault (phase : BootPhase) (taskName : Option (Nat → UInt8)) (r : Regs) :
    getFaultTask ((recordFault phase taskName).run r).2 = faultName taskName := by
  have hmap : (List.range' offsetFaultTask faultTaskLen).map ((recordFault phase taskName).run r).2 =
      cutName taskName.isNone ((List.range' 0 faultTaskLen).map (taskName.getD fun _ => 0)) := by
    rw [← map_copyFaultTask _ faultTaskLen 0 taskName.isNone r]
    apply List.map_congr_left
    intro o ho
    have := (List.mem_range'_1.1 ho).1
    simp only [offsetFaultTask] at this
    rw [recordFault_eq, run_bind, setPhase, run_writeByte _ _ _ (by omega), if_neg (by simp only [offsetPhase]; omega)]
  unfold getFaultTask
  rw [isValid_recordFault, if_pos rfl, hmap]
  cases taskName with
  | none => exact congrArg _ (takeWhile_cutName_ended _)
  | some name => exact congrArg _ (takeWhile_cutName _)

theorem BootPhase.ofByte_toByte {phase : BootPhase} (h : ∀ raw, phase ≠ .unnamed raw) :
    BootPhase.ofByte phase.toByte = phase := by
  cases phase with
  | unnamed raw => exact absurd rfl (h raw)
  | _ => rfl

/-! ## What a phase byte claims -/

/-- Two valid blocks that differ at most in magic and checksum are the same. -/
theorem eq_of_valid {p q : Regs} (hp : isValid p = true) (hq : isValid q = true)
    (h : ∀ o, o ≠ 4 → o ≠ 5 → p o = q o) : p = q := by
  have hsum : computeChecksum p = computeChecksum q :=
    computeChecksum_congr fun o h6 _ => h o (by omega) (by omega)
  simp only [isValid, Bool.and_eq_true, beq_iff_eq] at hp hq
  funext o
  by_cases h4 : o = 4
  · subst h4
    exact hp.1.trans hq.1.symm
  · by_cases h5 : o = 5
    · subst h5
      exact (hp.2.trans hsum).trans hq.2.symm
    · exact h o h4 h5

/-- A record cut past its phase is complete as soon as the block reads as valid. -/
theorem recordFault_complete {phase : BootPhase} {taskName : Option (Nat → UInt8)} {r : Regs} {k : Nat} (hk : 16 ≤ k)
    (hv : isValid ((recordFault phase taskName).upTo k r) = true) :
    (recordFault phase taskName).upTo k r = ((recordFault phase taskName).run r).2 := by
  apply eq_of_valid hv (isValid_recordFault phase taskName r)
  have hlen := length_points_copyFaultTask (taskName.getD fun _ => 0) faultTaskLen 0 taskName.isNone r
  obtain ⟨j, rfl⟩ := Nat.exists_eq_add_of_le' hk
  have hsplit : j + 16 = ((copyFaultTask (taskName.getD fun _ => 0) faultTaskLen 0 taskName.isNone).points r).length +
      (j + 1) := by
    rw [hlen, faultTaskLen]
    omega
  rw [recordFault_eq, hsplit, upTo_bind_add, run_bind]
  generalize ((copyFaultTask (taskName.getD fun _ => 0) faultTaskLen 0 taskName.isNone).run r).2 = copied
  intro o h4 h5
  -- both are cuts of the end of the write, behind the phase
  have hcut : (setPhase phase).upTo (j + 1) copied = refresh.upTo j (Function.update copied 9 phase.toByte) := rfl
  have hrun : ((setPhase phase).run copied).2 = (refresh.run (Function.update copied 9 phase.toByte)).2 := rfl
  rw [hcut, hrun, cuts_refresh (upTo_mem_cuts j _ _) h4 h5, cuts_refresh (run_mem_cuts _ _) h4 h5]

/-- A running boot has reached the start or a milestone. -/
def Progress.Steady (g : Progress) : Prop := g.reached = .start ∨ g.reached.isMilestone = true

theorem Progress.Steady.within {g : Progress} (hg : g.Steady) {w : Write} (hw : w.Proper) (k : Nat) :
    (g.within k w).Steady := by
  cases w with
  | milestone phase =>
    simp only [Progress.within]
    split
    · exact Or.inr hw
    · exact hg
  | pass => exact hg
  | reboot => exact hg

/-- What the byte of a boot in progress reads as. -/
theorem ofByte_byte {g : Progress} (h : ∀ raw, g.reached ≠ .unnamed raw) :
    BootPhase.ofByte g.byte = if g.wiped then .start else g.reached := by
  unfold Progress.byte
  split
  · rfl
  · exact BootPhase.ofByte_toByte h

theorem named_of_isMilestone {phase : BootPhase} (h : phase.isMilestone = true) :
    phase.isFault = false ∧ ∀ raw, phase ≠ .unnamed raw := by
  cases phase with
  | unnamed raw => cases h
  | stackOverflowFault => cases h
  | mallocFailedFault => cases h
  | _ => exact ⟨rfl, fun raw hraw => by cases hraw⟩

theorem Progress.Steady.named {g : Progress} (hg : g.Steady) : g.reached.isFault = false ∧ ∀ raw, g.reached ≠ .unnamed raw := by
  rcases hg with h | h
  · rw [h]
    exact ⟨rfl, fun raw hraw => by cases hraw⟩
  · exact named_of_isMilestone h

theorem named_of_isFault {phase : BootPhase} (h : phase.isFault = true) : ∀ raw, phase ≠ .unnamed raw := by
  rintro raw rfl
  cases h

/-- A boot that runs has stored no fault phase. -/
theorem steady_run {regs : Regs} {status : ResetStatus} {es : List Moment} {b : Board} (hproper : ∀ m ∈ es, m.Proper)
    (h : (Board.off regs status).runAt es = some b) (hrun : b.running.isSome = true) : (progress es).Steady := by
  induction es using List.reverseRecOn generalizing b with
  | nil => exact Or.inl rfl
  | append_singleton es m ih =>
    obtain ⟨b₁, h₁, hm⟩ := Runs.run_concat.1 h
    have hes : ∀ m ∈ es, m.Proper := fun m hm => hproper m (List.mem_append_left _ hm)
    have hmp : m.Proper := hproper m (List.mem_append_right _ (List.mem_singleton_self m))
    rw [progress_concat]
    cases m with
    | boot => exact Or.inl rfl
    | write w =>
      obtain ⟨r, k, hrun₁, -, hw⟩ := next_write hm
      rw [Progress.next, hw]
      exact (ih hes h₁ (by rw [hrun₁]; rfl)).within hmp k
    | wait ms =>
      change b₁.step (.wait ms) = some b at hm
      cases hrun₁ : b₁.running with
      | none => simp [Board.step, hrun₁] at hm
      | some r => exact ih hes h₁ (by rw [hrun₁]; rfl)
    | nvicReset =>
      change b₁.step .nvicReset = some b at hm
      simp only [Board.step] at hm
      split at hm
      · cases hm
        cases hrun
      · cases hm
    | ended spot how =>
      obtain ⟨r, -, -, rfl⟩ := next_ended hm
      cases hrun

/-! ## What the next boot finds -/

theorem setup_previous (status : ResetStatus) (r : Regs) :
    ((setup status).run r).1.previousBootPhase = getPhase r ∧
      ((setup status).run r).1.previousFaultTask = getFaultTask r ∧
        ((setup status).run r).1.previousResetReason = foundReason r status := by
  simp only [setup, run_bind, run_get, run_pure]
  refine ⟨trivial, trivial, ?_⟩
  by_cases hv : isValid r = true <;> simp [foundReason, hv]

theorem foundReason_valid {r : Regs} (hv : isValid r = true) (status : ResetStatus) :
    foundReason r status ≠ .backupStateInvalid := by
  simp only [foundReason, hv, if_true, decodeAndClearResetReason]
  split_ifs <;> simp

theorem printable_ne_zero (c : UInt8) : printable c ≠ 0 := by
  unfold printable
  split
  · rename_i h
    rintro rfl
    exact absurd h.1 (by decide)
  · decide

theorem faultName_spec (taskName : Option (Nat → UInt8)) : (∀ c ∈ faultName taskName, c ≠ 0) ∧ (faultName taskName).length ≤ 15 := by
  cases taskName with
  | none => exact ⟨by simp [faultName], by simp [faultName]⟩
  | some name =>
    constructor
    · intro c hc
      obtain ⟨b, -, rfl⟩ := List.mem_map.1 hc
      exact printable_ne_zero b
    · have hle := ((List.takeWhile_prefix (p := (· ≠ 0)) (l := (List.range' 0 faultTaskLen).map name))).length_le
      simpa [faultName, faultTaskLen] using hle

theorem rstRecords_preamble (o : Opening) {r : LogRst} (h : r ∈ rstRecords (writeLogPreamble o)) :
    r.phase = o.boot.previousBootPhase.toByte ∧ r.task =
      if o.boot.previousBootPhase = .stackOverflowFault ∨ o.boot.previousBootPhase = .mallocFailedFault then
        Log.strncpy 16 o.boot.previousFaultTask else chars 16 [] := by
  change r ∈ [_] at h
  obtain rfl := List.mem_singleton.1 h
  exact ⟨rfl, rfl⟩

theorem strncpy_whole {w : Nat} {src : List UInt8} (hchars : ∀ c ∈ src, c ≠ 0) : Log.strncpy w src = chars w src := by
  rw [Log.strncpy, List.takeWhile_eq_self_iff.2 fun c hc => by simpa using hchars c hc]

theorem isFault_iff {phase : BootPhase} : phase.isFault = true ↔ phase = .stackOverflowFault ∨ phase = .mallocFailedFault := by
  cases phase <;> simp [BootPhase.isFault]

theorem faultText_isSome (phase : BootPhase) : (faultText phase).isSome = phase.isFault := by
  cases phase <;> rfl

/-- The reports of a boot that captured a fault phase, a name it can print and a valid block. -/
theorem reportsFault {info : BootInfo} (hfault : info.previousBootPhase.isFault = true)
    (hreason : info.previousResetReason ≠ .backupStateInvalid) {taskName : Option (Nat → UInt8)}
    (htask : info.previousFaultTask = faultName taskName) :
    ReportsFault info info.previousBootPhase (faultName taskName) := by
  obtain ⟨hchars, hlen⟩ := faultName_spec taskName
  have hsome := hfault
  rw [← faultText_isSome] at hsome
  obtain ⟨fault, hfaultText⟩ := Option.isSome_iff_exists.1 hsome
  obtain ⟨htext, hle⟩ := Link.buildBootStatement_fault hfaultText hreason (by rw [htask]; exact hchars)
    (by rw [htask]; exact hlen)
  rw [htask] at htext
  refine ⟨⟨fault, hfaultText, htext⟩, ?_, by omega, ?_⟩
  · refine congrArg (fun text => Link.LinkMsg.statusText ⟨severityCritical, text⟩) (strncpy_whole ?_)
    rw [htext]
    intro c hc
    rcases List.mem_append.1 hc with hc | hc
    · rcases List.mem_append.1 hc with hc | hc
      · rcases List.mem_append.1 hc with hc | hc
        · exact Link.forall_ne_zero (by decide) c hc
        · exact (Link.resetReasonText_spec _).1 c hc
      · exact (Link.faultText_spec hfaultText).1 c hc
    · exact hchars c hc
  · rintro o rfl r hr
    obtain ⟨hphase, htask'⟩ := rstRecords_preamble o hr
    refine ⟨hphase, ?_, by omega⟩
    rw [htask', if_pos (isFault_iff.1 hfault), htask, strncpy_whole hchars]

theorem reportsNoFault {info : BootInfo} (hfault : info.previousBootPhase.isFault = false)
    (hnamed : ∀ raw, info.previousBootPhase ≠ .unnamed raw) : ReportsNoFault info := by
  have hnone : faultText info.previousBootPhase = none := by
    rw [← Option.isNone_iff_eq_none, ← Option.not_isSome, faultText_isSome, hfault]
    rfl
  refine ⟨?_, ?_⟩
  · rw [Link.buildBootStatement_phase hnone]
    exact Link.not_namesFault_phase hnone
  · rintro o rfl r hr
    obtain ⟨hphase, htask⟩ := rstRecords_preamble o hr
    rw [hphase, BootPhase.ofByte_toByte hnamed]
    refine ⟨hfault, ?_⟩
    rw [htask, if_neg]
    rw [← isFault_iff, hfault]
    exact Bool.false_ne_true

/-- In a fault hook with its record complete, that record is what the end leaves. -/
theorem regs_inHook {b b' : Board} {m : Moment} {phase : BootPhase} {taskName : Option (Nat → UInt8)}
    (h : b.next m = some b') (hhook : m.InHook b phase taskName) :
    ∃ r : Regs, b'.regs = ((recordFault phase taskName).run r).2 := by
  cases m with
  | ended spot how =>
    obtain ⟨run, hrun, -, rfl⟩ := next_ended h
    cases how with
    | hook p name =>
      obtain ⟨rfl, rfl⟩ := hhook
      exact ⟨_, rfl⟩
    | hookCut p name k cause =>
      obtain ⟨rfl, rfl, run', hrun', hcomplete⟩ := hhook
      obtain rfl : run = run' := Option.some.inj (hrun.symm.trans hrun')
      exact ⟨_, hcomplete⟩
    | hardware cause => exact hhook.elim
    | software => exact hhook.elim
  | boot => exact hhook.elim
  | write w => exact hhook.elim
  | wait ms => exact hhook.elim
  | nvicReset => exact hhook.elim

/-- Ended in any other way, the block is lost or holds the phase of a boot without a fault. -/
theorem steady_end {regs : Regs} {status : ResetStatus} {es : List Moment} {m : Moment} {b b' : Board}
    (hproper : ∀ m' ∈ es ++ [m], m'.Proper) (hrun : (Board.off regs status).runAt es = some b)
    (hends : m.ends = true) (h : b.next m = some b') (hhook : ∀ phase taskName, ¬ m.InHook b phase taskName)
    (hv : isValid b'.regs = true) : (progress (es ++ [m])).Steady := by
  have hes : ∀ m' ∈ es, m'.Proper := fun m' hm' => hproper m' (List.mem_append_left _ hm')
  rw [progress_concat]
  cases m with
  | boot => cases hends
  | write w => cases hends
  | wait ms => cases hends
  | nvicReset =>
    change b.step .nvicReset = some b' at h
    simp only [Board.step] at h
    split at h
    · rename_i hr
      exact steady_run hes hrun (by rw [hr]; rfl)
    · cases h
  | ended spot how =>
    obtain ⟨run, hr, -, rfl⟩ := next_ended h
    have hg := steady_run hes hrun (by rw [hr]; rfl)
    have hspot : ((progress es).spot spot).Steady := by
      cases spot with
      | between => exact hg
      | within w k => exact hg.within (hproper _ (List.mem_append_right _ (List.mem_singleton_self _))).1 k
    cases how with
    | hardware cause => exact hspot
    | software => exact hspot
    | hook phase taskName => exact (hhook phase taskName ⟨rfl, rfl⟩).elim
    | hookCut phase taskName k cause =>
      simp only [Progress.next, Progress.ending]
      split
      · rename_i hk
        exact (hhook phase taskName ⟨rfl, rfl, run, hr, recordFault_complete hk hv⟩).elim
      · exact hspot

/-! ## A fault is reported once -/

theorem isFault_inHook {b : Board} {m : Moment} {phase : BootPhase} {taskName : Option (Nat → UInt8)} (hproper : m.Proper)
    (h : m.InHook b phase taskName) : phase.isFault = true := by
  cases m with
  | ended spot how =>
    cases how with
    | hook p name => obtain ⟨rfl, -⟩ := h; exact hproper.2
    | hookCut p name k cause => obtain ⟨rfl, -⟩ := h; exact hproper.2
    | hardware cause => exact h.elim
    | software => exact h.elim
  | boot => exact h.elim
  | write w => exact h.elim
  | wait ms => exact h.elim
  | nvicReset => exact h.elim

/-- The boot behind a fault hook reports its fault. -/
theorem reportsFault_next {b b₁ : Board} {m : Moment} (hproper : m.Proper) (hm : b.next m = some b₁) {phase : BootPhase}
    {taskName : Option (Nat → UInt8)} (h : m.InHook b phase taskName) :
    ReportsFault ((setup b₁.status).run b₁.regs).1 phase (faultName taskName) := by
  obtain ⟨hphase, htask, hreason⟩ := setup_previous b₁.status b₁.regs
  generalize ((setup b₁.status).run b₁.regs).1 = info at hphase htask hreason ⊢
  obtain ⟨r, hr⟩ := regs_inHook hm h
  have hv : isValid b₁.regs = true := by rw [hr]; exact isValid_recordFault phase taskName r
  have hfault := isFault_inHook hproper h
  have hgot : info.previousBootPhase = phase := by
    rw [hphase, getPhase, if_pos hv, hr]
    change BootPhase.ofByte (((recordFault phase taskName).run r).2 9) = phase
    rw [run_recordFault_phase, BootPhase.ofByte_toByte (named_of_isFault hfault)]
  have hreport : ReportsFault info info.previousBootPhase (faultName taskName) := by
    apply reportsFault
    · rw [hgot]
      exact hfault
    · rw [hreason]
      exact foundReason_valid hv _
    · rw [htask, hr]
      exact getFaultTask_recordFault phase taskName r
  rw [hgot] at hreport
  exact hreport

/-- Behind any other end no fault is reported, new or old. -/
theorem reportsNoFault_next {regs : Regs} {status : ResetStatus} {es : List Moment} {m : Moment} {b b₁ : Board}
    (hproper : ∀ m' ∈ es ++ [m], m'.Proper) (hrun : (Board.off regs status).runAt es = some b) (hends : m.ends = true)
    (hm : b.next m = some b₁) (h : ∀ phase taskName, ¬ m.InHook b phase taskName) :
    ReportsNoFault ((setup b₁.status).run b₁.regs).1 := by
  obtain ⟨hphase, -, -⟩ := setup_previous b₁.status b₁.regs
  generalize ((setup b₁.status).run b₁.regs).1 = info at hphase ⊢
  cases hv : isValid b₁.regs with
  | false =>
    have hstart : info.previousBootPhase = .start := by rw [hphase]; simp [getPhase, hv]
    exact reportsNoFault (by rw [hstart]; rfl) fun raw hraw => by rw [hstart] at hraw; cases hraw
  | true =>
    obtain ⟨hnot, hnamed⟩ := (steady_end hproper hrun hends hm h hv).named
    have hbyte := phase_end (Runs.run_concat.2 ⟨b, hrun, hm⟩)
    have hgot : info.previousBootPhase = if (progress (es ++ [m])).wiped then .start else (progress (es ++ [m])).reached := by
      rw [hphase, getPhase, if_pos hv, offsetPhase, hbyte, ofByte_byte hnamed]
    apply reportsNoFault
    · rw [hgot]
      split
      · rfl
      · exact hnot
    · intro raw
      rw [hgot]
      split
      · intro hraw
        cases hraw
      · exact hnamed raw

/-- Over any boots, each ended at any point past its `setPhase(Start)`: the boot that follows speaks
of a fault exactly if a fault hook ended the one before, and then of that fault and that task. -/
theorem fault_reported_once (regs : Regs) (status : ResetStatus) (es : List Moment) (m : Moment) (b b₁ b' : Board)
    (hproper : ∀ m' ∈ es ++ [m], m'.Proper) (hrun : (Board.off regs status).runAt es = some b) (hends : m.ends = true)
    (hm : b.next m = some b₁) (hboot : b₁.next .boot = some b') :
    ∃ r, b'.running = some r ∧
      (NamesFault (buildBootStatement r.info) ↔ ∃ phase taskName, m.InHook b phase taskName) ∧
      (∀ phase taskName, m.InHook b phase taskName → ReportsFault r.info phase (faultName taskName)) ∧
      ((∀ phase taskName, ¬ m.InHook b phase taskName) → ReportsNoFault r.info) := by
  obtain ⟨-, -, -, hrunning⟩ := next_boot hboot
  have hlast : m.Proper := hproper m (List.mem_append_right _ (List.mem_singleton_self m))
  have hhook : ∀ phase taskName, m.InHook b phase taskName →
      ReportsFault ((setup b₁.status).run b₁.regs).1 phase (faultName taskName) :=
    fun phase taskName => reportsFault_next hlast hm
  have hother := reportsNoFault_next hproper hrun hends hm
  refine ⟨_, hrunning, ?_, hhook, hother⟩
  constructor
  · intro hnames
    by_contra hno
    push Not at hno
    exact (hother hno).statement hnames
  · rintro ⟨phase, taskName, h⟩
    obtain ⟨fault, hfault, htext⟩ := (hhook phase taskName h).statement
    rw [htext]
    exact Link.namesFault_of_faultText hfault _ _

/-- The logger's task, named in memory that goes on behind the name. -/
def loggerName : Option (Nat → UInt8) := some fun i => (ascii "Logger").getD i 0

theorem fault_reported_once_logger : ∃ b b₁ b' r, (Board.off (fun _ => 0) {}).runAt
      [.boot, .write (.milestone .linkDone)] = some b ∧
    b.next (.ended .between (.hook .stackOverflowFault loggerName)) = some b₁ ∧ b₁.next .boot = some b' ∧
      b'.running = some r ∧ ReportsFault r.info .stackOverflowFault (ascii "Logger") := by
  have hsome : ((Board.off (fun _ => 0) {}).runAt (([.boot, .write (.milestone .linkDone)] ++
      [.ended .between (.hook .stackOverflowFault loggerName)]) ++ [.boot])).isSome = true := by decide +kernel
  obtain ⟨b', h⟩ := Option.isSome_iff_exists.1 hsome
  obtain ⟨b₁, h₁, hboot⟩ := Runs.run_concat.1 h
  obtain ⟨b, hrun, hm⟩ := Runs.run_concat.1 h₁
  have hproper : ∀ m' ∈ ([.boot, .write (.milestone .linkDone)] ++
      [.ended .between (.hook .stackOverflowFault loggerName)] : List Moment), m'.Proper := by
    simp [Moment.Proper, Write.Proper, BootPhase.isMilestone, BootPhase.isFault]
  obtain ⟨r, hr, -, hhook, -⟩ := fault_reported_once _ _ _ _ b b₁ b' hproper hrun rfl hm hboot
  have hname : faultName loggerName = ascii "Logger" := by decide +kernel
  refine ⟨b, b₁, b', r, hrun, hm, hboot, hr, ?_⟩
  rw [← hname]
  exact hhook _ _ ⟨rfl, rfl⟩

/-! ## How far the boot before got -/

/-- The heartbeat, the boot statement and every RST record tell this phase. -/
structure ReportsPhase (info : BootInfo) (phase : BootPhase) : Prop where
  captured : info.previousBootPhase = phase
  heartbeat : ∀ regs, (packCustomMode info regs >>> 8).toUInt8 = phase.toByte
  statement : match faultText phase with
    | some fault => ∃ task, buildBootStatement info = ascii "Reset: " ++ resetReasonText info.previousResetReason ++ fault ++ task
    | none => buildBootStatement info =
      ascii "Reset: " ++ resetReasonText info.previousResetReason ++ ascii ", phase " ++ bootPhaseText phase
  rst : ∀ o : Opening, o.boot = info → ∀ r ∈ rstRecords (writeLogPreamble o), r.phase = phase.toByte

/-- The phase is the second byte of `custom_mode`. -/
theorem packCustomMode_phase (info : BootInfo) (regs : Regs) :
    (packCustomMode info regs >>> 8).toUInt8 = info.previousBootPhase.toByte := by
  unfold packCustomMode
  generalize info.previousResetReason.toByte = reason
  generalize info.previousBootPhase.toByte = phase
  generalize min (getConsecutiveCount regs) consecutiveThreshold = consecutive
  generalize min (getCumulativeCount regs) cumulativeThreshold = cumulative
  apply UInt8.toBitVec_inj.1
  ext i hi
  have h16 : 8 + i < 16 := by omega
  have h24 : 8 + i < 24 := by omega
  have h32 : 8 + i < 32 := by omega
  simp [h16, h24, h32, BitVec.getLsbD_eq_getElem hi]

theorem reportsPhase {info : BootInfo} {phase : BootPhase} (h : info.previousBootPhase = phase)
    (hreason : phase.isFault = true → info.previousResetReason ≠ .backupStateInvalid ∧
      ∃ taskName, info.previousFaultTask = faultName taskName) : ReportsPhase info phase := by
  subst h
  refine ⟨rfl, packCustomMode_phase info, ?_, ?_⟩
  · cases hfault : faultText info.previousBootPhase with
    | some fault =>
      have hsome : info.previousBootPhase.isFault = true := by rw [← faultText_isSome, hfault]; rfl
      obtain ⟨hvalid, taskName, htask⟩ := hreason hsome
      obtain ⟨fault', hfault', htext⟩ := (reportsFault hsome hvalid htask).statement
      obtain rfl : fault = fault' := Option.some.inj (hfault.symm.trans hfault')
      exact ⟨_, htext⟩
    | none => exact Link.buildBootStatement_phase hfault
  · rintro o rfl r hr
    exact (rstRecords_preamble o hr).1

theorem getFaultTask_eq {r : Regs} (hv : isValid r = true) : getFaultTask r = faultName (some fun i => r (12 + i)) := by
  simp only [getFaultTask, hv, if_true]
  rfl

/-- Whatever ended the boot, the phase it reached is one of those the firmware stores. -/
theorem named_end {regs : Regs} {status : ResetStatus} {es : List Moment} {m : Moment} {b b' : Board}
    (hproper : ∀ m' ∈ es ++ [m], m'.Proper) (hrun : (Board.off regs status).runAt es = some b)
    (h : b.next m = some b') (hv : isValid b'.regs = true) (hends : m.ends = true) :
    ∀ raw, (progress (es ++ [m])).reached ≠ .unnamed raw := by
  by_cases hhook : ∃ phase taskName, m.InHook b phase taskName
  · obtain ⟨phase, taskName, hhook⟩ := hhook
    have hp := hproper m (List.mem_append_right _ (List.mem_singleton_self m))
    rw [progress_concat]
    cases m with
    | ended spot how =>
      cases how with
      | hook p name => exact named_of_isFault hp.2
      | hookCut p name k cause =>
        simp only [Progress.next, Progress.ending]
        split
        · exact named_of_isFault hp.2
        · obtain ⟨run, hr, -⟩ := next_ended h
          have hg := steady_run (fun m' hm' => hproper m' (List.mem_append_left _ hm')) hrun (by rw [hr]; rfl)
          cases spot with
          | between => exact hg.named.2
          | within w k => exact (hg.within hp.1 k).named.2
      | hardware cause => exact hhook.elim
      | software => exact hhook.elim
    | boot => exact hhook.elim
    | write w => exact hhook.elim
    | wait ms => exact hhook.elim
    | nvicReset => exact hhook.elim
  · push Not at hhook
    exact (steady_end hproper hrun hends h hhook hv).named.2

/-- With the block valid, the boot that follows reports the last milestone or fault phase the one
before stored, or the start if the reboot command had zeroed it. -/
theorem reported_phase (regs : Regs) (status : ResetStatus) (es : List Moment) (m : Moment) (b b₁ b' : Board)
    (hproper : ∀ m' ∈ es ++ [m], m'.Proper) (hrun : (Board.off regs status).runAt es = some b) (hends : m.ends = true)
    (hm : b.next m = some b₁) (hvalid : isValid b₁.regs = true) (hboot : b₁.next .boot = some b') :
    ∃ r, b'.running = some r ∧ ReportsPhase r.info
      (if (progress (es ++ [m])).wiped then .start else (progress (es ++ [m])).reached) := by
  obtain ⟨-, -, -, hrunning⟩ := next_boot hboot
  obtain ⟨hphase, htask, hreason⟩ := setup_previous b₁.status b₁.regs
  refine ⟨_, hrunning, reportsPhase ?_ fun _ => ⟨?_, some fun i => b₁.regs (12 + i), ?_⟩⟩
  · have hbyte := phase_end (Runs.run_concat.2 ⟨b, hrun, hm⟩)
    rw [hphase, getPhase, if_pos hvalid, offsetPhase, hbyte, ofByte_byte (named_end hproper hrun hm hvalid hends)]
  · rw [hreason]
    exact foundReason_valid hvalid _
  · rw [htask]
    exact getFaultTask_eq hvalid

/-- `setup()`'s milestones in order. -/
def milestones : List Moment :=
  [BootPhase.linkDone, .clockDone, .cardDone, .queuesDone, .tasksDone, .schedulerStarted].map fun p => .write (.milestone p)

theorem reported_phase_watchdog : ∃ b b₁ b' r, (Board.off (fun _ => 0) {}).runAt (.boot :: milestones) = some b ∧
    b.next (.ended .between (.hardware .watchdog)) = some b₁ ∧ b₁.next .boot = some b' ∧ b'.running = some r ∧
      ReportsPhase r.info .schedulerStarted := by
  have hsome : ((Board.off (fun _ => 0) {}).runAt ((.boot :: milestones) ++
      [.ended .between (.hardware .watchdog)])).map (fun b => (isValid b.regs, b.running.isNone)) = some (true, true) := by
    decide +kernel
  obtain ⟨b₁, h₁, hvalid⟩ := Option.map_eq_some_iff.1 hsome
  obtain ⟨b, hrun, hm⟩ := Runs.run_concat.1 h₁
  have hoff : b₁.running = none := Option.isNone_iff_eq_none.1 (Prod.mk.inj hvalid).2
  have hboot : ∃ b', b₁.next .boot = some b' := by
    change ∃ b', b₁.step .boot = some b'
    simp only [Board.step, hoff]
    exact ⟨_, rfl⟩
  obtain ⟨b', hboot⟩ := hboot
  have hproper : ∀ m' ∈ (.boot :: milestones) ++ [.ended .between (.hardware .watchdog)], m'.Proper := by
    simp [milestones, Moment.Proper, Write.Proper, BootPhase.isMilestone]
  obtain ⟨r, hr, hreport⟩ := reported_phase _ _ _ _ b b₁ b' hproper hrun rfl hm (Prod.mk.inj hvalid).1 hboot
  exact ⟨b, b₁, b', r, hrun, hm, hboot, hr, hreport⟩

/-- After the reboot command, a boot that had reached the scheduler reads as one that stopped at the
start. -/
theorem reboot_reports_start : (progress (.boot :: milestones ++ [.write .reboot, .nvicReset])).reached = .schedulerStarted ∧
    ((Board.off (fun _ => 0) {}).runAt (.boot :: milestones ++ [.write .reboot, .nvicReset])).map
      (fun b => isValid b.regs) = some true ∧
    ((Board.off (fun _ => 0) {}).runAt (.boot :: milestones ++ [.write .reboot, .nvicReset, .boot])).bind
      (fun b => b.running.map fun r => r.info.previousBootPhase) = some .start := by
  decide +kernel

end BoredomOS.Recovery
