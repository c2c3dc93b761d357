/-
Writes of the recovery block cut short by a reset. A byte write and a fault record leave the old
block, the new one, or one the checksum rejects. `reinitialise()` is weaker: while it zeroes, the
sum is what it was whenever the bytes zeroed so far added up to nothing, and the block then reads as
neither the old one nor the new one.
-/
import BoredomOS.Recovery.Block

namespace BoredomOS.Recovery

open Steps Steps.Prog

/-! ## What the next boot reads -/

/-- One of the two markers of the fault hooks. -/
def BootPhase.isFault : BootPhase → Bool
  | .stackOverflowFault | .mallocFailedFault => true
  | _ => false

/-- The fault task is read only behind a fault phase. -/
structure Reading where
  consecutiveCount : UInt8
  cumulativeCount : UInt8
  cumulativeSnapshot : UInt8
  phase : BootPhase
  reason : ResetReason
  deliberateReset : DeliberateReset
  faultTask : Option (List UInt8)
  deriving DecidableEq, Repr

def reading (regs : Regs) : Reading where
  consecutiveCount := getConsecutiveCount regs
  cumulativeCount := getCumulativeCount regs
  cumulativeSnapshot := getCumulativeSnapshot regs
  phase := getPhase regs
  reason := getReason regs
  deliberateReset := storedMarker regs
  faultTask := if (getPhase regs).isFault then some (getFaultTask regs) else none

/-- The three ways the firmware writes the block. -/
inductive BlockWrite
  | writeByte (offset : Nat) (value : UInt8)
  | recordFault (phase : BootPhase) (taskName : Option (Nat → UInt8))
  | reinitialise

def BlockWrite.prog : BlockWrite → Prog Regs Unit
  | .writeByte offset value => Recovery.writeByte offset value
  | .recordFault phase taskName => Recovery.recordFault phase taskName
  | .reinitialise => Recovery.reinitialise

/-- The blocks a write is started from: valid ones, and a fault hook runs at most once in a boot. -/
def BlockWrite.Starts (regs : Regs) : BlockWrite → Prop
  | .writeByte offset _ => isValid regs = true ∧ 6 ≤ offset ∧ offset ≤ 26
  | .recordFault _ _ => isValid regs = true ∧ (getPhase regs).isFault = false
  | .reinitialise => isValid regs = true

/-- Wherever the write is cut short, the block is rejected, or reads as before or as after the
write, and the bootloader's bytes are as they were. -/
def NeverBelieved (w : BlockWrite) (regs : Regs) : Prop :=
  ∀ p ∈ w.prog.cuts regs,
    (isValid p = false ∨ reading p = reading regs ∨ reading p = reading (w.prog.run regs).2) ∧ ∀ o < 4, p o = regs o

/-- The sum of the first `k` covered bytes. -/
def partialSum (regs : Regs) (k : Nat) : UInt8 :=
  (List.range' offsetConsecutiveCount k).foldl (fun sum offset => sum + regs offset) 0

/-- Where the first few of the counts and markers sum to nothing, they are zeros, or the others are. -/
def NoFalseSum (regs : Regs) : Prop :=
  ∀ k < 6, partialSum regs k = 0 → (∀ i < k, regs (6 + i) = 0) ∨ ∀ i < 6 - k, regs (6 + k + i) = 0

instance (regs : Regs) : Decidable (NoFalseSum regs) := by unfold NoFalseSum; infer_instance

/-! ## Blocks that read alike -/

theorem BootPhase.toByte_ofByte (b : UInt8) : (BootPhase.ofByte b).toByte = b := by
  unfold BootPhase.ofByte
  repeat' split
  all_goals first | rfl | simp_all [BootPhase.toByte]

theorem ResetReason.toByte_ofByte (b : UInt8) : (ResetReason.ofByte b).toByte = b := by
  unfold ResetReason.ofByte
  repeat' split
  all_goals first | rfl | simp_all [ResetReason.toByte]

theorem DeliberateReset.toByte_ofByte (b : UInt8) : (DeliberateReset.ofByte b).toByte = b := by
  unfold DeliberateReset.ofByte
  repeat' split
  all_goals first | rfl | simp_all [DeliberateReset.toByte]

/-- Two valid blocks with the same counts and markers read alike, if the name is not read or is the
same. -/
theorem reading_congr {p q : Regs} (hp : isValid p = true) (hq : isValid q = true)
    (h : ∀ o, 6 ≤ o → o < 12 → p o = q o)
    (hname : (getPhase q).isFault = true → ∀ o, 12 ≤ o → o ≤ 26 → p o = q o) : reading p = reading q := by
  have hphase : getPhase p = getPhase q := by
    simp [getPhase, hp, hq, h offsetPhase (by decide) (by decide)]
  have htask : (if (getPhase p).isFault then some (getFaultTask p) else none) =
      if (getPhase q).isFault then some (getFaultTask q) else none := by
    rw [hphase]
    split
    · rename_i hfault
      have hmap : (List.range' offsetFaultTask faultTaskLen).map p = (List.range' offsetFaultTask faultTaskLen).map q := by
        apply List.map_congr_left
        intro o ho
        rw [List.mem_range'_1] at ho
        simp only [offsetFaultTask, faultTaskLen] at ho
        exact hname hfault o ho.1 (by omega)
      simp [getFaultTask, hp, hq, hmap]
    · rfl
  unfold reading
  rw [htask, hphase]
  simp [getConsecutiveCount, getCumulativeCount, getCumulativeSnapshot, getReason, storedMarker, hp, hq,
    h offsetConsecutiveCount (by decide) (by decide), h offsetCumulativeCount (by decide) (by decide),
    h offsetCumulativeSnapshot (by decide) (by decide), h offsetReason (by decide) (by decide),
    h offsetDeliberate (by decide) (by decide)]

/-- Two valid blocks that read alike have the same counts and markers. -/
theorem eq_of_reading {p q : Regs} (hp : isValid p = true) (hq : isValid q = true) (h : reading p = reading q) :
    ∀ o, 6 ≤ o → o < 12 → p o = q o := by
  have h6 := congrArg Reading.consecutiveCount h
  have h7 := congrArg Reading.cumulativeCount h
  have h8 := congrArg Reading.cumulativeSnapshot h
  have h9 := congrArg (fun v => v.phase.toByte) h
  have h10 := congrArg (fun v => v.reason.toByte) h
  have h11 := congrArg (fun v => v.deliberateReset.toByte) h
  simp only [reading, getConsecutiveCount, getCumulativeCount, getCumulativeSnapshot, getPhase, getReason, storedMarker,
    hp, hq, if_true, BootPhase.toByte_ofByte, ResetReason.toByte_ofByte, DeliberateReset.toByte_ofByte] at h6 h7 h8 h9 h10 h11
  intro o ho ho'
  obtain rfl | rfl | rfl | rfl | rfl | rfl : o = 6 ∨ o = 7 ∨ o = 8 ∨ o = 9 ∨ o = 10 ∨ o = 11 := by omega
  · exact h6
  · exact h7
  · exact h8
  · exact h9
  · exact h10
  · exact h11

/-! ## The bytes a write does not move -/

theorem keeps_poke {o off : Nat} (ho : off ≠ o) (v x : UInt8) : Keeps (fun p : Regs => p o = v) (poke off x) := by
  apply keeps_modify
  intro p hp
  rw [Function.update_of_ne (Ne.symm ho)]
  exact hp

theorem keeps_refresh {o : Nat} (h4 : o ≠ 4) (h5 : o ≠ 5) (v : UInt8) : Keeps (fun p : Regs => p o = v) refresh := by
  refine keeps_bind (keeps_get _) fun sum => keeps_bind (keeps_poke (Ne.symm h5) v sum) fun _ => ?_
  exact keeps_poke (Ne.symm h4) v _

theorem keeps_writeByte {o off : Nat} (h4 : o ≠ 4) (h5 : o ≠ 5) (ho : off ≠ o) (v x : UInt8) :
    Keeps (fun p : Regs => p o = v) (writeByte off x) :=
  keeps_bind (keeps_poke ho v x) fun _ => keeps_refresh h4 h5 v

theorem keeps_copyFaultTask (name : Nat → UInt8) {o : Nat} (v : UInt8) : ∀ (n i : Nat) (ended : Bool), o < 12 + i →
    Keeps (fun p : Regs => p o = v) (copyFaultTask name n i ended)
  | 0, _, _, _ => keeps_pure _
  | n + 1, i, ended, ho => by
    refine keeps_bind (keeps_poke ?_ v _) fun _ => keeps_copyFaultTask name v n (i + 1) _ (by omega)
    simp only [offsetFaultTask]
    omega

theorem keeps_zeroFrom {o : Nat} (v : UInt8) : ∀ (n off : Nat), o < off → Keeps (fun p : Regs => p o = v) (zeroFrom off n)
  | 0, _, _ => keeps_pure _
  | n + 1, off, ho => by
    refine keeps_bind (keeps_poke (by omega) v _) fun _ => keeps_zeroFrom v n (off + 1) (by omega)

/-! ## A byte and a fault record -/

theorem cuts_refresh {r p : Regs} (hp : p ∈ refresh.cuts r) {o : Nat} (h4 : o ≠ 4) (h5 : o ≠ 5) : p o = r o :=
  cuts_of_keeps (keeps_refresh h4 h5 (r o)) rfl p hp

/-- A block inside the end of a write is rejected or reads as after it. -/
theorem reading_refresh {r p : Regs} (hp : p ∈ refresh.cuts r) :
    isValid p = false ∨ reading p = reading (refresh.run r).2 := by
  cases hv : isValid p with
  | false => exact Or.inl rfl
  | true =>
    have hsame : ∀ o, 6 ≤ o → p o = (refresh.run r).2 o := by
      intro o ho
      rw [cuts_refresh hp (by omega) (by omega), (run_refresh r).2 o ho]
    exact Or.inr (reading_congr hv (run_refresh r).1 (fun o h6 _ => hsame o h6) fun _ o h12 _ => hsame o (by omega))

theorem never_believed_writeByte {r : Regs} {offset : Nat} {value : UInt8}
    (h : (BlockWrite.writeByte offset value).Starts r) : NeverBelieved (.writeByte offset value) r := by
  obtain ⟨-, h6, -⟩ := h
  intro p hp
  refine ⟨?_, fun o ho => cuts_of_keeps (keeps_writeByte (by omega) (by omega) (by omega) (r o) value) rfl p hp⟩
  simp only [BlockWrite.prog, writeByte, cuts_bind] at hp
  rcases List.mem_append.1 hp with hp | hp
  · -- nothing is stored yet
    obtain rfl : p = r := List.mem_singleton.1 hp
    exact Or.inr (Or.inl rfl)
  · rcases reading_refresh hp with hv | hr
    · exact Or.inl hv
    · exact Or.inr (Or.inr hr)

theorem never_believed_recordFault {r : Regs} {phase : BootPhase} {taskName : Option (Nat → UInt8)}
    (h : (BlockWrite.recordFault phase taskName).Starts r) : NeverBelieved (.recordFault phase taskName) r := by
  obtain ⟨hv, hphase⟩ := h
  intro p hp
  refine ⟨?_, fun o ho => cuts_of_keeps (m := recordFault phase taskName) (keeps_bind
    (keeps_copyFaultTask _ (r o) _ _ _ (by omega)) fun _ =>
      keeps_writeByte (by omega) (by omega) (by simp only [offsetPhase]; omega) (r o) _) rfl p hp⟩
  -- until the phase is stored, only the name has moved, and it is not read
  have before : (∀ o, o < 12 → p o = r o) → isValid p = false ∨ reading p = reading r := by
    intro hsame
    cases hpv : isValid p with
    | false => exact Or.inl rfl
    | true =>
      refine Or.inr (reading_congr hpv hv (fun o _ ho => hsame o ho) fun hfault => ?_)
      rw [hphase] at hfault
      cases hfault
  simp only [BlockWrite.prog, recordFault, cuts_bind] at hp
  have hcopy : ∀ o < 12, ∀ q ∈ (copyFaultTask (taskName.getD fun _ => 0) faultTaskLen 0 taskName.isNone).cuts r, q o = r o :=
    fun o ho => cuts_of_keeps (keeps_copyFaultTask _ (r o) _ _ _ ho) rfl
  rcases List.mem_append.1 hp with hp | hp
  · rcases before fun o ho => hcopy o ho p (mem_cuts_of_points hp) with hpv | hr
    · exact Or.inl hpv
    · exact Or.inr (Or.inl hr)
  rcases List.mem_append.1 hp with hp | hp
  · obtain rfl := List.mem_singleton.1 hp
    rcases before fun o ho => hcopy o ho _ (run_mem_cuts _ _) with hpv | hr
    · exact Or.inl hpv
    · exact Or.inr (Or.inl hr)
  · rcases reading_refresh hp with hpv | hr
    · exact Or.inl hpv
    · exact Or.inr (Or.inr hr)

/-! ## Zeroing -/

/-- The block with its first `k` covered bytes zeroed. -/
def zeroed (regs : Regs) (k : Nat) : Regs := fun o => if 6 ≤ o ∧ o < 6 + k then 0 else regs o

theorem points_zeroFrom (n : Nat) : ∀ (off : Nat) (r : Regs), (zeroFrom off n).points r =
    (List.range n).map fun k o => if off ≤ o ∧ o < off + k then 0 else r o := by
  induction n with
  | zero => intro off r; rfl
  | succ n ih =>
    intro off r
    have hstep : (zeroFrom off (n + 1)).points r = r :: (zeroFrom (off + 1) n).points (Function.update r off 0) := rfl
    rw [hstep, ih, List.range_succ_eq_map, List.map_cons, List.map_map]
    congr 1
    · funext o
      rw [if_neg (by omega)]
    · apply List.map_congr_left
      intro k _
      funext o
      simp only [Function.comp_apply, Function.update_apply]
      split_ifs <;> first | rfl | omega

theorem mem_points_zeroing {r p : Regs} :
    p ∈ (zeroFrom offsetConsecutiveCount (offsetLast + 1 - offsetConsecutiveCount)).points r ↔
      ∃ k < 21, p = zeroed r k := by
  rw [points_zeroFrom]
  simp only [List.mem_map, List.mem_range, offsetConsecutiveCount, offsetLast, offsetFaultTask, faultTaskLen, eq_comm]
  exact Iff.rfl

theorem foldl_sum_add (f : Nat → UInt8) : ∀ (l : List Nat) (a : UInt8),
    l.foldl (fun sum o => sum + f o) a = a + l.foldl (fun sum o => sum + f o) 0
  | [], a => by simp
  | o :: l, a => by
    simp only [List.foldl_cons]
    rw [foldl_sum_add f l (a + f o), foldl_sum_add f l (0 + f o), UInt8.zero_add, UInt8.add_assoc]

theorem partialSum_zeros {r : Regs} : ∀ {k : Nat}, (∀ o, 6 ≤ o → o < 6 + k → r o = 0) → partialSum r k = 0
  | 0, _ => rfl
  | k + 1, h => by
    have hk := partialSum_zeros (k := k) fun o h6 ho => h o h6 (by omega)
    unfold partialSum at hk ⊢
    rw [List.range'_concat, List.foldl_append, hk]
    simpa [offsetConsecutiveCount] using h (6 + k) (by omega) (by omega)

/-- Zeroing takes from the sum what was there. -/
theorem computeChecksum_zeroed (r : Regs) {k : Nat} (hk : k ≤ 21) :
    computeChecksum r = partialSum r k + computeChecksum (zeroed r k) := by
  have hsplit : covered = List.range' 6 k ++ List.range' (6 + k) (21 - k) := by
    rw [List.range'_append_1, Nat.add_sub_cancel' hk]
    rfl
  have hzero : partialSum (zeroed r k) k = 0 := partialSum_zeros fun o h6 ho => if_pos ⟨h6, ho⟩
  unfold computeChecksum
  rw [hsplit, List.foldl_append, List.foldl_append, foldl_sum_add _ _ (List.foldl _ 0 _)]
  unfold partialSum offsetConsecutiveCount at hzero ⊢
  rw [hzero]
  congr 1
  apply foldl_sum_congr
  intro o ho
  have := (List.mem_range'_1.1 ho).1
  exact (if_neg (by omega)).symm

theorem isValid_zeroed {r : Regs} (hv : isValid r = true) {k : Nat} (hk : k ≤ 21) :
    isValid (zeroed r k) = true ↔ partialSum r k = 0 := by
  have hsum := computeChecksum_zeroed r hk
  have h4 : zeroed r k offsetValidityMagic = r offsetValidityMagic := if_neg (by simp [offsetValidityMagic])
  have h5 : zeroed r k offsetChecksum = r offsetChecksum := if_neg (by simp [offsetChecksum])
  simp only [isValid, Bool.and_eq_true, beq_iff_eq] at hv ⊢
  rw [h4, h5, hv.2, hsum]
  constructor
  · rintro ⟨-, h⟩
    exact UInt8.add_eq_right.1 h
  · intro h
    rw [h]
    exact ⟨hv.1, UInt8.zero_add _⟩

/-- With counts and markers zero there is no name to read. -/
theorem reading_zeros {p q : Regs} (hp : isValid p = true) (hq : isValid q = true)
    (hp0 : ∀ o, 6 ≤ o → o < 12 → p o = 0) (hq0 : ∀ o, 6 ≤ o → o < 12 → q o = 0) : reading p = reading q := by
  apply reading_congr hp hq
  · intro o h6 ho
    rw [hp0 o h6 ho, hq0 o h6 ho]
  · intro hfault
    have h9 := hq0 offsetPhase (by decide) (by decide)
    simp [getPhase, hq, h9, BootPhase.ofByte, BootPhase.isFault] at hfault

theorem run_reinitialise_zeros (r : Regs) : ∀ o, 6 ≤ o → o < 12 → (reinitialise.run r).2 o = 0 := by
  intro o h6 ho
  have := field_reinitialise r h6 (show o ≤ 26 by omega)
  rwa [field_of_valid (isValid_reinitialise r)] at this

theorem zeroed_mem_cuts (r : Regs) {k : Nat} (hk : k < 21) : zeroed r k ∈ reinitialise.cuts r := by
  rw [reinitialise, cuts_bind]
  exact List.mem_append_left _ (mem_points_zeroing.2 ⟨k, hk, rfl⟩)

theorem cuts_reinitialise {r p : Regs} (hp : p ∈ reinitialise.cuts r) :
    (∃ k < 21, p = zeroed r k) ∨ ∀ o, 6 ≤ o → o < 12 → p o = 0 := by
  rw [reinitialise, cuts_bind] at hp
  rcases List.mem_append.1 hp with hp | hp
  · exact Or.inl (mem_points_zeroing.1 hp)
  · refine Or.inr fun o h6 ho => ?_
    rw [cuts_refresh hp (by omega) (by omega), run_zeroFrom]
    simp [offsetConsecutiveCount, offsetLast, offsetFaultTask, faultTaskLen, h6]
    omega

theorem never_believed_reinitialise {r : Regs} (hv : isValid r = true) (h : NoFalseSum r) :
    NeverBelieved .reinitialise r := by
  intro p hp
  refine ⟨?_, fun o ho => cuts_of_keeps (m := reinitialise) (keeps_bind
    (keeps_zeroFrom (r o) _ _ (by simp only [offsetConsecutiveCount]; omega)) fun _ =>
      keeps_refresh (by omega) (by omega) (r o)) rfl p hp⟩
  cases hpv : isValid p with
  | false => exact Or.inl rfl
  | true =>
    right
    have after : (∀ o, 6 ≤ o → o < 12 → p o = 0) → reading p = reading (BlockWrite.reinitialise.prog.run r).2 :=
      fun hp0 => reading_zeros hpv (isValid_reinitialise r) hp0 (run_reinitialise_zeros r)
    rcases cuts_reinitialise hp with ⟨k, hk, rfl⟩ | hp0
    · by_cases hk6 : k < 6
      · have hsum := (isValid_zeroed hv (by omega)).1 hpv
        rcases h k hk6 hsum with hzero | hrest
        · -- nothing was there to zero
          left
          congr 1
          funext o
          unfold zeroed
          split
          · rename_i ho
            have := hzero (o - 6) (by omega)
            rw [show 6 + (o - 6) = o by omega] at this
            exact this.symm
          · rfl
        · refine Or.inr (after fun o h6 ho => ?_)
          unfold zeroed
          split
          · rfl
          · have := hrest (o - 6 - k) (by omega)
            rwa [show 6 + k + (o - 6 - k) = o by omega] at this
      · exact Or.inr (after fun o h6 ho => if_pos (by omega))
    · exact Or.inr (after hp0)

theorem noFalseSum_of_never_believed {r : Regs} (hv : isValid r = true) (h : NeverBelieved .reinitialise r) :
    NoFalseSum r := by
  intro k hk hsum
  have hpv : isValid (zeroed r k) = true := (isValid_zeroed hv (by omega)).2 hsum
  obtain ⟨hread, -⟩ := h (zeroed r k) (zeroed_mem_cuts r (by omega))
  rw [hpv] at hread
  rcases hread with hfalse | hbefore | hafter
  · cases hfalse
  · left
    intro i hi
    have := eq_of_reading hpv hv hbefore (6 + i) (by omega) (by omega)
    rw [← this]
    exact if_pos (by omega)
  · right
    intro i hi
    have := eq_of_reading hpv (isValid_reinitialise r) hafter (6 + k + i) (by omega) (by omega)
    rw [run_reinitialise_zeros r _ (by omega) (by omega)] at this
    rw [← this]
    exact (if_neg (by omega)).symm

/-- A torn write of the block is never believed, `reinitialise()` excepted, and that one exactly
where no false sum shows. -/
theorem never_believed_iff (w : BlockWrite) (regs : Regs) (h : w.Starts regs) :
    NeverBelieved w regs ↔ (w = .reinitialise → NoFalseSum regs) := by
  cases w with
  | writeByte offset value => exact iff_of_true (never_believed_writeByte h) (fun hw => by cases hw)
  | recordFault phase taskName => exact iff_of_true (never_believed_recordFault h) (fun hw => by cases hw)
  | reinitialise =>
    constructor
    · intro hnever _
      exact noFalseSum_of_never_believed h hnever
    · intro hsum
      exact never_believed_reinitialise h (hsum rfl)

/-- A running block, as `setup()` leaves it. -/
def stored (cumulative snapshot : UInt8) : Regs :=
  (Prog.run (do
    reinitialise
    setReason .watchdog
    setCumulativeCount cumulative
    setCumulativeSnapshot snapshot
    setPhase .schedulerStarted) fun _ => 0).2

theorem never_believed_iff_stored : NeverBelieved .reinitialise (stored 5 0) :=
  (never_believed_iff .reinitialise (stored 5 0) (by change isValid _ = true; decide +kernel)).2 fun _ => by decide +kernel

/-- After 128 resets, the last of them into the reduced configuration, the first three bytes sum to
nothing: cut behind them, the zeroed counts are believed beside the old phase and reason. -/
theorem reinitialise_believed :
    BlockWrite.reinitialise.Starts (stored 128 128) ∧ ¬ NeverBelieved .reinitialise (stored 128 128) := by
  refine ⟨by change isValid _ = true; decide +kernel, fun h => ?_⟩
  obtain ⟨hread, -⟩ := h (zeroed (stored 128 128) 3) (zeroed_mem_cuts _ (by decide))
  revert hread
  decide +kernel

end BoredomOS.Recovery
