/-
The watchdog's timing. `selectWdtTiming` of `src/main.cpp` walks every timeout and clock division the
peripheral can express and keeps the shortest period that is not below the one asked for. Periods are
compared in whole microseconds, in 64 bits; what the watchdog really counts is cycles of PCLKB, which are
powers of two here, so neither the truncation nor the order of the tables shows in the choice.
-/
import Mathlib.Data.Nat.Log
import Mathlib.Tactic

namespace BoredomOS.Recovery

/-- `wdt_timeout_t`. -/
inductive WdtTimeout
  | timeout128 | timeout512 | timeout1024 | timeout2048 | timeout4096 | timeout8192 | timeout16384
  deriving DecidableEq, Repr

/-- `wdt_clock_division_t`. -/
inductive WdtClockDivision
  | division1 | division4 | division16 | division32 | division64 | division128 | division256 | division512
  | division2048 | division8192
  deriving DecidableEq, Repr

def pclkbHz : UInt32 := 24000000

structure WdtTimeoutOption where
  timeout : WdtTimeout
  cycles : UInt32

structure WdtDivisionOption where
  division : WdtClockDivision
  divisor : UInt32

def timeoutOptions : List WdtTimeoutOption :=
  [⟨.timeout128, 128⟩, ⟨.timeout512, 512⟩, ⟨.timeout1024, 1024⟩, ⟨.timeout2048, 2048⟩, ⟨.timeout4096, 4096⟩,
    ⟨.timeout8192, 8192⟩, ⟨.timeout16384, 16384⟩]

def divisionOptions : List WdtDivisionOption :=
  [⟨.division1, 1⟩, ⟨.division4, 4⟩, ⟨.division16, 16⟩, ⟨.division32, 32⟩, ⟨.division64, 64⟩, ⟨.division128, 128⟩,
    ⟨.division256, 256⟩, ⟨.division512, 512⟩, ⟨.division2048, 2048⟩, ⟨.division8192, 8192⟩]

/-- The locals and the two reference parameters of `selectWdtTiming`. -/
structure WdtSelection where
  timeoutOut : WdtTimeout
  divisionOut : WdtClockDivision
  bestPeriodUs : UInt64 := 0
  found : Bool := false

namespace WdtSelection

def periodUs (t : WdtTimeoutOption) (d : WdtDivisionOption) : UInt64 :=
  t.cycles.toUInt64 * d.divisor.toUInt64 * 1000000 / pclkbHz.toUInt64

/-- The body of the inner loop. -/
def consider (requestedMs : UInt32) (t : WdtTimeoutOption) (s : WdtSelection) (d : WdtDivisionOption) : WdtSelection :=
  if periodUs t d ≥ requestedMs.toUInt64 * 1000 ∧ (!s.found ∨ periodUs t d < s.bestPeriodUs) then
    { timeoutOut := t.timeout, divisionOut := d.division, bestPeriodUs := periodUs t d, found := true }
  else s

end WdtSelection

open WdtSelection (periodUs consider)

/-- What it leaves in its reference parameters, which hold `before` when it is called; `none` where
`configASSERT` halts. -/
def selectWdtTiming (requestedMs : UInt32) (before : WdtTimeout × WdtClockDivision) :
    Option (WdtTimeout × WdtClockDivision) :=
  let s := timeoutOptions.foldl (fun s t => divisionOptions.foldl (consider requestedMs t) s)
    { timeoutOut := before.1, divisionOut := before.2 }
  if s.found then some (s.timeoutOut, s.divisionOut) else none

/-! ## What a selection counts -/

def WdtTimeout.cycles : WdtTimeout → Nat
  | timeout128 => 128 | timeout512 => 512 | timeout1024 => 1024 | timeout2048 => 2048 | timeout4096 => 4096
  | timeout8192 => 8192 | timeout16384 => 16384

def WdtClockDivision.divisor : WdtClockDivision → Nat
  | division1 => 1 | division4 => 4 | division16 => 16 | division32 => 32 | division64 => 64 | division128 => 128
  | division256 => 256 | division512 => 512 | division2048 => 2048 | division8192 => 8192

/-- The cycles of PCLKB from a refresh to the underflow. -/
def underflowCycles (c : WdtTimeout × WdtClockDivision) : Nat := c.1.cycles * c.2.divisor

/-- The watchdog set so does not fire before `requestedMs` have passed. -/
def NotSooner (requestedMs : UInt32) (c : WdtTimeout × WdtClockDivision) : Prop :=
  requestedMs.toNat * pclkbHz.toNat ≤ underflowCycles c * 1000

theorem WdtTimeout.cycles_pow (t : WdtTimeout) : ∃ i, 7 ≤ i ∧ i ≤ 14 ∧ t.cycles = 2 ^ i := by
  cases t
  exacts [⟨7, by decide⟩, ⟨9, by decide⟩, ⟨10, by decide⟩, ⟨11, by decide⟩, ⟨12, by decide⟩, ⟨13, by decide⟩, ⟨14, by decide⟩]

theorem WdtClockDivision.divisor_pow (d : WdtClockDivision) : ∃ j, j ≤ 13 ∧ d.divisor = 2 ^ j := by
  cases d
  exacts [⟨0, by decide⟩, ⟨2, by decide⟩, ⟨4, by decide⟩, ⟨5, by decide⟩, ⟨6, by decide⟩, ⟨7, by decide⟩, ⟨8, by decide⟩,
    ⟨9, by decide⟩, ⟨11, by decide⟩, ⟨13, by decide⟩]

theorem underflowCycles_pow (c : WdtTimeout × WdtClockDivision) : ∃ k, 7 ≤ k ∧ k ≤ 27 ∧ underflowCycles c = 2 ^ k := by
  obtain ⟨i, hi, hi', ht⟩ := c.1.cycles_pow
  obtain ⟨j, hj, hd⟩ := c.2.divisor_pow
  exact ⟨i + j, by omega, by omega, by rw [underflowCycles, ht, hd, pow_add]⟩

/-- From 512 cycles up to the ceiling every power of two can be expressed. -/
theorem exists_underflowCycles {k : Nat} (hlow : 9 ≤ k) (hhigh : k ≤ 27) : ∃ c, underflowCycles c = 2 ^ k := by
  interval_cases k
  exacts [⟨(.timeout512, .division1), rfl⟩, ⟨(.timeout1024, .division1), rfl⟩, ⟨(.timeout2048, .division1), rfl⟩,
    ⟨(.timeout4096, .division1), rfl⟩, ⟨(.timeout8192, .division1), rfl⟩, ⟨(.timeout16384, .division1), rfl⟩,
    ⟨(.timeout8192, .division4), rfl⟩, ⟨(.timeout16384, .division4), rfl⟩, ⟨(.timeout8192, .division16), rfl⟩,
    ⟨(.timeout16384, .division16), rfl⟩, ⟨(.timeout16384, .division32), rfl⟩, ⟨(.timeout16384, .division64), rfl⟩,
    ⟨(.timeout16384, .division128), rfl⟩, ⟨(.timeout16384, .division256), rfl⟩, ⟨(.timeout16384, .division512), rfl⟩,
    ⟨(.timeout8192, .division2048), rfl⟩, ⟨(.timeout16384, .division2048), rfl⟩, ⟨(.timeout8192, .division8192), rfl⟩,
    ⟨(.timeout16384, .division8192), rfl⟩]

/-! ## The period in microseconds -/

/-- The two enumerators an entry of each table stands for. -/
def enumerators (c : WdtTimeoutOption × WdtDivisionOption) : WdtTimeout × WdtClockDivision := (c.1.timeout, c.2.division)

def combinations : List (WdtTimeoutOption × WdtDivisionOption) := timeoutOptions.product divisionOptions

theorem periodUs_toNat {c : WdtTimeoutOption × WdtDivisionOption} (hc : c ∈ combinations) :
    (periodUs c.1 c.2).toNat = underflowCycles (enumerators c) / 24 := by
  revert c
  decide +kernel

theorem exists_combination (c : WdtTimeout × WdtClockDivision) : ∃ o ∈ combinations, enumerators o = c := by
  obtain ⟨t, d⟩ := c
  have ht : ∃ o ∈ timeoutOptions, o.timeout = t := by cases t <;> simp [timeoutOptions]
  have hd : ∃ o ∈ divisionOptions, o.division = d := by cases d <;> simp [divisionOptions]
  obtain ⟨t, ht, rfl⟩ := ht
  obtain ⟨d, hd, rfl⟩ := hd
  exact ⟨(t, d), List.mem_product.2 ⟨ht, hd⟩, rfl⟩

/-- The comparison in truncated microseconds is the exact one: both sides are whole milliseconds of cycles. -/
theorem requested_le_periodUs {requestedMs : UInt32} {c : WdtTimeoutOption × WdtDivisionOption} (hc : c ∈ combinations) :
    requestedMs.toUInt64 * 1000 ≤ periodUs c.1 c.2 ↔ NotSooner requestedMs (enumerators c) := by
  have hms := requestedMs.toNat_lt
  have hproduct : (requestedMs.toUInt64 * 1000).toNat = requestedMs.toNat * 1000 := by
    rw [UInt64.toNat_mul, UInt32.toNat_toUInt64]
    exact Nat.mod_eq_of_lt (show requestedMs.toNat * 1000 < 2 ^ 64 by omega)
  rw [UInt64.le_iff_toNat_le, hproduct, periodUs_toNat hc, NotSooner, show pclkbHz.toNat = 24000000 from rfl]
  omega

/-- Powers of two from 128 on are far enough apart to be told apart in whole microseconds. -/
theorem underflowCycles_le_of_periodUs_le {c d : WdtTimeoutOption × WdtDivisionOption} (hc : c ∈ combinations)
    (hd : d ∈ combinations) (h : periodUs c.1 c.2 ≤ periodUs d.1 d.2) :
    underflowCycles (enumerators c) ≤ underflowCycles (enumerators d) := by
  rw [UInt64.le_iff_toNat_le, periodUs_toNat hc, periodUs_toNat hd] at h
  obtain ⟨i, -, -, hi⟩ := underflowCycles_pow (enumerators c)
  obtain ⟨j, hj, -, hj'⟩ := underflowCycles_pow (enumerators d)
  rw [hi, hj'] at h ⊢
  apply Nat.pow_le_pow_right (by decide)
  by_contra hlt
  have hdouble : 2 ^ j * 2 ≤ 2 ^ i := by
    rw [← pow_succ]
    exact Nat.pow_le_pow_right (by decide) (by omega)
  have hlarge : 2 ^ 7 ≤ 2 ^ j := Nat.pow_le_pow_right (by decide) hj
  omega

/-! ## The loop -/

/-- Where the loop stands after the combinations of `seen`. -/
structure Selected (requestedMs : UInt32) (seen : List (WdtTimeoutOption × WdtDivisionOption)) (s : WdtSelection) : Prop where
  notFound : s.found = false → ∀ c ∈ seen, ¬requestedMs.toUInt64 * 1000 ≤ periodUs c.1 c.2
  found : s.found = true → ∃ best ∈ seen, (s.timeoutOut, s.divisionOut) = enumerators best ∧
    s.bestPeriodUs = periodUs best.1 best.2 ∧ requestedMs.toUInt64 * 1000 ≤ periodUs best.1 best.2 ∧
      ∀ c ∈ seen, requestedMs.toUInt64 * 1000 ≤ periodUs c.1 c.2 → periodUs best.1 best.2 ≤ periodUs c.1 c.2

variable {requestedMs : UInt32} {seen : List (WdtTimeoutOption × WdtDivisionOption)} {s : WdtSelection}

theorem Selected.consider (h : Selected requestedMs seen s) (c : WdtTimeoutOption × WdtDivisionOption) :
    Selected requestedMs (seen ++ [c]) (consider requestedMs c.1 s c.2) := by
  unfold WdtSelection.consider
  split
  · rename_i htaken
    obtain ⟨hlong, hshorter⟩ := htaken
    refine ⟨fun hfound => Bool.noConfusion hfound, fun _ => ⟨c, by simp, rfl, rfl, hlong, ?_⟩⟩
    intro d hd hdlong
    rcases List.mem_append.1 hd with hd | hd
    · cases hs : s.found with
      | false => exact absurd hdlong (h.notFound hs d hd)
      | true =>
        obtain ⟨best, -, -, hperiod, -, hleast⟩ := h.found hs
        have hlt : periodUs c.1 c.2 < s.bestPeriodUs := hshorter.resolve_left (by simp [hs])
        rw [hperiod] at hlt
        exact UInt64.le_trans (UInt64.le_of_lt hlt) (hleast d hd hdlong)
    · rw [List.mem_singleton.1 hd]
      exact UInt64.le_refl _
  · rename_i hpassed
    -- the combination is too short, or no shorter than the one that is held
    constructor
    · intro hs d hd hdlong
      rcases List.mem_append.1 hd with hd | hd
      · exact h.notFound hs d hd hdlong
      · rw [List.mem_singleton.1 hd] at hdlong
        exact hpassed ⟨hdlong, .inl (by simp [hs])⟩
    · intro hs
      obtain ⟨best, hbest, hout, hperiod, hlong, hleast⟩ := h.found hs
      refine ⟨best, List.mem_append_left _ hbest, hout, hperiod, hlong, fun d hd hdlong => ?_⟩
      rcases List.mem_append.1 hd with hd | hd
      · exact hleast d hd hdlong
      · rw [List.mem_singleton.1 hd] at hdlong ⊢
        exact UInt64.not_lt.1 fun hlt => hpassed ⟨hdlong, .inr (by rwa [hperiod])⟩

theorem Selected.foldl (h : Selected requestedMs seen s) (cs : List (WdtTimeoutOption × WdtDivisionOption)) :
    Selected requestedMs (seen ++ cs) (cs.foldl (fun s c => WdtSelection.consider requestedMs c.1 s c.2) s) := by
  induction cs generalizing seen s with
  | nil => rwa [List.append_nil]
  | cons c cs ih =>
    rw [List.append_cons]
    exact ih (h.consider c)

theorem foldl_product {σ α β : Type} (f : α → σ → β → σ) (as : List α) (bs : List β) (s : σ) :
    as.foldl (fun s a => bs.foldl (f a) s) s = (as.product bs).foldl (fun s c => f c.1 s c.2) s := by
  rw [List.product, List.foldl_flatMap]
  simp only [List.foldl_map]

/-- The least that is not sooner is less than twice what was asked for: the powers of two leave no gap. -/
theorem lt_double_of_least {chosen : WdtTimeout × WdtClockDivision} (hceiling : requestedMs.toNat ≤ 5592)
    (hpos : 0 < requestedMs.toNat) (hmin : ∀ c, NotSooner requestedMs c → underflowCycles chosen ≤ underflowCycles c) :
    underflowCycles chosen * 1000 < 2 * (requestedMs.toNat * pclkbHz.toNat) := by
  have hhz : pclkbHz.toNat = 24000 * 1000 := rfl
  obtain ⟨k, hk⟩ : ∃ k, k = Nat.clog 2 (requestedMs.toNat * 24000) := ⟨_, rfl⟩
  have hlong : requestedMs.toNat * 24000 ≤ 2 ^ k := hk ▸ Nat.le_pow_clog (by decide) _
  have hshort : 2 ^ k.pred < requestedMs.toNat * 24000 := hk ▸ Nat.pow_pred_clog_lt_self (by decide) (by omega)
  have hhigh : k ≤ 27 := hk ▸ (Nat.clog_le_iff_le_pow (by decide)).2 (by omega)
  have hlow : 9 ≤ k := by
    by_contra hlt
    have hsmall : 2 ^ k ≤ 2 ^ 8 := Nat.pow_le_pow_right (by decide) (by omega)
    omega
  have hdouble : 2 ^ k = 2 * 2 ^ k.pred := by
    rw [← pow_succ', show k.pred + 1 = k from Nat.succ_pred_eq_of_pos (by omega)]
  have hpow : underflowCycles chosen ≤ 2 ^ k := by
    obtain ⟨c, hc⟩ := exists_underflowCycles hlow hhigh
    rw [← hc]
    refine hmin c ?_
    rw [NotSooner, hc, hhz, ← Nat.mul_assoc]
    exact Nat.mul_le_mul_right _ hlong
  rw [hhz]
  omega

/-- The choice is the least not sooner than asked, and there is none above 5592 ms. -/
theorem selectWdtTiming_exact (requestedMs : UInt32) (before : WdtTimeout × WdtClockDivision) :
    (5592 < requestedMs.toNat ∧ selectWdtTiming requestedMs before = none) ∨
    (requestedMs.toNat ≤ 5592 ∧ ∃ chosen, selectWdtTiming requestedMs before = some chosen ∧
      NotSooner requestedMs chosen ∧
      (∀ c, NotSooner requestedMs c → underflowCycles chosen ≤ underflowCycles c) ∧
      (0 < requestedMs.toNat → underflowCycles chosen * 1000 < 2 * (requestedMs.toNat * pclkbHz.toNat))) := by
  have hstart : Selected requestedMs [] { timeoutOut := before.1, divisionOut := before.2 } :=
    ⟨fun _ c hc => absurd hc List.not_mem_nil, fun hfound => Bool.noConfusion hfound⟩
  have hloop := hstart.foldl combinations
  rw [combinations, ← foldl_product, List.nil_append] at hloop
  unfold selectWdtTiming
  generalize timeoutOptions.foldl (fun s t => divisionOptions.foldl (consider requestedMs t) s)
    { timeoutOut := before.1, divisionOut := before.2 } = s at hloop ⊢
  cases hs : s.found with
  | false =>
    refine .inl ⟨?_, by simp [hs]⟩
    -- the longest combination would have been found
    obtain ⟨o, ho, hmax⟩ := exists_combination (.timeout16384, .division8192)
    have hnot := hloop.notFound hs o ho
    rw [requested_le_periodUs ho, hmax] at hnot
    change ¬requestedMs.toNat * 24000000 ≤ 134217728 * 1000 at hnot
    omega
  | true =>
    obtain ⟨best, hbest, hout, -, hlong, hleast⟩ := hloop.found hs
    have hexact := (requested_le_periodUs hbest).1 hlong
    have hmin : ∀ c, NotSooner requestedMs c → underflowCycles (enumerators best) ≤ underflowCycles c := by
      intro c hc
      obtain ⟨o, ho, rfl⟩ := exists_combination c
      exact underflowCycles_le_of_periodUs_le hbest ho (hleast o ho ((requested_le_periodUs ho).2 hc))
    have hceiling : requestedMs.toNat ≤ 5592 := by
      obtain ⟨k, -, hk, hpow⟩ := underflowCycles_pow (enumerators best)
      have htop : 2 ^ k ≤ 2 ^ 27 := Nat.pow_le_pow_right (by decide) hk
      rw [NotSooner, hpow] at hexact
      change requestedMs.toNat * 24000000 ≤ 2 ^ k * 1000 at hexact
      omega
    refine .inr ⟨hceiling, enumerators best, by simp [hs, hout], hexact, hmin, fun hpos => ?_⟩
    exact lt_double_of_least hceiling hpos hmin

example (before : WdtTimeout × WdtClockDivision) : selectWdtTiming 1398 before = some (.timeout4096, .division8192) := by
  cases before; rfl

end BoredomOS.Recovery
