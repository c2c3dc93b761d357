/-
What a short message says. A range that comes to the file's end is answered with messages of 90 bytes and
one with fewer, so there the short one is the end of the log. A range that stops before the end has as many
bytes as were asked for, and its last message is short by the remainder of their count.
-/
import BoredomOS.Log.Delivery

namespace BoredomOS.Log

open Runs

variable (id : UInt16) (image : List UInt8) {ofs count «end» n : Nat}

theorem toNat_count {length : Nat} (h : length ≤ 90) : (chunkAt id image ofs length).count.toNat = length := by
  show (UInt8.ofNat length).toNat = length
  rw [UInt8.toNat_ofNat']
  omega

/-- All chunks but the last carry 90 bytes. -/
theorem chunksOf_concat (hn : chunkCount ofs «end» = n + 1) : ∃ front,
    chunksOf id image ofs «end» = front ++ [chunkAt id image (ofs + 90 * n) («end» - (ofs + 90 * n))] ∧
      ∀ m ∈ front, m.count = 90 := by
  have hlast : «end» - (ofs + 90 * n) ≤ 90 := by
    unfold chunkCount at hn
    omega
  refine ⟨(List.range n).map fun k => chunkAt id image (ofs + 90 * k) (min 90 («end» - (ofs + 90 * k))), ?_, ?_⟩
  · unfold chunksOf
    rw [hn, List.range_succ, List.map_append, List.map_singleton, Nat.min_eq_right hlast]
  · intro m hm
    obtain ⟨k, hk, rfl⟩ := List.mem_map.1 hm
    have hk := List.mem_range.1 hk
    have hmore := lt_chunkCount.1 (show k + 1 < chunkCount ofs «end» by omega)
    apply UInt8.toNat_inj.1
    rw [toNat_count id image (Nat.min_le_left _ _)]
    show min 90 _ = 90
    omega

/-- What the last message of an answer carries: what is left of the file, or of the bytes asked for. -/
def lastCount (length ofs count : Nat) : Nat :=
  if length ≤ ofs + count then (length - ofs) % 90 else (count - 1) % 90 + 1

/-- A range that reaches the end of the file is answered with the chunks and, behind a whole one or none, the empty
message. -/
theorem delivery_reached (hreached : image.length ≤ ofs + count) : ∃ front last,
    delivery id image ofs count = front ++ [last] ∧ (∀ m ∈ front, m.count = 90) ∧
      last.count.toNat = (image.length - ofs) % 90 := by
  have hend : rangeEnd image ofs count = image.length := Nat.min_eq_left hreached
  rw [delivery_eq, hend]
  simp only [hreached, true_and]
  rcases hn : chunkCount ofs image.length with _ | n
  · -- the range begins at the end of the file, or behind it
    have hnil : chunksOf id image ofs image.length = [] := by
      rw [← List.length_eq_zero_iff, length_chunksOf, hn]
    refine ⟨[], chunkAt id image (max ofs image.length) 0, ?_, by simp, ?_⟩
    · simp [hnil]
    · rw [toNat_count id image (Nat.zero_le _)]
      unfold chunkCount at hn
      omega
  obtain ⟨front, hchunks, hfront⟩ := chunksOf_concat id image hn
  unfold chunkCount at hn
  have hlast : (chunkAt id image (ofs + 90 * n) (image.length - (ofs + 90 * n))).count.toNat = image.length - (ofs + 90 * n) :=
    toNat_count id image (by omega)
  by_cases hfull : image.length - (ofs + 90 * n) = 90
  · have h90 : (chunkAt id image (ofs + 90 * n) (image.length - (ofs + 90 * n))).count = 90 :=
      UInt8.toNat_inj.1 (hlast.trans hfull)
    refine ⟨front ++ [chunkAt id image (ofs + 90 * n) (image.length - (ofs + 90 * n))],
      chunkAt id image (max ofs image.length) 0, ?_, ?_, ?_⟩
    · rw [hchunks, if_pos (by simp [h90])]
    · intro m hm
      rcases List.mem_append.1 hm with hm | hm
      · exact hfront m hm
      · rw [List.mem_singleton.1 hm, h90]
    · rw [toNat_count id image (Nat.zero_le _)]
      omega
  · have hshort : (chunkAt id image (ofs + 90 * n) (image.length - (ofs + 90 * n))).count ≠ 90 := by
      intro h90
      rw [h90] at hlast
      exact hfull hlast.symm
    refine ⟨front, chunkAt id image (ofs + 90 * n) (image.length - (ofs + 90 * n)), ?_, hfront, ?_⟩
    · rw [hchunks, if_neg (by simp [hshort]), List.append_nil]
    · rw [hlast]
      omega

/-- A range that stops before it is answered with its chunks, the last with the remainder of what was asked for. -/
theorem delivery_stopped (hcount : 0 < count) (hstopped : ¬ image.length ≤ ofs + count) : ∃ front last,
    delivery id image ofs count = front ++ [last] ∧ (∀ m ∈ front, m.count = 90) ∧
      last.count.toNat = (count - 1) % 90 + 1 := by
  have hend : rangeEnd image ofs count = ofs + count := Nat.min_eq_right (by omega)
  rw [delivery_eq, hend, if_neg fun h => hstopped h.1, List.append_nil]
  rcases hn : chunkCount ofs (ofs + count) with _ | n
  · unfold chunkCount at hn
    omega
  · obtain ⟨front, hchunks, hfront⟩ := chunksOf_concat id image hn
    unfold chunkCount at hn
    refine ⟨front, _, hchunks, hfront, ?_⟩
    rw [toNat_count id image (by omega)]
    omega

/-- An answer is messages of 90 bytes and a last one. -/
theorem delivery_concat (hcount : 0 < count) : ∃ front last, delivery id image ofs count = front ++ [last] ∧
    (∀ m ∈ front, m.count = 90) ∧ last.count.toNat = lastCount image.length ofs count := by
  unfold lastCount
  split
  · rename_i hreached
    exact delivery_reached id image hreached
  · rename_i hstopped
    exact delivery_stopped id image hcount hstopped

/-- A message is short of 90 bytes if and only if it is the last of a range that reaches the end of the file,
or the remainder of a count that 90 does not divide. -/
theorem short_chunk_iff (t : TaskSdWrite) (hfiles : t.fileCount ≤ 128) (port : Fin 2) (request : SdLogRequestPayload)
    (hcount : 0 < request.count) (es : List TaskEv) (t' : TaskSdWrite)
    (hrun : run TaskSdWrite.step (t.startStream port request) es = some t')
    (hlets : ∀ es₁ e es₂ s, es = es₁ ++ e :: es₂ → run TaskSdWrite.step (t.startStream port request) es₁ = some s →
      s.LetsBe port request.start e) (hended : (t'.streams port).active = false) :
    let length := (t.readable request.start).length
    let sent := dataTo port (t'.posted.drop t.posted.length)
    ((∃ m ∈ sent, m.count < 90) ↔
        length ≤ request.ofs.toNat + request.count.toNat ∨ request.count.toNat % 90 ≠ 0) ∧
      ∃ front last, sent = front ++ [last] ∧ (∀ m ∈ front, m.count = 90) ∧
        last.count.toNat = lastCount length request.ofs.toNat request.count.toNat := by
  have hall := (delivering_run (delivering_startStream hfiles port request) hlets hrun).all hended
  have hpos : 0 < request.count.toNat := UInt32.lt_iff_toNat_lt.1 hcount
  obtain ⟨front, last, hsent, hfront, hlast⟩ :=
    @delivery_concat request.start (t.readable request.start) request.ofs.toNat _ hpos
  dsimp only
  rw [hall]
  refine ⟨?_, front, last, hsent, hfront, hlast⟩
  have hshort : (∃ m ∈ front ++ [last], m.count < 90) ↔ last.count < 90 := by
    constructor
    · rintro ⟨m, hm, hlt⟩
      rcases List.mem_append.1 hm with hm | hm
      · rw [hfront m hm] at hlt
        exact absurd hlt (by decide)
      · rwa [← List.mem_singleton.1 hm]
    · exact fun hlt => ⟨last, by simp, hlt⟩
  rw [hsent, hshort, UInt8.lt_iff_toNat_lt, hlast, lastCount]
  show _ < 90 ↔ _
  split <;> omega

theorem short_chunk_head : ∃ t', run TaskSdWrite.step (headTask.startStream 0 headRequest) twoCalls = some t' ∧
    ∃ m ∈ dataTo 0 (t'.posted.drop headTask.posted.length), m.count < 90 := by
  obtain ⟨t', hrun, hended⟩ := ended_twoCalls
  refine ⟨t', hrun, (short_chunk_iff headTask (by decide +kernel) 0 headRequest (by decide) twoCalls t' hrun
    (fun _ _ _ s hes _ => letsBe_twoCalls s hes) hended).1.2 (Or.inr (by decide))⟩

/-- 16 bytes are asked for of a file of 386 and stop 14 short of its end, and the one message has 16. -/
theorem short_before_end : ∃ t', run TaskSdWrite.step (headTask.startStream 0 headRequest) twoCalls = some t' ∧
    (∀ es₁ e es₂ s, twoCalls = es₁ ++ e :: es₂ →
      run TaskSdWrite.step (headTask.startStream 0 headRequest) es₁ = some s → s.LetsBe 0 headRequest.start e) ∧
    (t'.streams 0).active = false ∧ (headTask.readable headRequest.start).length = 386 ∧
    headRequest.ofs.toNat + headRequest.count.toNat = 372 ∧
    (dataTo 0 (t'.posted.drop headTask.posted.length)).map (·.count) = [16] := by
  have hended : (run TaskSdWrite.step (headTask.startStream 0 headRequest) twoCalls).map
      (fun t => ((t.streams 0).active, (dataTo 0 (t.posted.drop headTask.posted.length)).map (·.count))) =
        some (false, [16]) := by decide +kernel
  obtain ⟨t', hrun, hended⟩ := Option.map_eq_some_iff.1 hended
  obtain ⟨hinactive, hcounts⟩ := Prod.mk.inj hended
  exact ⟨t', hrun, fun _ _ _ s hes _ => letsBe_twoCalls s hes, hinactive, by decide +kernel, by decide, hcounts⟩

end BoredomOS.Log
