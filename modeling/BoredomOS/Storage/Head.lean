/-
The ring seen from its head. Whatever `begin()` and `write()` do to the card is made of five operations on
the slot the log is at: it is synced, appended to, opened, the index is written, or, once the slot is full,
the one after it is emptied and the log goes on there. So a fact about the ring that these five keep holds at
every point of every operation.
-/
import BoredomOS.Storage.Crash
import BoredomOS.Storage.Generations

namespace BoredomOS.Storage

open Steps

variable {κ : Type} [Payload κ] {n size : Nat}

/-! ## Operations at the head -/

/-- One operation at the head, with what it appends. -/
inductive HeadStep (n size : Nat) : Card κ → Nat → List κ → Card κ → Nat → Prop
  | sync (c : Card κ) (h : Nat) : HeadStep n size c h [] (c.sync h) h
  | append (c : Card κ) (h : Nat) (d : κ) (slot : (c.slots h).isSome) : HeadStep n size c h [d] (c.append h d) h
  | index (c : Card κ) (h : Nat) (index : Option (List UInt8))
      (read : readLogIndex n index = readLogIndex n c.index ∨ readLogIndex n index = h) :
      HeadStep n size c h [] { c with index } h
  | openSlot (c : Card κ) (h : Nat) (read : readLogIndex n c.index = h) : HeadStep n size c h [] (c.openSlot h) h
  | advance (c : Card κ) (h : Nat) (full : Full size c h) :
      HeadStep n size c h [] (c.remove ((h + 1) % n)) ((h + 1) % n)

/-- The second ring comes from the first by operations at the head, which append `xs`. -/
inductive Traced (n size : Nat) (c : Card κ) (h : Nat) : List κ → Card κ → Nat → Prop
  | refl : Traced n size c h [] c h
  | step {xs ys : List κ} {c' c'' : Card κ} {h' h'' : Nat} (before : Traced n size c h xs c' h')
      (last : HeadStep n size c' h' ys c'' h'') : Traced n size c h (xs ++ ys) c'' h''

theorem HeadStep.inv {c c' : Card κ} {h h' : Nat} {ys : List κ} (hinv : Inv True n size c h)
    (hs : HeadStep n size c h ys c' h') : Inv True n size c' h' := by
  cases hs with
  | sync => exact hinv.sync
  | append d slot => exact hinv.append slot d
  | index index read => exact hinv.index read
  | openSlot read => exact (hinv.openSlot read).1
  | advance full => exact hinv.remove hinv.at_.lt (fun _ => rfl) (Or.inl ⟨rfl, full⟩)

theorem Traced.inv {c c' : Card κ} {h h' : Nat} {xs : List κ} (hinv : Inv True n size c h)
    (ht : Traced n size c h xs c' h') : Inv True n size c' h' := by
  induction ht with
  | refl => exact hinv
  | step _ last ih => exact last.inv ih

/-- What the operations at the head keep is kept on every way. -/
theorem Traced.keeps {K : Card κ → Nat → List κ → Prop} {c c' : Card κ} {h h' : Nat} {xs : List κ}
    (hinv : Inv True n size c h) (hstart : K c h [])
    (hstep : ∀ c₁ h₁ zs c₂ h₂ ys, Inv True n size c₁ h₁ → HeadStep n size c₁ h₁ ys c₂ h₂ → K c₁ h₁ zs → K c₂ h₂ (zs ++ ys))
    (ht : Traced n size c h xs c' h') : K c' h' xs := by
  induction ht with
  | refl => exact hstart
  | step before last ih => exact hstep _ _ _ _ _ _ (before.inv hinv) last ih

/-- A step that appends nothing. -/
theorem Traced.silent {c c' c'' : Card κ} {h h' h'' : Nat} {xs : List κ} (ht : Traced n size c h xs c' h')
    (last : HeadStep n size c' h' [] c'' h'') : Traced n size c h xs c'' h'' := by
  simpa using ht.step last

/-! ## On the way -/

variable {c₀ : Card κ} {h₀ : Nat} {xs ys : List κ}

/-- A point at which some of `xs` was appended, from the front on. -/
def OnTheWay (n size : Nat) (c₀ : Card κ) (h₀ : Nat) (xs : List κ) (s : Sys κ) : Prop :=
  ∃ h zs, Traced n size c₀ h₀ zs s.card h ∧ zs <+: xs

theorem OnTheWay.mono {s : Sys κ} (hw : OnTheWay n size c₀ h₀ xs s) (hle : xs <+: ys) : OnTheWay n size c₀ h₀ ys s := by
  obtain ⟨h, zs, ht, hzs⟩ := hw
  exact ⟨h, zs, ht, hzs.trans hle⟩

/-- The object writes the head, and all of `xs` was appended. -/
structure Writing (n size : Nat) (c₀ : Card κ) (h₀ : Nat) (xs : List κ) (s : Sys κ) (h : Nat) : Prop where
  live : Live True n size s h
  traced : Traced n size c₀ h₀ xs s.card h

namespace Writing

variable {s : Sys κ} {h : Nat}

theorem onTheWay (hw : Writing n size c₀ h₀ xs s h) (hle : xs <+: ys) : OnTheWay n size c₀ h₀ ys s :=
  ⟨h, xs, hw.traced, hle⟩

theorem flush (hw : Writing n size c₀ h₀ xs s h) : Writing n size c₀ h₀ xs s.flush h := by
  refine ⟨hw.live.flush.1, ?_⟩
  have hcard : s.flush.card = s.card.sync h := by rw [Sys.flush, hw.live.dataFile]
  rw [hcard]
  exact hw.traced.silent (.sync ..)

theorem appendBytes (hw : Writing n size c₀ h₀ xs s h) (data : Option κ) :
    Writing n size c₀ h₀ (xs ++ appended data) (s.appendBytes data) h := by
  refine ⟨(hw.live.appendBytes data).1, ?_⟩
  cases data with
  | none =>
    have hsame : s.appendBytes none = s := by
      unfold Sys.appendBytes
      split <;> first | rfl | contradiction
    rw [hsame]
    simpa [appended] using hw.traced
  | some d =>
    simp only [Sys.appendBytes, hw.live.dataFile, appended]
    split
    · simpa using hw.traced
    · exact hw.traced.step (.append _ _ d hw.live.slot)

/-- Only the count of bytes is another. -/
theorem counted (hw : Writing n size c₀ h₀ xs s h) (count : Nat) :
    Writing n size c₀ h₀ xs { s with data := { s.data with sinceFlush := count } } h :=
  ⟨⟨hw.live.inv, hw.live.files, hw.live.limit, hw.live.fileIdx, hw.live.dataFile, hw.live.slot, hw.live.named⟩, hw.traced⟩

end Writing

/-! ## The programs -/

theorem way_writeRaw {s : Sys κ} {h : Nat} (hw : Writing n size c₀ h₀ xs s h) (data : Option κ) :
    Prog.wp (OnTheWay n size c₀ h₀ (xs ++ appended data)) (writeRaw data)
      (fun _ s' => Writing n size c₀ h₀ (xs ++ appended data) s' h) s := by
  simp only [writeRaw, Prog.wp_bind, Prog.wp_modify]
  have happended := hw.appendBytes data
  exact ⟨hw.onTheWay (List.prefix_append _ _), happended.onTheWay (List.prefix_refl _), happended.flush⟩

theorem way_notifyOpened : ∀ (onOpen : List (Option κ)) {xs : List κ} {s : Sys κ} {h : Nat}, Writing n size c₀ h₀ xs s h →
    Prog.wp (OnTheWay n size c₀ h₀ (xs ++ onOpen.flatMap appended)) (notifyOpened onOpen)
      (fun _ s' => Writing n size c₀ h₀ (xs ++ onOpen.flatMap appended) s' h) s
  | [], xs, s, h, hw => by
    simpa [notifyOpened] using hw
  | data :: rest, xs, s, h, hw => by
    simp only [notifyOpened, Prog.wp_bind, List.flatMap_cons, ← List.append_assoc]
    refine Prog.wp_mono (fun _ hc => ?_) (fun _ s₁ h₁ => ?_) _ _ (way_writeRaw hw data)
    · exact hc.mono (List.prefix_append _ _)
    · exact way_notifyOpened rest h₁

theorem way_writeLogIndex {s : Sys κ} {h : Nat} (hn : n < 2 ^ 31) (hinv : Inv True n size s.card h)
    (ht : Traced n size c₀ h₀ xs s.card h) (hle : xs <+: ys) (hidx : s.data.fileIdx = h) :
    Prog.wp (OnTheWay n size c₀ h₀ ys) writeLogIndex
      (fun _ s' => ∃ index, s' = { s with card := { s.card with index } } ∧ readLogIndex n index = h ∧
        Traced n size c₀ h₀ xs s'.card h) s := by
  have hcreate : Traced n size c₀ h₀ xs s.card.createIndex h := ht.silent (.index _ _ _ (Or.inl (readLogIndex_create s.card)))
  have hread : readLogIndex n (s.card.createIndex.overwriteIndex h).index = h :=
    readLogIndex_overwrite hinv.at_.lt hn rfl
  simp only [writeLogIndex, Prog.wp_bind, Prog.wp_get, Prog.wp_when, Prog.wp_modify]
  rw [if_pos hinv.at_.writable]
  refine ⟨⟨h, xs, ht, hle⟩, ⟨h, xs, ht, hle⟩, ⟨h, xs, hcreate, hle⟩, (s.card.createIndex.overwriteIndex h).index, ?_, hread, ?_⟩
  · rw [hidx]
    rfl
  · rw [hidx]
    exact hcreate.silent (.index _ _ _ (Or.inr hread))

theorem way_openAndNotify {s : Sys κ} {h : Nat} (onOpen : List (Option κ)) (hinv : Inv True n size s.card h)
    (ht : Traced n size c₀ h₀ xs s.card h) (hfiles : s.data.files = n) (hlimit : s.data.size = size)
    (hidx : s.data.fileIdx = h) (hnamed : readLogIndex n s.card.index = h) :
    Prog.wp (OnTheWay n size c₀ h₀ (xs ++ onOpen.flatMap appended)) (openAndNotify onOpen)
      (fun _ s' => Writing n size c₀ h₀ (xs ++ onOpen.flatMap appended) s' h) s := by
  obtain ⟨hopened, hslot⟩ := hinv.openSlot hnamed
  have hopen : s.openDataFile =
      { card := s.card.openSlot h, data := { s.data with dataFile := some h } } := by
    rw [Sys.openDataFile, if_pos hinv.at_.writable, hidx]
  have hindex : (s.card.openSlot h).index = s.card.index := by
    unfold Card.openSlot
    split <;> rfl
  simp only [openAndNotify, Prog.wp_bind, Prog.wp_modify, Prog.wp_get, Prog.wp_when, hopen, Option.isSome_some, if_true]
  have hw : Writing n size c₀ h₀ xs
      { card := s.card.openSlot h, data := { s.data with dataFile := some h, sinceFlush := 0 } } h :=
    ⟨⟨hopened, hfiles, hlimit, hidx, rfl, hslot, by rw [hindex]; exact hnamed⟩, ht.silent (.openSlot _ _ hnamed)⟩
  exact ⟨⟨h, xs, ht, List.prefix_append _ _⟩, hw.onTheWay (List.prefix_append _ _), way_notifyOpened onOpen hw⟩

theorem Held.traced_close {s : Sys κ} {h : Nat} (hheld : Held s h) (ht : Traced n size c₀ h₀ xs s.card h) :
    Traced n size c₀ h₀ xs s.close.card h := by
  rcases hheld with ⟨hnone, -⟩ | hsome
  · rw [close_of_none hnone]
    exact ht
  · have hcard : s.close.card = s.card.sync h := by rw [Sys.close, hsome]
    rw [hcard]
    exact ht.silent (.sync ..)

/-- The file at the head is full once it is closed: the log goes on in the next slot. -/
theorem way_openNextSlot {s : Sys κ} {h : Nat} (hn : n < 2 ^ 31) (onOpen : List (Option κ))
    (hinv : Inv True n size s.card h) (hheld : Held s h) (ht : Traced n size c₀ h₀ xs s.card h) (hfiles : s.data.files = n)
    (hlimit : s.data.size = size) (hidx : s.data.fileIdx = h) (hfull : Full size s.close.card h) :
    Prog.wp (OnTheWay n size c₀ h₀ (xs ++ onOpen.flatMap appended)) (openNextSlot onOpen)
      (fun _ s' => Writing n size c₀ h₀ (xs ++ onOpen.flatMap appended) s' ((h + 1) % n)) s := by
  obtain ⟨hinv₁, -, -, hdata₁, -⟩ := hheld.close hinv
  have ht₁ := hheld.traced_close ht
  have hinv₂ := hinv₁.remove hinv.at_.lt (fun _ => rfl) (Or.inl ⟨rfl, hfull⟩)
  have ht₂ := ht₁.silent (.advance _ _ hfull)
  have hle : xs <+: xs ++ onOpen.flatMap appended := List.prefix_append _ _
  -- the state in which the next slot is gone, reached with or without a removal
  set s₂ : Sys κ := { card := s.close.card.remove ((h + 1) % n), data := { s.close.data with sinceFlush := 0, fileIdx := (h + 1) % n } } with hs₂
  have hrest : Prog.wp (OnTheWay n size c₀ h₀ (xs ++ onOpen.flatMap appended)) (writeLogIndex >>= fun _ => openAndNotify onOpen)
      (fun _ s' => Writing n size c₀ h₀ (xs ++ onOpen.flatMap appended) s' ((h + 1) % n)) s₂ := by
    rw [Prog.wp_bind]
    refine Prog.wp_mono (fun _ hc => hc) ?_ _ _ (way_writeLogIndex hn hinv₂ ht₂ hle rfl)
    rintro - - ⟨index, rfl, hread, ht₃⟩
    apply way_openAndNotify onOpen (hinv₂.index (Or.inr hread)) ht₃ ?_ ?_ rfl hread
    · simp [hs₂, hdata₁, hfiles]
    · simp [hs₂, hdata₁, hlimit]
  have hnext : (s.close.data.fileIdx + 1) % s.close.data.files = (h + 1) % n := by simp [hdata₁, hidx, hfiles]
  simp only [openNextSlot, closeDataFile, Prog.wp_bind, Prog.wp_modify, Prog.wp_get, Prog.wp_when, hnext]
  refine ⟨⟨h, xs, ht, hle⟩, ⟨h, xs, ht₁, hle⟩, ⟨h, xs, ht₁, hle⟩, ?_⟩
  rw [Prog.wp_bind] at hrest
  split
  · exact ⟨⟨h, xs, ht₁, hle⟩, hrest⟩
  · rename_i hnone
    have hsame := remove_absent (c := s.close.card) (d := (h + 1) % n) (by simpa using hnone)
    rw [hs₂, hsame] at hrest
    exact hrest

/-- What an operation hands to the log, a write while a file is open: the preamble, or what is written and
then, if that fills the file, the preamble of the next one. -/
def Sys.hands (s : Sys κ) : Op κ → List κ
  | .begin onOpen => onOpen.flatMap appended
  | .write data onOpen => appended data ++ if s.fills data then onOpen.flatMap appended else []

theorem way_begin {s : Sys κ} {h : Nat} (hn : n < 2 ^ 31) (onOpen : List (Option κ)) (hinv : Inv True n size s.card h)
    (hheld : Held s h) (ht : Traced n size c₀ h₀ xs s.card h) (hfiles : s.data.files = n) (hlimit : s.data.size = size) :
    Prog.wp (OnTheWay n size c₀ h₀ (xs ++ onOpen.flatMap appended)) (begin onOpen)
      (fun _ s' => ∃ d, Writing n size c₀ h₀ (xs ++ onOpen.flatMap appended) s' d) s := by
  obtain ⟨hinv₁, hclosed, -, hdata₁, -⟩ := hheld.close hinv
  have ht₁ := hheld.traced_close ht
  have hle : xs <+: xs ++ onOpen.flatMap appended := List.prefix_append _ _
  have hlt := hinv.at_.lt
  have hway : OnTheWay n size c₀ h₀ (xs ++ onOpen.flatMap appended) s.close := ⟨h, xs, ht₁, hle⟩
  have hr : readLogIndex n s.close.card.index < n := readLogIndex_lt (by omega) _
  simp only [begin, closeDataFile, Prog.wp_bind, Prog.wp_modify, Prog.wp_get]
  refine ⟨⟨h, xs, ht, hle⟩, hway, hway, ?_⟩
  rw [show s.close.data.files = n by rw [hdata₁, ← hfiles], show s.close.data.size = size by rw [hdata₁, ← hlimit]]
  -- the walk only reads, and stops where it is known to
  have hfound := ((Prog.wp_iff _ _).1 (wp_findResume (readLogIndex n s.close.card.index) ⟨h, hinv₁⟩ n 0)).2
  have hreads := ((Prog.wp_iff _ _).1 (reads_findResume hway n size (readLogIndex n s.close.card.index) n 0)).1
  refine (Prog.wp_iff _ _).2 ⟨hreads, ?_⟩
  clear hreads
  generalize (findResume n size (readLogIndex n s.close.card.index) n 0).run s.close = found at hfound ⊢
  obtain ⟨found, s₁⟩ := found
  obtain ⟨rfl, ⟨rfl, hall⟩ | ⟨k, rfl, hk, hnot, hbefore⟩⟩ := hfound
  · -- every slot is full, and the index names the one the log is at
    have hfull : ∀ i < n, Full size s.close.card i := fun i hi => by
      obtain ⟨j, hj, rfl⟩ := exists_step hr hi
      exact (slotIsFull_iff hclosed _).1 (hall j (Nat.zero_le _) (by omega))
    have hindex : readLogIndex n s.close.card.index = h := by
      obtain ⟨f, hf, -⟩ := hfull h hlt
      exact (hinv₁.ordered trivial).index.resolve_right fun hnone => by rw [hf] at hnone; cases hnone.1
    have hclose : Sys.close { s.close with data := { s.close.data with fileIdx := h } } =
        { s.close with data := { s.close.data with fileIdx := h } } := close_of_none (by rw [hdata₁])
    simp only [Prog.wp_bind, Prog.wp_modify, hindex]
    refine ⟨hway, Prog.wp_mono (fun _ hc => hc) (fun _ s' hs' => ⟨_, hs'⟩) _ _
      (way_openNextSlot hn onOpen hinv₁ (Or.inl ⟨by simp [hdata₁], hclosed⟩) ht₁ (by simp [hdata₁, hfiles])
        (by simp [hdata₁, hlimit]) rfl ?_)⟩
    rw [hclose]
    exact hfull h hlt
  · have hnot' : ¬ Full size s.close.card ((readLogIndex n s.close.card.index + k) % n) := fun hf => by
      rw [(slotIsFull_iff hclosed _).2 hf] at hnot; cases hnot
    have hbefore' : ∀ j < k, Full size s.close.card ((readLogIndex n s.close.card.index + j) % n) := fun j hj =>
      (slotIsFull_iff hclosed _).1 (hbefore j (Nat.zero_le _) hj)
    generalize hd : (readLogIndex n s.close.card.index + k) % n = d at *
    -- the head, or the absent slot after it, to which the log goes on
    have hhead : Inv True n size s.close.card d ∧ Traced n size c₀ h₀ xs s.close.card d := by
      rcases resume_at hinv₁.at_ (by omega) (by rwa [hd]) hbefore' with hdh | ⟨hfull, hdn, hnone⟩
      · rw [← hd, hdh]
        exact ⟨hinv₁, ht₁⟩
      · have hinv₂ := hinv₁.remove hlt (fun _ => rfl) (Or.inl ⟨rfl, hfull⟩)
        have ht₂ := ht₁.silent (.advance _ _ hfull)
        rw [remove_absent hnone, ← hdn, hd] at hinv₂ ht₂
        exact ⟨hinv₂, ht₂⟩
    obtain ⟨hinv₂, ht₂⟩ := hhead
    simp only [Prog.wp_bind, Prog.wp_modify, Prog.wp_when, decide_eq_true_eq]
    refine ⟨hway, ?_⟩
    split
    · refine Prog.wp_mono (fun _ hc => hc) ?_ _ _ (way_writeLogIndex hn hinv₂ ht₂ hle rfl)
      rintro - - ⟨index, rfl, hread, ht₃⟩
      refine Prog.wp_mono (fun _ hc => hc) (fun _ s' hs' => ⟨d, hs'⟩) _ _
        (way_openAndNotify onOpen (hinv₂.index (Or.inr hread)) ht₃ ?_ ?_ rfl hread)
      · simp [hdata₁, hfiles]
      · simp [hdata₁, hlimit]
    · rename_i hsame
      refine Prog.wp_mono (fun _ hc => hc) (fun _ s' hs' => ⟨d, hs'⟩) _ _
        (way_openAndNotify onOpen hinv₂ ht₂ ?_ ?_ rfl ?_)
      · simp [hdata₁, hfiles]
      · simp [hdata₁, hlimit]
      · exact (not_not.1 hsame).symm

/-- A write stays in its file, or fills it and ends in the next one. -/
theorem way_write {s : Sys κ} {h : Nat} (hn : n < 2 ^ 31) (data : Option κ) (onOpen : List (Option κ))
    (hw : Writing n size c₀ h₀ xs s h) :
    Prog.wp (OnTheWay n size c₀ h₀ (xs ++ s.hands (.write data onOpen))) (write data onOpen)
      (fun _ s' => Writing n size c₀ h₀ (xs ++ s.hands (.write data onOpen)) s' (if s.fills data then (h + 1) % n else h)) s := by
  have hopen := hw.live.dataFile
  simp only [write, Prog.wp_bind, Prog.wp_get]
  refine ⟨hw.onTheWay (List.prefix_append _ _), ?_⟩
  rw [hopen]
  cases data with
  | none => simpa [Sys.hands, Sys.fills, appended] using hw
  | some d =>
    simp only [Option.isSome_some, Prog.wp_when]
    split
    swap
    · rename_i hbytes
      have hempty : (Payload.bytes d).isEmpty = true := by simpa using hbytes
      have hnothing : s.fills (some d) = false := by simp [Sys.fills, hopen, hempty]
      simp only [Sys.hands, appended, hempty, hnothing, if_true, Bool.false_eq_true, if_false, List.append_nil]
      exact hw
    rename_i hbytes
    have hfills : s.fills (some d) = decide (s.data.size ≤ (s.appendBytes (some d)).dataFileSize) := by
      simp [Sys.fills, hopen, hbytes]
    have happended := hw.appendBytes (some d)
    have hle : xs ++ appended (some d) <+: xs ++ s.hands (.write (some d) onOpen) := by
      rw [Sys.hands, ← List.append_assoc]
      exact List.prefix_append _ _
    have hdata : (s.appendBytes (some d)).data = s.data := data_appendBytes _ s
    set s₁ := s.appendBytes (some d) with hs₁
    have hcounted := happended.counted (s₁.data.sinceFlush + (Payload.bytes d).length)
    simp only [Prog.wp_bind, Prog.wp_modify, Prog.wp_get, Prog.wp_when]
    refine ⟨hw.onTheWay (List.prefix_append _ _), happended.onTheWay hle, hcounted.onTheWay hle, ?_⟩
    -- the size test and the rotation, behind a flush that was due or not
    have hrotate : ∀ s₃ : Sys κ, Writing n size c₀ h₀ (xs ++ appended (some d)) s₃ h → s₃.dataFileSize = s₁.dataFileSize →
        Prog.wp (OnTheWay n size c₀ h₀ (xs ++ s.hands (.write (some d) onOpen)))
          (.when (s₃.data.size ≤ s₃.dataFileSize) (openNextSlot onOpen))
          (fun _ s' => Writing n size c₀ h₀ (xs ++ s.hands (.write (some d) onOpen)) s'
            (if s.fills (some d) then (h + 1) % n else h)) s₃ := by
      intro s₃ h₃ hlength
      have hsize : s₃.data.size = s.data.size := h₃.live.limit.trans hw.live.limit.symm
      rw [Prog.wp_when, hsize, hlength, ← hfills]
      cases hfull : s.fills (some d) with
      | false => simpa [Sys.hands, hfull] using h₃
      | true =>
        simp only [Sys.hands, hfull, if_true, ← List.append_assoc]
        obtain ⟨f, hf⟩ := Option.isSome_iff_exists.1 h₃.live.slot
        have hlong : size ≤ f.size := by
          rw [hfills, ← hlength, ← hsize, h₃.live.limit] at hfull
          simpa [Sys.dataFileSize, h₃.live.dataFile, hf] using hfull
        have hfull' : Full size s₃.close.card h := by
          refine ⟨f.sync, ?_, rfl, hlong⟩
          rw [h₃.live.close, Card.sync, alter_slots, if_pos rfl, hf, Option.map_some]
        exact way_openNextSlot hn onOpen h₃.live.inv h₃.live.held h₃.traced h₃.live.files h₃.live.limit h₃.live.fileIdx hfull'
    split
    · have hflushed := hcounted.flush
      refine ⟨hcounted.onTheWay hle, hflushed.onTheWay hle, hflushed.onTheWay hle, ?_⟩
      exact (Prog.wp_when _ _ _ _).1 (hrotate _ hflushed (dataFileSize_flush _))
    · refine ⟨hcounted.onTheWay hle, hcounted.onTheWay hle, ?_⟩
      exact (Prog.wp_when _ _ _ _).1 (hrotate _ hcounted rfl)

end BoredomOS.Storage
