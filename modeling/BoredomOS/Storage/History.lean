/-
What is known of every generation there ever was. Each operation of the card only adds to a file or
removes it whole, and a new file has a label no file had, so contents that were once at the front of
a file's synced bytes are there for as long as the file is, through every power cut, and nothing else
ever comes under that label.
-/
import BoredomOS.Storage.Generations

namespace BoredomOS.Storage

open Steps

variable {κ : Type} [Payload κ]

/-- What is known of each generation, by its label, and a card it agrees with: the front of each
file's synced bytes, and nothing yet of the labels to come. -/
structure History (contents : Nat → List UInt8) (c : Card κ) : Prop where
  front : ∀ i f, c.slots i = some f → contents f.born <+: f.image
  later : ∀ born, c.pass < born → contents born = []
  le : ∀ i f, c.slots i = some f → f.born ≤ c.pass
  inj : ∀ i j f g, c.slots i = some f → c.slots j = some g → f.born = g.born → i = j

/-- The bytes are known of the generation from now on. -/
def learn (contents : Nat → List UInt8) (born : Nat) (image : List UInt8) : Nat → List UInt8 :=
  Function.update contents born (if (contents born).length ≤ image.length then image else contents born)

namespace History

variable {contents : Nat → List UInt8} {c : Card κ}

theorem empty : History (κ := κ) (fun _ => []) {} where
  front _ _ _ := List.nil_prefix
  later _ _ := rfl
  le _ _ h := by cases h
  inj _ _ _ _ h := by cases h

/-- A file may be added to. -/
theorem alter (h : History contents c) (i : Nat) {g : File κ → File κ}
    (hg : ∀ f, (g f).born = f.born ∧ f.image <+: (g f).image) : History contents (c.alter i g) := by
  have hwas : ∀ j f', (c.alter i g).slots j = some f' → ∃ f, c.slots j = some f ∧ f.born = f'.born ∧ f.image <+: f'.image := by
    intro j f' hf'
    rw [alter_slots] at hf'
    split at hf'
    · rename_i heq
      obtain ⟨f, hf, rfl⟩ := Option.map_eq_some_iff.1 hf'
      exact ⟨f, heq ▸ hf, (hg f).1.symm, (hg f).2⟩
    · exact ⟨f', hf', rfl, List.prefix_refl _⟩
  refine ⟨fun j f' hf' => ?_, h.later, fun j f' hf' => ?_, fun j k f' g' hf' hg' heq => ?_⟩
  · obtain ⟨f, hf, hborn, hpre⟩ := hwas j f' hf'
    exact hborn ▸ (h.front j f hf).trans hpre
  · obtain ⟨f, hf, hborn, -⟩ := hwas j f' hf'
    exact hborn ▸ h.le j f hf
  · obtain ⟨f, hf, hborn, -⟩ := hwas j f' hf'
    obtain ⟨g, hg, hborn', -⟩ := hwas k g' hg'
    exact h.inj j k f g hf hg (hborn.trans (heq.trans hborn'.symm))

/-- A file may go. -/
theorem remove (h : History contents c) (i : Nat) : History contents (c.remove i) := by
  have hwas : ∀ j f, (c.remove i).slots j = some f → c.slots j = some f := by
    intro j f hf
    simp only [Card.remove, Function.update_apply] at hf
    split at hf
    · cases hf
    · exact hf
  exact ⟨fun j f hf => h.front j f (hwas j f hf), h.later, fun j f hf => h.le j f (hwas j f hf),
    fun j k f g hf hg => h.inj j k f g (hwas j f hf) (hwas k g hg)⟩

/-- A file that is created has the label after all others. -/
theorem openSlot (h : History contents c) (i : Nat) : History contents (c.openSlot i) := by
  unfold Card.openSlot
  split
  · have hpass : c.pass ≤ if c.lastSlot = some i then c.pass else c.pass + 1 := by split <;> omega
    exact ⟨h.front, fun born hborn => h.later born (hpass.trans_lt hborn), fun j f hf => (h.le j f hf).trans hpass, h.inj⟩
  · have hwas : ∀ j f, Function.update c.slots i (some { born := c.pass + 1 }) j = some f →
        j = i ∧ f = { born := c.pass + 1 } ∨ c.slots j = some f := by
      intro j f hf
      rw [Function.update_apply] at hf
      split at hf
      · rename_i heq
        cases hf
        exact Or.inl ⟨heq, rfl⟩
      · exact Or.inr hf
    refine ⟨fun j f hf => ?_, fun born hborn => h.later born (Nat.lt_of_succ_lt hborn), fun j f hf => ?_, fun j k f g hf hg heq => ?_⟩
    · rcases hwas j f hf with ⟨-, rfl⟩ | hold
      · change contents (c.pass + 1) <+: _
        rw [h.later _ (Nat.lt_succ_self _)]
        exact List.nil_prefix
      · exact h.front j f hold
    · rcases hwas j f hf with ⟨-, rfl⟩ | hold
      · exact Nat.le_refl _
      · exact (h.le j f hold).trans (Nat.le_succ _)
    · rcases hwas j f hf with ⟨rfl, rfl⟩ | hold
      · rcases hwas k g hg with ⟨rfl, -⟩ | hold'
        · rfl
        · have hle := h.le k g hold'
          change c.pass + 1 = g.born at heq
          omega
      · rcases hwas k g hg with ⟨rfl, rfl⟩ | hold'
        · have hle := h.le j f hold
          change f.born = c.pass + 1 at heq
          omega
        · exact h.inj j k f g hold hold' heq

end History

/-- Every operation of the card agrees with what was known before it. -/
theorem stable_history (contents : Nat → List UInt8) : Stable (History (κ := κ) contents) where
  index _ _ h := ⟨h.front, h.later, h.le, h.inj⟩
  sync c i h := by
    refine h.alter i fun f => ⟨rfl, image_prefix ?_⟩
    simpa [File.sync] using List.take_prefix _ _
  append c i d h := by
    have happend := h.alter i (g := fun f => f.append ⟨d, c.pass, c.appended⟩) fun f =>
      ⟨rfl, image_prefix ((List.prefix_append _ _).take _)⟩
    exact ⟨happend.front, happend.later, happend.le, happend.inj⟩
  openSlot _ i h := h.openSlot i
  remove _ i h := h.remove i

/-- What is synced is what a cut leaves. -/
theorem image_cut (f : File κ) : f.cut.image = f.image := by
  have hpieces : f.cut.cut.pieces = f.cut.pieces := by
    simp [File.cut, List.take_take]
  rw [File.image, File.content, hpieces]
  rfl

namespace History

variable {contents : Nat → List UInt8} {c : Card κ}

theorem cut (h : History contents c) : History contents c.cut := by
  have hwas : ∀ i f', c.cut.slots i = some f' → ∃ f, c.slots i = some f ∧ f' = f.cut := by
    intro i f' hf'
    obtain ⟨f, hf, rfl⟩ := Option.map_eq_some_iff.1 hf'
    exact ⟨f, hf, rfl⟩
  refine ⟨fun i f' hf' => ?_, h.later, fun i f' hf' => ?_, fun i j f' g' hf' hg' heq => ?_⟩
  · obtain ⟨f, hf, rfl⟩ := hwas i f' hf'
    rw [image_cut]
    exact h.front i f hf
  · obtain ⟨f, hf, rfl⟩ := hwas i f' hf'
    exact h.le i f hf
  · obtain ⟨f, hf, rfl⟩ := hwas i f' hf'
    obtain ⟨g, hg, rfl⟩ := hwas j g' hg'
    exact h.inj i j f g hf hg heq

/-- What is at the front of a file may be taken note of. -/
theorem learn (h : History contents c) {i : Nat} {f : File κ} (hf : c.slots i = some f) {image : List UInt8}
    (himage : image <+: f.image) : History (learn contents f.born image) c := by
  refine ⟨fun j g hg => ?_, fun born hborn => ?_, h.le, h.inj⟩
  · unfold Storage.learn
    rw [Function.update_apply]
    split
    · rename_i heq
      obtain rfl := h.inj j i g f hg hf heq
      obtain rfl : g = f := Option.some.inj (hg.symm.trans hf)
      split
      · exact himage
      · exact h.front j g hg
    · exact h.front j g hg
  · have hle := h.le i f hf
    unfold Storage.learn
    rw [Function.update_of_ne (by omega)]
    exact h.later born hborn

/-- Nothing is forgotten, and the bytes are at the front of what is known. -/
theorem learnt (h : History contents c) {i : Nat} {f : File κ} (hf : c.slots i = some f) {image : List UInt8}
    (himage : image <+: f.image) :
    (∀ born, contents born <+: Storage.learn contents f.born image born) ∧ image <+: Storage.learn contents f.born image f.born := by
  have hfront := h.front i f hf
  constructor
  · intro born
    unfold Storage.learn
    rw [Function.update_apply]
    split
    · rename_i heq
      rw [heq]
      split
      · rename_i hle
        exact List.prefix_of_prefix_length_le hfront himage hle
      · exact List.prefix_refl _
    · exact List.prefix_refl _
  · unfold Storage.learn
    rw [Function.update_self]
    split
    · exact List.prefix_refl _
    · rename_i hle
      exact List.prefix_of_prefix_length_le himage hfront (by omega)

end History

end BoredomOS.Storage
