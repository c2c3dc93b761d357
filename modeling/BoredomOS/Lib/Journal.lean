/-
A log that is appended to and of which a crash may take the newest part. What is durable stays at its front
whatever happens; a crash leaves as much of the rest as it likes, from the front on, and of what was being
appended at the moment. Nothing is ever reordered, repeated or made up.
-/
import Mathlib.Data.List.Infix
import Mathlib.Data.List.Induction

variable {α : Type*}

/-- What a crash cannot take, and what it may. -/
structure Journal (α : Type*) where
  durable : List α := []
  pending : List α := []

namespace Journal

def all (j : Journal α) : List α := j.durable ++ j.pending

inductive Ev (α : Type*)
  /-- the entries are appended -/
  | add (xs : List α)
  /-- a crash while they are -/
  | crash (xs : List α)

/-- The entries of an event. -/
def Ev.entries : Ev α → List α
  | .add xs => xs
  | .crash xs => xs

inductive Step : Journal α → Ev α → Journal α → Prop
  | add {j j' : Journal α} {xs : List α} (all : j'.all = j.all ++ xs) (durable : j.durable <+: j'.durable) : Step j (.add xs) j'
  | crash {j j' : Journal α} {xs : List α} (durable : j.durable <+: j'.durable) (kept : j'.durable <+: j.all ++ xs)
      (pending : j'.pending = []) : Step j (.crash xs) j'

inductive Run (j : Journal α) : List (Ev α) → Journal α → Prop
  | nil : Run j [] j
  | step {es : List (Ev α)} {e : Ev α} {j' j'' : Journal α} (before : Run j es j') (last : Step j' e j'') : Run j (es ++ [e]) j''

/-- Each entry written out as its own list of entries. -/
def flatMap {β : Type*} (f : α → List β) (j : Journal α) : Journal β := ⟨j.durable.flatMap f, j.pending.flatMap f⟩

def Ev.flatMap {β : Type*} (f : α → List β) : Ev α → Ev β
  | .add xs => .add (xs.flatMap f)
  | .crash xs => .crash (xs.flatMap f)

variable {j j' : Journal α} {es : List (Ev α)} {e : Ev α}

section

variable {β : Type*} (f : α → List β)

theorem all_flatMap (j : Journal α) : (j.flatMap f).all = j.all.flatMap f := List.flatMap_append.symm

theorem Step.flatMap (h : Step j e j') : Step (j.flatMap f) (e.flatMap f) (j'.flatMap f) := by
  cases h with
  | add all durable =>
    refine .add ?_ (durable.flatMap f)
    rw [all_flatMap, all_flatMap, all, List.flatMap_append]
  | crash durable kept pending =>
    refine .crash (durable.flatMap f) ?_ ?_
    · rw [all_flatMap, ← List.flatMap_append]
      exact kept.flatMap f
    · rw [Journal.flatMap, pending]
      rfl

end

theorem Step.durable (h : Step j e j') : j.durable <+: j'.durable := by
  cases h <;> assumption

/-- What is durable once is at the front of the log for good. -/
theorem Run.durable (h : Run j es j') : j.durable <+: j'.all := by
  have hdurable : j.durable <+: j'.durable := by
    induction h with
    | nil => exact List.prefix_refl _
    | step _ last ih => exact ih.trans last.durable
  exact hdurable.trans (List.prefix_append _ _)

theorem Step.sublist (h : Step j e j') : j'.all.Sublist (j.all ++ e.entries) := by
  cases h with
  | add all => rw [all]; exact List.Sublist.refl _
  | crash durable kept pending =>
    rw [Journal.all, pending, List.append_nil]
    exact kept.sublist

/-- The log holds what was appended, in order and no more often. -/
theorem Run.sublist (h : Run j es j') : j'.all.Sublist (j.all ++ es.flatMap Ev.entries) := by
  induction h with
  | nil => simp
  | step _ last ih =>
    refine last.sublist.trans ?_
    rw [List.flatMap_append, ← List.append_assoc]
    simpa using ih.append_right _

/-- Without a crash it holds all of it. -/
theorem Run.all_of_adds (h : Run j es j') (hadds : ∀ e ∈ es, ∃ xs, e = .add xs) : j'.all = j.all ++ es.flatMap Ev.entries := by
  induction h with
  | nil => simp
  | @step es e _ _ _ last ih =>
    have hbefore := ih fun e he => hadds e (List.mem_append_left _ he)
    obtain ⟨xs, rfl⟩ := hadds e (List.mem_append_right _ (List.mem_singleton_self e))
    cases last with
    | add all => rw [all, hbefore, List.flatMap_append, List.append_assoc]; simp [Ev.entries]

end Journal
