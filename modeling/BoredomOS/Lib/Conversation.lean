/-
A server that is asked one thing at a time. What it has sent falls into one part for each request, in the
order of the requests, if a step that takes a request begins a part, any other step only adds to the last
part, and a part that nothing more is added to stays as it is.
-/
import BoredomOS.Lib.Runs
import Mathlib.Data.List.Forall2

namespace Conversation

open Runs

variable {σ ε ρ α : Type*} (R : ρ → List α → Prop)

/-- What was sent is one part for each request. -/
def Answered (requests : List ρ) (sent : List α) : Prop := ∃ parts, List.Forall₂ R requests parts ∧ parts.flatten = sent

/-- Of the last request this part was sent so far. -/
def Underway (requests : List ρ) (sent : List α) (request : ρ) (part : List α) : Prop :=
  ∃ requests' sent', Answered R requests' sent' ∧ requests = requests' ++ [request] ∧ sent = sent' ++ part

variable {R} {requests : List ρ} {sent part more : List α} {request : ρ}

theorem Answered.nil : Answered R [] [] := ⟨[], .nil, rfl⟩

theorem Answered.ask (h : Answered R requests sent) (request : ρ) : Underway R (requests ++ [request]) sent request [] :=
  ⟨requests, sent, h, rfl, (List.append_nil _).symm⟩

theorem Underway.add (h : Underway R requests sent request part) (more : List α) :
    Underway R requests (sent ++ more) request (part ++ more) := by
  obtain ⟨requests', sent', hanswered, rfl, rfl⟩ := h
  exact ⟨requests', sent', hanswered, rfl, List.append_assoc _ _ _⟩

/-- The part may be the whole answer. -/
theorem Underway.answered (h : Underway R requests sent request part) (hpart : R request part) : Answered R requests sent := by
  obtain ⟨_, _, ⟨parts, hparts, rfl⟩, rfl, rfl⟩ := h
  refine ⟨parts ++ [part], List.rel_append hparts (.cons hpart .nil), ?_⟩
  rw [List.flatten_append, List.flatten_singleton]

/-- How a machine answers: `Idle` is where it was not asked yet, `Goes` where it may go on with a part. -/
structure Answers (R : ρ → List α → Prop) (step : σ → ε → Option σ) (asks : ε → Option ρ) (out : σ → List α)
    (Idle : σ → Prop) (Goes : σ → ρ → List α → Prop) : Prop where
  idle : ∀ {s s' e}, Idle s → step s e = some s' → asks e = none → out s' = out s ∧ Idle s'
  ask : ∀ {s s' e request}, (Idle s ∨ ∃ last part, Goes s last part) → step s e = some s' → asks e = some request →
    out s' = out s ∧ Goes s' request []
  go : ∀ {s s' e request part}, Goes s request part → step s e = some s' → asks e = none →
    ∃ more, out s' = out s ++ more ∧ Goes s' request (part ++ more)
  whole : ∀ {s request part}, Goes s request part → R request part

/-- Over a run the requests are answered in order. -/
theorem Answers.run {step : σ → ε → Option σ} {asks : ε → Option ρ} {out : σ → List α} {Idle : σ → Prop}
    {Goes : σ → ρ → List α → Prop} (h : Answers R step asks out Idle Goes) {b : σ} (hidle : Idle b) (hnone : out b = [])
    {es : List ε} {s : σ} (hrun : run step b es = some s) : Answered R (es.filterMap asks) (out s) := by
  have hinv : Idle s ∧ Answered R (es.filterMap asks) (out s) ∨
      ∃ request part, Goes s request part ∧ Underway R (es.filterMap asks) (out s) request part := by
    induction es using List.reverseRecOn generalizing s with
    | nil =>
      cases hrun
      exact .inl ⟨hidle, hnone ▸ .nil⟩
    | append_singleton es e ih =>
      obtain ⟨m, hm, hs⟩ := run_concat.1 hrun
      rw [List.filterMap_append]
      rcases hasks : asks e with _ | request
      · rw [show List.filterMap asks [e] = [] by simp [hasks], List.append_nil]
        rcases ih hm with ⟨hm, hanswered⟩ | ⟨request, part, hgoes, hunder⟩
        · obtain ⟨hout, hs⟩ := h.idle hm hs hasks
          exact .inl ⟨hs, hout ▸ hanswered⟩
        · obtain ⟨more, hout, hgoes⟩ := h.go hgoes hs hasks
          exact .inr ⟨request, _, hgoes, hout ▸ hunder.add more⟩
      · rw [show List.filterMap asks [e] = [request] by simp [hasks]]
        -- the part before it ends where it stands
        rcases ih hm with ⟨hm, hanswered⟩ | ⟨last, part, hwas, hunder⟩
        · obtain ⟨hout, hgoes⟩ := h.ask (.inl hm) hs hasks
          exact .inr ⟨request, [], hgoes, hout ▸ hanswered.ask request⟩
        · obtain ⟨hout, hgoes⟩ := h.ask (.inr ⟨last, part, hwas⟩) hs hasks
          exact .inr ⟨request, [], hgoes, hout ▸ (hunder.answered (h.whole hwas)).ask request⟩
  rcases hinv with ⟨-, hanswered⟩ | ⟨_, _, hgoes, hunder⟩
  · exact hanswered
  · exact hunder.answered (h.whole hgoes)

end Conversation
