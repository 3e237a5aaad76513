import Mathlib.Data.List.Basic

/-! # Logs of answers

Events change a state, and queries are answered from the state they find. A run interleaves the
two, and its log keeps every query with its answer. An answer is that of a state between the
events, so two answers are related as the states are: the later one has only more events. -/
namespace MetadataAgent.Lib
set_option autoImplicit false

section Log
variable {σ ε θ α : Type*} (apply : σ → ε → σ) (answer : σ → θ → α)

/-- The state after a run; queries do not change it. -/
def applied (s : σ) : List (ε ⊕ θ) → σ
  | [] => s
  | .inl e :: ls => applied (apply s e) ls
  | .inr _ :: ls => applied s ls

/-- The queries of a run with their answers. -/
def answered (s : σ) : List (ε ⊕ θ) → List (θ × α)
  | [] => []
  | .inl e :: ls => answered (apply s e) ls
  | .inr q :: ls => (q, answer s q) :: answered s ls

theorem answered_append (s : σ) (ls ms : List (ε ⊕ θ)) :
    answered apply answer s (ls ++ ms) =
      answered apply answer s ls ++ answered apply answer (applied apply s ls) ms := by
  induction ls generalizing s with
  | nil => rfl
  | cons l ls ih =>
    cases l with
    | inl e => exact ih (apply s e)
    | inr q => exact congrArg ((q, answer s q) :: ·) (ih s)

/-- What happened in a run. -/
def events (ls : List (ε ⊕ θ)) : List ε := ls.filterMap Sum.getLeft?

theorem applied_eq_foldl (s : σ) (ls : List (ε ⊕ θ)) :
    applied apply s ls = (events ls).foldl apply s := by
  induction ls generalizing s with
  | nil => rfl
  | cons l ls ih =>
    cases l with
    | inl e => exact ih (apply s e)
    | inr q => exact ih s

variable {apply answer}

/-- An answer is given from a state that the events of the run lead to. -/
theorem exists_of_mem_answered {s : σ} {ls : List (ε ⊕ θ)} {x : θ × α}
    (h : x ∈ answered apply answer s ls) :
    ∃ before after, ls = before ++ .inr x.1 :: after ∧
      x.2 = answer (applied apply s before) x.1 := by
  induction ls generalizing s with
  | nil => cases h
  | cons l ls ih =>
    cases l with
    | inl e =>
      obtain ⟨before, after, rfl, hanswer⟩ := ih h
      exact ⟨.inl e :: before, after, rfl, hanswer⟩
    | inr q =>
      rcases List.mem_cons.mp h with rfl | h
      · exact ⟨[], ls, rfl, rfl⟩
      · obtain ⟨before, after, rfl, hanswer⟩ := ih h
        exact ⟨.inr q :: before, after, rfl, hanswer⟩

/-- What holds of every two answers between which there are only more events holds of the answers
of a run, each with all the later ones. -/
theorem answered_pairwise {R : θ × α → θ × α → Prop}
    (hR : ∀ s (es : List ε) q q', R (q, answer s q) (q', answer (es.foldl apply s) q'))
    (s : σ) (ls : List (ε ⊕ θ)) : (answered apply answer s ls).Pairwise R := by
  induction ls generalizing s with
  | nil => exact List.Pairwise.nil
  | cons l ls ih =>
    cases l with
    | inl e => exact ih (apply s e)
    | inr q =>
      refine List.pairwise_cons.mpr ⟨?_, ih s⟩
      intro x hx
      obtain ⟨before, after, rfl, hanswer⟩ := exists_of_mem_answered hx
      have hx' : x = (x.1, answer ((events before).foldl apply s) x.1) := by
        rw [← applied_eq_foldl, ← hanswer]
      rw [hx']
      exact hR s (events before) q x.1

end Log

end MetadataAgent.Lib
