import Mathlib.Logic.Relation
import Mathlib.Logic.Function.Iterate
import Mathlib.Data.Nat.Notation

/-! # Iteration to a result

A deterministic step either gives a result or goes on. Iterating it with enough fuel gives a
result exactly when the sequence of states is finite, and the result is that of the last state. -/
namespace MetadataAgent.Lib
set_option autoImplicit false

variable {σ ρ : Type*} (step : σ → ρ ⊕ σ)

def iterate : ℕ → σ → Option ρ
  | 0, _ => none
  | n + 1, s =>
    match step s with
    | .inl r => some r
    | .inr t => iterate n t

def GoesTo (s t : σ) : Prop := step s = .inr t

variable {step}

theorem iterate_succ_of_goesTo {s t : σ} (h : GoesTo step s t) (n : ℕ) :
    iterate step (n + 1) s = iterate step n t := by
  unfold GoesTo at h
  rw [iterate, h]

theorem iterate_succ_of_result {s : σ} {r : ρ} (h : step s = .inl r) (n : ℕ) :
    iterate step (n + 1) s = some r := by
  rw [iterate, h]

theorem reached_of_iterate {n : ℕ} {s : σ} {r : ρ} (h : iterate step n s = some r) :
    ∃ t, Relation.ReflTransGen (GoesTo step) s t ∧ step t = .inl r := by
  induction n generalizing s with
  | zero => cases h
  | succ n ih =>
    cases hs : step s with
    | inl r' =>
      rw [iterate_succ_of_result hs, Option.some.injEq] at h
      exact ⟨s, Relation.ReflTransGen.refl, h ▸ hs⟩
    | inr t =>
      rw [iterate_succ_of_goesTo hs] at h
      obtain ⟨u, hu, hr⟩ := ih h
      exact ⟨u, Relation.ReflTransGen.head hs hu, hr⟩

theorem iterate_of_reached {s t : σ} {r : ρ} (h : Relation.ReflTransGen (GoesTo step) s t)
    (hr : step t = .inl r) : ∃ n, iterate step n s = some r := by
  induction h using Relation.ReflTransGen.head_induction_on with
  | refl => exact ⟨1, iterate_succ_of_result hr 0⟩
  | head hs _ ih =>
    obtain ⟨n, hn⟩ := ih
    exact ⟨n + 1, (iterate_succ_of_goesTo hs n).trans hn⟩

theorem iterate_eq_some_iff {s : σ} {r : ρ} :
    (∃ n, iterate step n s = some r) ↔
      ∃ t, Relation.ReflTransGen (GoesTo step) s t ∧ step t = .inl r := by
  constructor
  · rintro ⟨n, h⟩
    exact reached_of_iterate h
  · rintro ⟨t, ht, hr⟩
    exact iterate_of_reached ht hr

theorem iterate_unique {m n : ℕ} {s : σ} {r r' : ρ} (h : iterate step m s = some r)
    (h' : iterate step n s = some r') : r = r' := by
  induction m generalizing n s with
  | zero => cases h
  | succ m ih =>
    cases n with
    | zero => cases h'
    | succ n =>
      cases hs : step s with
      | inl q =>
        rw [iterate_succ_of_result hs, Option.some.injEq] at h h'
        exact h.symm.trans h'
      | inr t =>
        rw [iterate_succ_of_goesTo hs] at h h'
        exact ih h h'

theorem ends_of_result {s : σ} {r : ρ} (h : step s = .inl r) :
    ∃ n q, iterate step n s = some q :=
  ⟨1, r, iterate_succ_of_result h 0⟩

theorem ends_iff_of_goesTo {s t : σ} (h : GoesTo step s t) :
    (∃ n r, iterate step n s = some r) ↔ ∃ n r, iterate step n t = some r := by
  constructor
  · rintro ⟨n, r, hn⟩
    cases n with
    | zero => cases hn
    | succ n =>
      rw [iterate_succ_of_goesTo h] at hn
      exact ⟨n, r, hn⟩
  · rintro ⟨n, r, hn⟩
    exact ⟨n + 1, r, (iterate_succ_of_goesTo h n).trans hn⟩

/-- States from which a step always leads to such a state have no result. -/
theorem iterate_eq_none {P : σ → Prop} (hstep : ∀ s, P s → ∃ t, GoesTo step s t ∧ P t) {s : σ}
    (hs : P s) (n : ℕ) : iterate step n s = none := by
  induction n generalizing s with
  | zero => rfl
  | succ n ih =>
    obtain ⟨t, hgo, ht⟩ := hstep s hs
    rw [iterate_succ_of_goesTo hgo]
    exact ih ht

theorem iterate_keeps {P : σ → Prop} {Q : ρ → Prop} (hgo : ∀ s t, P s → GoesTo step s t → P t)
    (hend : ∀ s r, P s → step s = .inl r → Q r) {n : ℕ} {s : σ} {r : ρ} (hs : P s)
    (h : iterate step n s = some r) : Q r := by
  obtain ⟨t, hreached, hr⟩ := reached_of_iterate h
  have hkept : P t := by
    clear hr
    induction hreached with
    | refl => exact hs
    | tail _ hlast ih => exact hgo _ _ ih hlast
  exact hend t r hkept hr

/-- There is a result exactly when the states cannot go on for ever. -/
theorem iterate_isSome_iff_acc {s : σ} :
    (∃ n r, iterate step n s = some r) ↔ Acc (fun t u => GoesTo step u t) s := by
  constructor
  · rintro ⟨n, r, h⟩
    induction n generalizing s with
    | zero => cases h
    | succ n ih =>
      refine Acc.intro s fun t hs => ?_
      rw [iterate_succ_of_goesTo hs] at h
      exact ih h
  · intro h
    induction h with
    | intro s _ ih =>
      cases hs : step s with
      | inl r => exact ⟨1, r, iterate_succ_of_result hs 0⟩
      | inr t =>
        obtain ⟨n, r, hn⟩ := ih t hs
        exact ⟨n + 1, r, (iterate_succ_of_goesTo hs n).trans hn⟩

/-- A step of a run that has no more to do once it has its result. -/
def advance (step : σ → ρ ⊕ σ) : ρ ⊕ σ → ρ ⊕ σ
  | .inl r => .inl r
  | .inr s => step s

theorem advance_iterate_inl (r : ρ) (n : ℕ) : (advance step)^[n] (.inl r) = .inl r := by
  induction n with
  | zero => rfl
  | succ n ih => rw [Function.iterate_succ_apply, advance, ih]

/-- The fuel is the number of steps that the run is given. -/
theorem iterate_eq_some_iff_advance {n : ℕ} {s : σ} {r : ρ} :
    iterate step n s = some r ↔ (advance step)^[n] (.inr s) = .inl r := by
  induction n generalizing s with
  | zero =>
    rw [Function.iterate_zero_apply]
    exact iff_of_false nofun Sum.inr_ne_inl
  | succ n ih =>
    rw [Function.iterate_succ_apply, advance]
    cases hs : step s with
    | inl q =>
      rw [iterate_succ_of_result hs, advance_iterate_inl, Option.some.injEq, Sum.inl.injEq]
    | inr t => rw [iterate_succ_of_goesTo hs, ih]

end MetadataAgent.Lib
