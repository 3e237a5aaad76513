import Mathlib.Data.List.Basic

/-! # Runs that stop and are resumed

A step may stop the run with a reason, and the rest of the input is then lost. Cutting the input
makes no difference to a single run. A run that is taken up again with the next piece of input,
whatever happened to the last one, shows what the single run shows, provided that a stop leaves a
state in which nothing more happens. -/
namespace MetadataAgent.Lib
set_option autoImplicit false

variable {σ α ρ ρ' : Type}

def runUntil (step : σ → α → σ × Option ρ) : σ → List α → σ × Option ρ
  | s, [] => (s, none)
  | s, a :: as =>
    match step s a with
    | (t, none) => runUntil step t as
    | (t, some r) => (t, some r)

section Run
variable {step : σ → α → σ × Option ρ}

theorem runUntil_cons_none {s t : σ} {a : α} (as : List α) (h : step s a = (t, none)) :
    runUntil step s (a :: as) = runUntil step t as := by
  rw [runUntil, h]

theorem runUntil_cons_some {s t : σ} {a : α} {r : ρ} (as : List α) (h : step s a = (t, some r)) :
    runUntil step s (a :: as) = (t, some r) := by
  rw [runUntil, h]

theorem runUntil_append_none {s t : σ} {as : List α} (bs : List α)
    (h : runUntil step s as = (t, none)) :
    runUntil step s (as ++ bs) = runUntil step t bs := by
  induction as generalizing s with
  | nil =>
    obtain rfl : s = t := congrArg Prod.fst h
    rfl
  | cons a as ih =>
    rw [List.cons_append]
    rcases hstep : step s a with ⟨u, _ | r⟩
    · rw [runUntil_cons_none _ hstep] at h ⊢
      exact ih h
    · rw [runUntil_cons_some _ hstep] at h
      cases h

theorem runUntil_append_some {s t : σ} {as : List α} {r : ρ} (bs : List α)
    (h : runUntil step s as = (t, some r)) : runUntil step s (as ++ bs) = (t, some r) := by
  induction as generalizing s with
  | nil => cases h
  | cons a as ih =>
    rw [List.cons_append]
    rcases hstep : step s a with ⟨u, _ | r'⟩
    · rw [runUntil_cons_none _ hstep] at h ⊢
      exact ih h
    · rw [runUntil_cons_some _ hstep] at h ⊢
      exact h

theorem runUntil_flatten (s : σ) (pieces : List (List α)) :
    runUntil (runUntil step) s pieces = runUntil step s pieces.flatten := by
  induction pieces generalizing s with
  | nil => rfl
  | cons piece pieces ih =>
    rw [List.flatten_cons]
    rcases hpiece : runUntil step s piece with ⟨t, _ | r⟩
    · rw [runUntil_cons_none _ hpiece, runUntil_append_none _ hpiece, ih]
    · rw [runUntil_cons_some _ hpiece, runUntil_append_some _ hpiece]

theorem runUntil_preserves {P : σ → Prop} (hstep : ∀ s a, P s → P (step s a).1) {s : σ} (hs : P s)
    (as : List α) : P (runUntil step s as).1 := by
  induction as generalizing s with
  | nil => exact hs
  | cons a as ih =>
    have hnext := hstep s a hs
    rcases h : step s a with ⟨t, _ | r⟩
    · rw [h] at hnext
      rw [runUntil_cons_none _ h]
      exact ih hnext
    · rw [h] at hnext
      rw [runUntil_cons_some _ h]
      exact hnext

/-- Reasons are only reported: another reason for every stop leaves the states as they are. -/
theorem runUntil_map (step : σ → α → σ × Option ρ) (f : σ → α → ρ → ρ') (s : σ) (as : List α) :
    (runUntil (fun s a => ((step s a).1, (step s a).2.map (f s a))) s as).1 =
      (runUntil step s as).1 := by
  induction as generalizing s with
  | nil => rfl
  | cons a as ih =>
    rw [runUntil, runUntil]
    rcases step s a with ⟨t, _ | r⟩
    · exact ih t
    · rfl

theorem runUntil_map_none (step : σ → α → σ × Option ρ) (f : σ → α → ρ → ρ') {s t : σ}
    {as : List α} (h : runUntil step s as = (t, none)) :
    runUntil (fun s a => ((step s a).1, (step s a).2.map (f s a))) s as = (t, none) := by
  induction as generalizing s with
  | nil =>
    obtain rfl : s = t := congrArg Prod.fst h
    rfl
  | cons a as ih =>
    rcases hstep : step s a with ⟨u, _ | r⟩
    · rw [runUntil_cons_none _ hstep] at h
      rw [runUntil, hstep]
      exact ih h
    · rw [runUntil_cons_some _ hstep] at h
      cases h

/-! ## Taking up a run again -/

/-- Piece after piece from the state that the last one left, stopped or not. -/
def resume (step : σ → α → σ × Option ρ) (s : σ) (pieces : List (List α)) : σ :=
  pieces.foldl (fun s piece => (runUntil step s piece).1) s

theorem resume_preserves {P : σ → Prop} (hstep : ∀ s a, P s → P (step s a).1) {s : σ} (hs : P s)
    (pieces : List (List α)) : P (resume step s pieces) := by
  induction pieces generalizing s with
  | nil => exact hs
  | cons piece pieces ih => exact ih (runUntil_preserves hstep hs piece)

theorem resume_of_none {s t : σ} {pieces : List (List α)}
    (h : runUntil step s pieces.flatten = (t, none)) : resume step s pieces = t := by
  induction pieces generalizing s with
  | nil => exact congrArg Prod.fst h
  | cons piece pieces ih =>
    rw [List.flatten_cons] at h
    rcases hpiece : runUntil step s piece with ⟨u, _ | r⟩
    · rw [runUntil_append_none _ hpiece] at h
      rw [resume, List.foldl_cons, hpiece]
      exact ih h
    · rw [runUntil_append_some _ hpiece] at h
      cases h

/-- If the single run stops in a state that keeps `P`, the resumed one ends in such a state. -/
theorem resume_of_some {P : σ → Prop} (hstep : ∀ s a, P s → P (step s a).1) {s t : σ} {r : ρ}
    {pieces : List (List α)} (h : runUntil step s pieces.flatten = (t, some r)) (ht : P t) :
    P (resume step s pieces) := by
  induction pieces generalizing s with
  | nil => cases h
  | cons piece pieces ih =>
    rw [List.flatten_cons] at h
    rw [resume, List.foldl_cons]
    rcases hpiece : runUntil step s piece with ⟨u, _ | r'⟩
    · rw [runUntil_append_none _ hpiece] at h
      exact ih h
    · rw [runUntil_append_some _ hpiece] at h
      obtain rfl : u = t := congrArg Prod.fst h
      exact resume_preserves hstep ht pieces

end Run

end MetadataAgent.Lib
