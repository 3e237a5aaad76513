import Mathlib.Data.List.Basic

/-! # Interleavings

A run of several threads is the list of their steps, each with the thread that takes it. The steps
of one thread keep their order; nothing else is fixed. A view of the state that the steps of the
other threads leave alone is what the thread's own steps make of it, so that it is the same in all
interleavings. -/
namespace MetadataAgent.Lib
set_option autoImplicit false

section Interleavings
variable {ι κ : Type*} [DecidableEq ι]

/-- The steps of one thread. -/
def own (i : ι) (run : List (ι × κ)) : List κ :=
  (run.filter fun step => decide (step.1 = i)).map Prod.snd

@[simp] theorem own_cons_self (i : ι) (c : κ) (run : List (ι × κ)) :
    own i ((i, c) :: run) = c :: own i run := by
  rw [own, List.filter_cons_of_pos (by simp), List.map_cons]
  rfl

theorem own_cons_of_ne {i : ι} {step : ι × κ} (h : step.1 ≠ i) (run : List (ι × κ)) :
    own i (step :: run) = own i run := by
  rw [own, List.filter_cons_of_neg (by simpa using h)]
  rfl

theorem own_append (i : ι) (run run' : List (ι × κ)) :
    own i (run ++ run') = own i run ++ own i run' := by
  rw [own, List.filter_append, List.map_append]
  rfl

theorem own_map_self (i : ι) (cs : List κ) : own i (cs.map fun c => (i, c)) = cs := by
  induction cs with
  | nil => rfl
  | cons c cs ih => rw [List.map_cons, own_cons_self, ih]

/-! ## Views -/

section View
variable {σ β : Type*} {step : σ → κ → σ} {view : σ → β} {viewStep : β → κ → β}

/-- A view that follows the steps follows a run. -/
theorem view_foldl (hview : ∀ s c, view (step s c) = viewStep (view s) c) (s : σ) (cs : List κ) :
    view (cs.foldl step s) = cs.foldl viewStep (view s) := by
  induction cs generalizing s with
  | nil => rfl
  | cons c cs ih => rw [List.foldl_cons, ih, hview, List.foldl_cons]

/-- Steps that leave the view alone can be left out at the end of a run. -/
theorem view_append_fixed (hview : ∀ s c, view (step s c) = viewStep (view s) c) (s : σ)
    (cs : List κ) {later : List κ} (hfixed : ∀ c ∈ later, ∀ b, viewStep b c = b) :
    view ((cs ++ later).foldl step s) = view (cs.foldl step s) := by
  rw [List.foldl_append, view_foldl hview]
  generalize view (cs.foldl step s) = b
  induction later with
  | nil => rfl
  | cons c later ih =>
    rw [List.foldl_cons, hfixed c List.mem_cons_self]
    exact ih fun d hd => hfixed d (List.mem_cons_of_mem c hd)

/-- A view that no step of another thread changes is what the thread's own steps make of it. -/
theorem view_eq_own (hview : ∀ s c, view (step s c) = viewStep (view s) c) {i : ι} (s : σ)
    (run : List (ι × κ)) (hframe : ∀ x ∈ run, x.1 ≠ i → ∀ b, viewStep b x.2 = b) :
    view ((run.map Prod.snd).foldl step s) = view ((own i run).foldl step s) := by
  rw [view_foldl hview, view_foldl hview]
  generalize view s = b
  induction run generalizing b with
  | nil => rfl
  | cons x run ih =>
    obtain ⟨j, c⟩ := x
    have hrest := ih fun y hy => hframe y (List.mem_cons_of_mem _ hy)
    rw [List.map_cons, List.foldl_cons, hrest]
    by_cases h : j = i
    · subst h
      rw [own_cons_self, List.foldl_cons]
    · rw [own_cons_of_ne h, hframe (j, c) List.mem_cons_self h]

end View

end Interleavings

end MetadataAgent.Lib
