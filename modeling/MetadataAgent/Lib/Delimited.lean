import Mathlib.Algebra.GroupWithZero.Nat
import Mathlib.Data.List.Basic

/-! # Delimited sequences

A list is written item by item, with a separator between two items and a closing mark at the end.
If every item can be read back from the front of a text, then so can the whole list; and the
length of the text is the sum of its parts. -/
namespace MetadataAgent.Lib
set_option autoImplicit false

variable {α τ : Type*}

theorem intercalate_cons (sep : τ) (x : List τ) (xs : List (List τ)) :
    [sep].intercalate (x :: xs) = x ++ xs.flatMap fun y => sep :: y := by
  induction xs generalizing x with
  | nil => simp [List.intercalate]
  | cons y ys ih =>
    rw [List.intercalate_cons_cons, ih, List.flatMap_cons]
    simp

theorem length_flatMap_cons (sep : τ) (xs : List (List τ)) :
    (xs.flatMap fun y => sep :: y).length = (xs.map List.length).sum + xs.length := by
  induction xs with
  | nil => rfl
  | cons x xs ih =>
    rw [List.flatMap_cons, List.length_append, ih]
    simp only [List.length_cons, List.map_cons, List.sum_cons]
    omega

theorem length_intercalate (sep : τ) (xs : List (List τ)) :
    ([sep].intercalate xs).length = (xs.map List.length).sum + (xs.length - 1) := by
  cases xs with
  | nil => rfl
  | cons x xs =>
    rw [intercalate_cons, List.length_append, length_flatMap_cons]
    simp only [List.length_cons, List.map_cons, List.sum_cons]
    omega

theorem flatMap_intercalate {σ : Type*} (f : τ → List σ) {sep : τ} {mark : σ}
    (hsep : f sep = [mark]) (xs : List (List τ)) :
    ([sep].intercalate xs).flatMap f = [mark].intercalate (xs.map fun x => x.flatMap f) := by
  cases xs with
  | nil => rfl
  | cons x xs =>
    rw [intercalate_cons, List.map_cons, intercalate_cons, List.flatMap_append, List.flatMap_map,
      List.flatMap_assoc]
    congr 1
    apply List.flatMap_congr
    intro y _
    rw [List.flatMap_cons, hsep, List.singleton_append]

/-- What `enc` writes for `a` can be read back from the front of any text. -/
def Readable (enc : α → List τ) (a : α) : Prop :=
  ∀ b s t, enc a ++ s = enc b ++ t → a = b ∧ s = t

variable {sep close : τ} {enc : α → List τ}

theorem tail_readable (hsep : sep ≠ close) (as bs : List α) (has : ∀ a ∈ as, Readable enc a)
    (s t : List τ)
    (h : (as.flatMap fun a => sep :: enc a) ++ close :: s =
      (bs.flatMap fun b => sep :: enc b) ++ close :: t) : as = bs ∧ s = t := by
  induction as generalizing bs with
  | nil =>
    cases bs with
    | nil => simpa using h
    | cons b bs =>
      simp only [List.flatMap_nil, List.nil_append, List.flatMap_cons, List.cons_append,
        List.cons.injEq] at h
      exact absurd h.1.symm hsep
  | cons a as ih =>
    cases bs with
    | nil =>
      simp only [List.flatMap_nil, List.nil_append, List.flatMap_cons, List.cons_append,
        List.cons.injEq] at h
      exact absurd h.1 hsep
    | cons b bs =>
      simp only [List.flatMap_cons, List.cons_append, List.append_assoc, List.cons.injEq,
        true_and] at h
      obtain ⟨rfl, hrest⟩ := has a List.mem_cons_self b _ _ h
      obtain ⟨rfl, rfl⟩ := ih bs (fun c hc => has c (List.mem_cons_of_mem _ hc)) hrest
      exact ⟨rfl, rfl⟩

theorem delimited_readable (hsep : sep ≠ close) (hhead : ∀ a s t, enc a ++ s ≠ close :: t)
    (as bs : List α) (has : ∀ a ∈ as, Readable enc a) (s t : List τ)
    (h : [sep].intercalate (as.map enc) ++ close :: s =
      [sep].intercalate (bs.map enc) ++ close :: t) : as = bs ∧ s = t := by
  cases as with
  | nil =>
    cases bs with
    | nil => simpa [List.intercalate] using h
    | cons b bs =>
      rw [List.map_cons, intercalate_cons, List.append_assoc] at h
      exact absurd h.symm (hhead b _ _)
  | cons a as =>
    cases bs with
    | nil =>
      rw [List.map_cons, intercalate_cons, List.append_assoc] at h
      exact absurd h (hhead a _ _)
    | cons b bs =>
      rw [List.map_cons, List.map_cons, intercalate_cons, intercalate_cons, List.append_assoc,
        List.append_assoc, List.flatMap_map, List.flatMap_map] at h
      obtain ⟨rfl, hrest⟩ := has a List.mem_cons_self b _ _ h
      obtain ⟨rfl, rfl⟩ := tail_readable hsep as bs
        (fun c hc => has c (List.mem_cons_of_mem _ hc)) s t hrest
      exact ⟨rfl, rfl⟩

end MetadataAgent.Lib
