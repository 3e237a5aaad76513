import Mathlib.Data.Set.Finite.Lattice
import Mathlib.Logic.Relation
import Mathlib.Order.Preorder.Finite
import Mathlib.Order.WellFounded

/-! # Walks and cycles

Steps that cannot go on for ever never come back to where they were. The converse holds for what
can be seen of the states, if only finitely many things can be seen. -/
namespace MetadataAgent.Lib
set_option autoImplicit false

variable {σ α : Type*} {R : σ → σ → Prop}

theorem acc_of_reflTransGen {s t : σ} (hs : Acc (fun t u => R u t) s)
    (h : Relation.ReflTransGen R s t) : Acc (fun t u => R u t) t := by
  induction h with
  | refl => exact hs
  | tail _ hstep ih => exact ih.inv hstep

/-- Walks from a cycle never end. -/
theorem not_acc_of_cycle {s : σ} (h : Relation.TransGen R s s) : ¬ Acc (fun t u => R u t) s := by
  intro hs
  induction hs with
  | intro s _ ih =>
    obtain ⟨t, hst, hts⟩ := Relation.TransGen.head'_iff.mp h
    exact ih t hst (Relation.TransGen.tail' hts hst)

/-- A walk on which nothing is seen twice ends, if only finitely many things can be seen. -/
theorem acc_of_finite {s : σ} (see : σ → α) {seen : Set α} (hfinite : seen.Finite)
    (hsee : ∀ t, Relation.ReflTransGen R s t → see t ∈ seen)
    (hacyclic : ∀ t u, Relation.ReflTransGen R s t → Relation.TransGen R t u → see u ≠ see t) :
    Acc (fun t u => R u t) s := by
  by_contra hnot
  obtain ⟨f, hzero, hstep⟩ := not_acc_iff_exists_descending_chain.mp hnot
  have hreached : ∀ n, Relation.ReflTransGen R s (f n) := by
    intro n
    induction n with
    | zero =>
      rw [hzero]
    | succ n ih => exact ih.tail (hstep n)
  have hwalk : ∀ m d, Relation.TransGen R (f m) (f (m + d + 1)) := by
    intro m d
    induction d with
    | zero => exact Relation.TransGen.single (hstep m)
    | succ d ih => exact ih.tail (hstep (m + d + 1))
  obtain ⟨m, n, hlt, hsame⟩ :=
    hfinite.exists_lt_map_eq_of_forall_mem (f := fun n => see (f n)) fun n => hsee _ (hreached n)
  obtain ⟨d, rfl⟩ := Nat.exists_eq_add_of_lt hlt
  exact hacyclic _ _ (hreached m) (hwalk m d) hsame.symm

end MetadataAgent.Lib
