import Mathlib.Data.Nat.Notation

/-! # Streaks

`streak p k` is the number of indices in a row, counted back from `k`, that satisfy `p`: what a
counter holds that each success of `p` increases and each failure resets. -/
namespace MetadataAgent.Lib
set_option autoImplicit false

variable (p : ℕ → Bool)

def streak : ℕ → ℕ
  | 0 => 0
  | k + 1 => if p k then streak k + 1 else 0

@[simp] theorem streak_zero : streak p 0 = 0 := rfl

variable {p}

theorem streak_succ_of_true {k : ℕ} (h : p k = true) : streak p (k + 1) = streak p k + 1 := by
  rw [streak, if_pos h]

theorem streak_succ_of_false {k : ℕ} (h : p k = false) : streak p (k + 1) = 0 := by
  rw [streak, h]
  rfl

/-- The counter has reached `n` when the last `n` indices satisfy the predicate. -/
theorem le_streak_iff {n k : ℕ} :
    n ≤ streak p k ↔ n ≤ k ∧ ∀ j, k ≤ j + n → j < k → p j = true := by
  induction k generalizing n with
  | zero =>
    rw [streak_zero]
    constructor
    · intro h
      refine ⟨h, ?_⟩
      intro j _ hj
      omega
    · intro h
      exact h.1
  | succ k ih =>
    cases hp : p k with
    | true =>
      rw [streak_succ_of_true hp]
      cases n with
      | zero =>
        constructor
        · intro _
          refine ⟨by omega, ?_⟩
          intro j hkj hj
          omega
        · intro _
          omega
      | succ n =>
        rw [Nat.add_le_add_iff_right, ih]
        constructor
        · rintro ⟨hn, hall⟩
          refine ⟨by omega, ?_⟩
          intro j hkj hj
          by_cases hlast : j = k
          · rw [hlast, hp]
          · exact hall j (by omega) (by omega)
        · rintro ⟨hn, hall⟩
          refine ⟨by omega, ?_⟩
          intro j hkj hj
          exact hall j (by omega) (by omega)
    | false =>
      rw [streak_succ_of_false hp]
      constructor
      · intro h
        refine ⟨by omega, ?_⟩
        intro j hkj hj
        omega
      · rintro ⟨_, hall⟩
        rcases Nat.eq_zero_or_pos n with hzero | hpos
        · omega
        · have hk := hall k (by omega) (by omega)
          rw [hp] at hk
          cases hk

end MetadataAgent.Lib
