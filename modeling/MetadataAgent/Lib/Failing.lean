import Mathlib.Data.List.Basic

/-! # Computations that may fail

When a bind of `Except` succeeds, what a loop that pushes onto its accumulator returns, and when a
loop that the first failure ends does the same as one that skips failures. -/
namespace MetadataAgent.Lib
set_option autoImplicit false

variable {ε α β : Type}

theorem pure_eq_ok {a b : α} : (pure a : Except ε α) = .ok b ↔ a = b := by
  simp [pure, Except.pure]

theorem bind_eq_ok {x : Except ε α} {f : α → Except ε β} {b : β} :
    (x >>= f) = .ok b ↔ ∃ a, x = .ok a ∧ f a = .ok b := by
  cases x with
  | ok a => simp [bind, Except.bind]
  | error e => simp [bind, Except.bind]

theorem bind_eq_error {x : Except ε α} {f : α → Except ε β} {e : ε} :
    (x >>= f) = .error e ↔ x = .error e ∨ ∃ a, x = .ok a ∧ f a = .error e := by
  cases x with
  | ok a => simp [bind, Except.bind]
  | error e => simp [bind, Except.bind]

theorem mapError_eq_ok {δ : Type} {f : ε → δ} {x : Except ε α} {a : α} :
    x.mapError f = .ok a ↔ x = .ok a := by
  cases x with
  | ok a => simp [Except.mapError]
  | error e => simp [Except.mapError]

theorem mapError_eq_error {δ : Type} {f : ε → δ} {x : Except ε α} {d : δ} :
    x.mapError f = .error d ↔ ∃ e, x = .error e ∧ f e = d := by
  cases x with
  | ok a => simp [Except.mapError]
  | error e => simp [Except.mapError]

theorem toOption_eq_some {x : Except ε α} {a : α} :
    x.toOption = some a ↔ x = .ok a := by
  cases x with
  | error e => simp [Except.toOption]
  | ok b => simp [Except.toOption]

/-- A loop whose every successful turn appends `out x` returns all of them, in order. -/
theorem foldlM_append_eq_ok {step : List β → α → Except ε (List β)} {out : α → List β}
    (hstep : ∀ acc x ys, step acc x = .ok ys → ys = acc ++ out x) (xs : List α)
    (acc ys : List β) (h : xs.foldlM step acc = .ok ys) : ys = acc ++ xs.flatMap out := by
  induction xs generalizing acc with
  | nil =>
    rw [List.foldlM_nil, pure_eq_ok] at h
    rw [List.flatMap_nil, List.append_nil, h]
  | cons x xs ih =>
    rw [List.foldlM_cons, bind_eq_ok] at h
    obtain ⟨mid, hx, hrest⟩ := h
    rw [ih mid hrest, hstep acc x mid hx, List.append_assoc, List.flatMap_cons]

/-- A traversal that succeeds has a result for every element, in order. -/
theorem forall₂_of_mapM {f : α → Except ε β} {as : List α} {bs : List β}
    (h : as.mapM f = .ok bs) : List.Forall₂ (fun a b => f a = .ok b) as bs := by
  induction as generalizing bs with
  | nil =>
    rw [List.mapM_nil, pure_eq_ok] at h
    rw [← h]
    exact .nil
  | cons a as ih =>
    simp only [List.mapM_cons, bind_eq_ok, pure_eq_ok] at h
    obtain ⟨b, hb, bs', hrest, rfl⟩ := h
    exact .cons hb (ih hrest)

theorem exists_of_mem_mapM {f : α → Except ε β} {as : List α} {bs : List β}
    (h : as.mapM f = .ok bs) {b : β} (hb : b ∈ bs) : ∃ a ∈ as, f a = .ok b := by
  induction as generalizing bs with
  | nil =>
    rw [List.mapM_nil, pure_eq_ok] at h
    rw [← h] at hb
    exact absurd hb List.not_mem_nil
  | cons a as ih =>
    simp only [List.mapM_cons, bind_eq_ok, pure_eq_ok] at h
    obtain ⟨c, hc, cs, hrest, rfl⟩ := h
    rcases List.mem_cons.mp hb with rfl | hb
    · exact ⟨a, List.mem_cons_self, hc⟩
    · obtain ⟨a', ha', heq⟩ := ih hrest hb
      exact ⟨a', List.mem_cons_of_mem a ha', heq⟩

/-! ## The first failure -/

/-- What a loop has collected when the first failure ends it. -/
def untilError (f : α → Except ε β) : List α → List β
  | [] => []
  | a :: as =>
    match f a with
    | .error _ => []
    | .ok b => b :: untilError f as

theorem exists_of_mem_untilError {f : α → Except ε β} {as : List α} {b : β}
    (hb : b ∈ untilError f as) : ∃ a ∈ as, f a = .ok b := by
  induction as with
  | nil => exact absurd hb List.not_mem_nil
  | cons a as ih =>
    rw [untilError] at hb
    cases ha : f a with
    | error e =>
      rw [ha] at hb
      exact absurd hb List.not_mem_nil
    | ok c =>
      rw [ha] at hb
      rcases List.mem_cons.mp hb with rfl | hb
      · exact ⟨a, List.mem_cons_self, ha⟩
      · obtain ⟨a', ha', heq⟩ := ih hb
        exact ⟨a', List.mem_cons_of_mem a ha', heq⟩

/-- What a loop collects that skips failures. -/
def skippingErrors (f : α → Except ε β) (as : List α) : List β :=
  as.filterMap fun a => (f a).toOption

theorem skippingErrors_eq_nil {f : α → Except ε β} {as : List α} :
    skippingErrors f as = [] ↔ ∀ a ∈ as, (f a).toOption = none :=
  List.filterMap_eq_nil_iff

/-- The two loops agree when nothing that succeeds comes after a failure. -/
theorem untilError_eq_skippingErrors_iff (f : α → Except ε β) (as : List α) :
    untilError f as = skippingErrors f as ↔
      as.Pairwise fun a b => (f a).toOption = none → (f b).toOption = none := by
  induction as with
  | nil => simp [untilError, skippingErrors]
  | cons a as ih =>
    rw [List.pairwise_cons, ← ih]
    cases ha : f a with
    | error e =>
      have hhead : skippingErrors f (a :: as) = skippingErrors f as := by
        rw [skippingErrors, List.filterMap_cons, ha]
        rfl
      rw [untilError, ha, hhead, eq_comm, skippingErrors_eq_nil]
      constructor
      · intro hall
        have hrest : ∀ as : List α, (∀ b ∈ as, (f b).toOption = none) → untilError f as = [] := by
          intro as hall
          cases as with
          | nil => rfl
          | cons b as =>
            have hb := hall b List.mem_cons_self
            rw [untilError]
            cases hfb : f b with
            | error e => rfl
            | ok c =>
              rw [hfb] at hb
              cases hb
        refine ⟨fun b hb _ => hall b hb, ?_⟩
        rw [hrest as hall, skippingErrors_eq_nil.mpr hall]
      · rintro ⟨hall, _⟩
        exact fun b hb => hall b hb rfl
    | ok c =>
      have hhead : skippingErrors f (a :: as) = c :: skippingErrors f as := by
        rw [skippingErrors, List.filterMap_cons, ha]
        rfl
      have hcons : untilError f (a :: as) = c :: untilError f as := by
        rw [untilError, ha]
      rw [hcons, hhead, List.cons.injEq]
      constructor
      · rintro ⟨_, hrest⟩
        refine ⟨?_, hrest⟩
        intro b _ hnone
        cases hnone
      · rintro ⟨_, hrest⟩
        exact ⟨rfl, hrest⟩

end MetadataAgent.Lib
