import Mathlib.Data.List.Infix
import Mathlib.Data.List.TakeWhile

/-! # Longest prefixes

A scanner reads the longest prefix of its input that has a given form. -/
namespace MetadataAgent.Lib
set_option autoImplicit false

variable {α : Type*}

/-- The longest prefix that has the form. -/
def longestPrefix : (List α → Bool) → List α → Option (List α)
  | form, [] => if form [] then some [] else none
  | form, a :: s =>
    match longestPrefix (fun u => form (a :: u)) s with
    | some u => some (a :: u)
    | none => if form [] then some [] else none

variable {form : List α → Bool} {s u : List α}

theorem longestPrefix_cons_of_some {a : α}
    (h : longestPrefix (fun u => form (a :: u)) s = some u) :
    longestPrefix form (a :: s) = some (a :: u) := by
  rw [longestPrefix, h]

theorem longestPrefix_cons_of_none {a : α} (h : longestPrefix (fun u => form (a :: u)) s = none) :
    longestPrefix form (a :: s) = if form [] then some [] else none := by
  rw [longestPrefix, h]

theorem longestPrefix_eq_none_iff :
    longestPrefix form s = none ↔ ∀ v, v <+: s → form v = false := by
  induction s generalizing form with
  | nil => simp [longestPrefix]
  | cons a s ih =>
    cases hrest : longestPrefix (fun u => form (a :: u)) s with
    | some u =>
      have hsome : ¬∀ v, v <+: s → form (a :: v) = false := by
        rw [← ih, hrest]
        exact Option.some_ne_none u
      rw [longestPrefix_cons_of_some hrest]
      refine iff_of_false (Option.some_ne_none _) fun h => hsome fun v hv => ?_
      exact h (a :: v) (List.prefix_cons_inj a |>.mpr hv)
    | none =>
      have hnone := ih.mp hrest
      rw [longestPrefix_cons_of_none hrest]
      constructor
      · intro h v hv
        rcases List.prefix_cons_iff.mp hv with rfl | ⟨t, rfl, ht⟩
        · simpa using h
        · exact hnone t ht
      · intro h
        simp [h [] List.nil_prefix]

/-- What is read has the form, and every other prefix that has it is a prefix of what is read. -/
theorem longestPrefix_spec (h : longestPrefix form s = some u) :
    u <+: s ∧ form u = true ∧ ∀ v, v <+: s → form v = true → v <+: u := by
  induction s generalizing form u with
  | nil =>
    by_cases hempty : form [] = true
    · simp only [longestPrefix, hempty, if_true, Option.some.injEq] at h
      subst h
      exact ⟨List.prefix_rfl, hempty, fun v hv _ => hv⟩
    · simp [longestPrefix, hempty] at h
  | cons a s ih =>
    cases hrest : longestPrefix (fun u => form (a :: u)) s with
    | some t =>
      obtain ⟨hfront, hform, hlongest⟩ := ih hrest
      rw [longestPrefix_cons_of_some hrest, Option.some.injEq] at h
      subst h
      refine ⟨(List.prefix_cons_inj a).mpr hfront, hform, fun v hv hvform => ?_⟩
      rcases List.prefix_cons_iff.mp hv with rfl | ⟨w, rfl, hw⟩
      · exact List.nil_prefix
      · exact (List.prefix_cons_inj a).mpr (hlongest w hw hvform)
    | none =>
      have hnone := longestPrefix_eq_none_iff.mp hrest
      rw [longestPrefix_cons_of_none hrest] at h
      by_cases hempty : form [] = true
      · rw [if_pos hempty, Option.some.injEq] at h
        subst h
        refine ⟨List.nil_prefix, hempty, fun v hv hvform => ?_⟩
        rcases List.prefix_cons_iff.mp hv with rfl | ⟨w, rfl, hw⟩
        · exact List.prefix_rfl
        · rw [hnone w hw] at hvform
          exact absurd hvform Bool.false_ne_true
      · rw [if_neg hempty] at h
        exact absurd h.symm (Option.some_ne_none u)

/-- A prefix is what is read when it has the form and no longer prefix has it. -/
theorem longestPrefix_eq_some (hfront : u <+: s) (hform : form u = true)
    (hlongest : ∀ v, v <+: s → form v = true → v.length ≤ u.length) :
    longestPrefix form s = some u := by
  cases hread : longestPrefix form s with
  | none =>
    rw [longestPrefix_eq_none_iff.mp hread u hfront] at hform
    exact absurd hform Bool.false_ne_true
  | some t =>
    obtain ⟨htwithin, htform, htlongest⟩ := longestPrefix_spec hread
    have hle : u <+: t := htlongest u hfront hform
    rw [hle.eq_of_length_le (hlongest t htwithin htform)]

/-- Only the form of the prefixes matters. -/
theorem longestPrefix_congr {form' : List α → Bool} (h : ∀ v, v <+: s → form v = form' v) :
    longestPrefix form s = longestPrefix form' s := by
  cases hread : longestPrefix form' s with
  | none =>
    rw [longestPrefix_eq_none_iff] at hread ⊢
    intro v hv
    rw [h v hv, hread v hv]
  | some u =>
    obtain ⟨hfront, hform, hlongest⟩ := longestPrefix_spec hread
    refine longestPrefix_eq_some hfront ((h u hfront).trans hform) fun v hv hvform => ?_
    rw [h v hv] at hvform
    exact (hlongest v hv hvform).length_le

/-- Some elements of one kind, and nothing else. -/
def someOf (kind : α → Bool) (s : List α) : Bool := !s.isEmpty && s.all kind

theorem someOf_iff {kind : α → Bool} :
    someOf kind s = true ↔ s ≠ [] ∧ ∀ a ∈ s, kind a = true := by
  simp [someOf]

theorem longestPrefix_someOf (kind : α → Bool) (s : List α) :
    longestPrefix (someOf kind) s =
      if s.takeWhile kind = [] then none else some (s.takeWhile kind) := by
  have hwithin : ∀ v, v <+: s → someOf kind v = true → v <+: s.takeWhile kind := by
    rintro v ⟨t, rfl⟩ hv
    rw [List.takeWhile_append_of_pos (someOf_iff.mp hv).2]
    exact List.prefix_append v _
  by_cases hnone : s.takeWhile kind = []
  · rw [if_pos hnone, longestPrefix_eq_none_iff]
    intro v hv
    rw [Bool.eq_false_iff]
    intro hform
    have hempty := hwithin v hv hform
    rw [hnone, List.prefix_nil] at hempty
    exact (someOf_iff.mp hform).1 hempty
  · rw [if_neg hnone]
    have hform : someOf kind (s.takeWhile kind) = true :=
      someOf_iff.mpr ⟨hnone, fun a ha => List.mem_takeWhile_imp ha⟩
    exact longestPrefix_eq_some (List.takeWhile_prefix kind) hform fun v hv hvform =>
      (hwithin v hv hvform).length_le

end MetadataAgent.Lib
