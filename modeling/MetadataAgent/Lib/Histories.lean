import Mathlib.Data.List.Induction
import Mathlib.Order.Bounds.Basic

/-! # Histories and runs

`latest view h` is the last event of a history that `view` recognizes, together with the events
after it; `run step` replays a list of labels through a partial step function. Both are
characterized by what one more event at the end does, which is the form every induction over a
history or an interleaving uses. -/
namespace MetadataAgent.Lib
set_option autoImplicit false

/-! ## The last recognized event -/

section Latest
variable {ε α : Type*} (view : ε → Option α)

/-- The last event with a view, as that view and the events after it. -/
def latest : List ε → Option (α × List ε)
  | [] => none
  | e :: rest => (latest rest).or ((view e).map fun a => (a, rest))

@[simp] theorem latest_nil : latest view [] = none := rfl

theorem latest_concat (h : List ε) (e : ε) :
    latest view (h ++ [e]) =
      ((view e).map fun a => (a, [])).or ((latest view h).map fun r => (r.1, r.2 ++ [e])) := by
  induction h with
  | nil => simp [latest]
  | cons d h ih =>
    rw [List.cons_append, latest, ih, latest]
    cases view e <;> cases latest view h <;> cases view d <;> rfl

theorem latest_eq_none {h : List ε} : latest view h = none ↔ ∀ e ∈ h, view e = none := by
  induction h with
  | nil => simp
  | cons d h ih => simp [latest, ih, and_comm]

theorem latest_eq_some {h : List ε} {a : α} {since : List ε} :
    latest view h = some (a, since) ↔
      ∃ before e, h = before ++ e :: since ∧ view e = some a ∧ ∀ d ∈ since, view d = none := by
  constructor
  · intro hl
    induction h with
    | nil => simp at hl
    | cons d h ih =>
      cases hr : latest view h with
      | some r =>
        rw [latest, hr, Option.some_or] at hl
        obtain ⟨before, e, rfl, hv, hs⟩ := ih (hr.trans hl)
        exact ⟨d :: before, e, rfl, hv, hs⟩
      | none =>
        simp only [latest, hr, Option.none_or, Option.map_eq_some_iff, Prod.mk.injEq] at hl
        obtain ⟨b, hb, rfl, rfl⟩ := hl
        exact ⟨[], d, rfl, hb, (latest_eq_none view).mp hr⟩
  · rintro ⟨before, e, rfl, hv, hs⟩
    induction before with
    | nil => simp [latest, (latest_eq_none view).mpr hs, hv]
    | cons d before ih => simp [latest, ih]

theorem latest_filter (p : ε → Bool) (hview : ∀ e, p e = false → view e = none) (h : List ε) :
    (latest view (h.filter p)).map Prod.fst = (latest view h).map Prod.fst := by
  induction h with
  | nil => rfl
  | cons e h ih =>
    cases hp : p e with
    | false =>
      rw [List.filter_cons_of_neg (by simp [hp]), ih, latest, hview e hp, Option.map_none,
        Option.or_none]
    | true =>
      rw [List.filter_cons_of_pos hp, latest, latest]
      cases hl : latest view h <;> cases hf : latest view (h.filter p) <;>
        simp [hl, hf] at ih ⊢
      · cases view e <;> rfl
      · exact ih

/-- What every recognized event writes, and no other event touches, is what the last recognized
event wrote. -/
theorem observe_foldl {σ β : Type*} (apply : σ → ε → σ) (observe : σ → β) (write : α → β)
    (happly : ∀ s e, observe (apply s e) = ((view e).map write).getD (observe s)) (s : σ)
    (h : List ε) :
    observe (h.foldl apply s) = ((latest view h).map fun r => write r.1).getD (observe s) := by
  induction h using List.reverseRecOn with
  | nil => rfl
  | append_singleton h e ih =>
    rw [List.foldl_append, List.foldl_cons, List.foldl_nil, happly, ih, latest_concat]
    cases view e <;> cases latest view h <;> rfl

end Latest

/-- The first recognized event is any of them, if they all have the same view. -/
theorem findSome?_of_unique {ε α : Type*} {view : ε → Option α} {h : List ε} {a : α}
    (hunique : ∀ e ∈ h, ∀ b, view e = some b → b = a) (hsome : ∃ e ∈ h, view e = some a) :
    h.findSome? view = some a := by
  cases hfirst : h.findSome? view with
  | none =>
    obtain ⟨e, he, hview⟩ := hsome
    rw [List.findSome?_eq_none_iff.mp hfirst e he] at hview
    cases hview
  | some b =>
    obtain ⟨e, he, hview⟩ := List.exists_of_findSome?_eq_some hfirst
    rw [hunique e he b hview]

/-! ## Running maxima -/

section Maximum
variable {ε α : Type*} (view : ε → Option α)

/-- The views of a history. -/
def views (h : List ε) : Set α := {a | ∃ e ∈ h, view e = some a}

theorem views_concat (h : List ε) (e : ε) :
    views view (h ++ [e]) = views view h ∪ {a | view e = some a} := by
  ext a
  simp [views, or_and_right, exists_or]

variable {σ : Type*} [LinearOrder α] (apply : σ → ε → σ) (observe : σ → Option α)
variable (happly : ∀ s e, observe (apply s e) = (observe s).merge max (view e))
include happly

theorem observe_foldl_eq_none {s : σ} (hs : observe s = none) (h : List ε) :
    observe (h.foldl apply s) = none ↔ views view h = ∅ := by
  induction h using List.reverseRecOn with
  | nil => simp [hs, views]
  | append_singleton h e ih =>
    rw [List.foldl_append, List.foldl_cons, List.foldl_nil, happly, views_concat,
      Set.union_empty_iff, ← ih]
    cases observe (h.foldl apply s) <;> cases view e <;> simp [Option.merge]

/-- What every event raises to its view, if that is higher, is the highest view of the history. -/
theorem observe_foldl_max {s : σ} (hs : observe s = none) (h : List ε) (m : α) :
    observe (h.foldl apply s) = some m ↔ IsGreatest (views view h) m := by
  induction h using List.reverseRecOn generalizing m with
  | nil => simp [hs, views, IsGreatest]
  | append_singleton h e ih =>
    rw [List.foldl_append, List.foldl_cons, List.foldl_nil, happly, views_concat]
    cases he : view e with
    | none =>
      have hnew : {a : α | (none : Option α) = some a} = ∅ := by simp
      rw [hnew, Set.union_empty]
      refine Iff.trans ?_ (ih m)
      cases observe (h.foldl apply s) <;> simp [Option.merge]
    | some b =>
      have hnew : {a : α | some b = some a} = {b} := by ext a; simp [eq_comm]
      rw [hnew]
      cases hold : observe (h.foldl apply s) with
      | none =>
        rw [(observe_foldl_eq_none view apply observe happly hs h).mp hold, Set.empty_union]
        simp only [Option.merge, Option.some.injEq]
        constructor
        · rintro rfl
          exact isGreatest_singleton
        · intro hm
          exact isGreatest_singleton.unique hm
      | some a =>
        have hmax : IsGreatest (views view h ∪ {b}) (max a b) :=
          ((ih a).mp hold).union isGreatest_singleton
        simp only [Option.merge, Option.some.injEq]
        constructor
        · rintro rfl
          exact hmax
        · intro hm
          exact hmax.unique hm

theorem observe_foldl_le {s : σ} {a : α} (hs : observe s = some a) (h : List ε) :
    ∃ b, observe (h.foldl apply s) = some b ∧ a ≤ b := by
  induction h generalizing s a with
  | nil => exact ⟨a, hs, le_refl a⟩
  | cons e h ih =>
    rw [List.foldl_cons]
    have hstep : ∃ c, observe (apply s e) = some c ∧ a ≤ c := by
      rw [happly, hs]
      cases view e with
      | none => exact ⟨a, rfl, le_refl a⟩
      | some b => exact ⟨max a b, rfl, le_max_left a b⟩
    obtain ⟨c, hc, hac⟩ := hstep
    obtain ⟨b, hb, hcb⟩ := ih hc
    exact ⟨b, hb, le_trans hac hcb⟩

end Maximum

/-- A history splits in one way at the first occurrence of an event. -/
theorem first_split_unique {ε : Type*} {e : ε} {before before' since since' : List ε}
    (hb : e ∉ before) (hb' : e ∉ before') (h : before ++ e :: since = before' ++ e :: since') :
    before = before' ∧ since = since' := by
  induction before generalizing before' with
  | nil =>
    cases before' with
    | nil => simpa using h
    | cons d before' =>
      rw [List.nil_append, List.cons_append, List.cons.injEq] at h
      exact absurd (h.1 ▸ List.mem_cons_self) hb'
  | cons c before ih =>
    cases before' with
    | nil =>
      rw [List.nil_append, List.cons_append, List.cons.injEq] at h
      exact absurd (h.1 ▸ List.mem_cons_self) hb
    | cons d before' =>
      rw [List.cons_append, List.cons_append, List.cons.injEq] at h
      obtain ⟨hbefore, hsince⟩ := ih (fun hmem => hb (List.mem_cons_of_mem _ hmem))
        (fun hmem => hb' (List.mem_cons_of_mem _ hmem)) h.2
      exact ⟨by rw [h.1, hbefore], hsince⟩

/-- A history splits in one way at the last occurrence of an event. -/
theorem last_split_unique {ε : Type*} {e : ε} {before before' since since' : List ε}
    (hs : e ∉ since) (hs' : e ∉ since') (h : before ++ e :: since = before' ++ e :: since') :
    before = before' ∧ since = since' := by
  have hreverse := congrArg List.reverse h
  simp only [List.reverse_append, List.reverse_cons, List.append_assoc, List.singleton_append]
    at hreverse
  obtain ⟨hsince, hbefore⟩ := first_split_unique (by simpa using hs) (by simpa using hs') hreverse
  exact ⟨List.reverse_inj.mp hbefore, List.reverse_inj.mp hsince⟩

/-! ## Runs of a partial step function -/

section Run
variable {σ ℓ : Type*} (step : σ → ℓ → Option σ)

/-- The state after the labels, if every one of them was enabled. -/
def run (s : σ) : List ℓ → Option σ
  | [] => some s
  | l :: ls => (step s l).bind fun t => run t ls

@[simp] theorem run_nil (s : σ) : run step s [] = some s := rfl

theorem run_append (s : σ) (ls ms : List ℓ) :
    run step s (ls ++ ms) = (run step s ls).bind fun t => run step t ms := by
  induction ls generalizing s with
  | nil => rfl
  | cons l ls ih =>
    rw [List.cons_append, run, run, Option.bind_assoc]
    congr 1
    funext t
    exact ih t

theorem run_concat {s t : σ} {ls : List ℓ} {l : ℓ} :
    run step s (ls ++ [l]) = some t ↔ ∃ m, run step s ls = some m ∧ step m l = some t := by
  rw [run_append, Option.bind_eq_some_iff]
  simp [run]

/-- A property of histories and states that every step preserves holds after every run. -/
theorem run_induction {s : σ} {P : List ℓ → σ → Prop} (hinit : P [] s)
    (hstep : ∀ ls m l t, run step s ls = some m → P ls m → step m l = some t → P (ls ++ [l]) t)
    (ls : List ℓ) (t : σ) (h : run step s ls = some t) : P ls t := by
  induction ls using List.reverseRecOn generalizing t with
  | nil =>
    rw [run_nil, Option.some.injEq] at h
    exact h ▸ hinit
  | append_singleton ls l ih =>
    obtain ⟨m, hm, hl⟩ := (run_concat step).mp h
    exact hstep ls m l t hm (ih m hm) hl

variable {step}

/-- An invariant that every step keeps, and what each of the steps may be. -/
theorem run_keeps {P : σ → Prop} {allowed : ℓ → Prop}
    (hstep : ∀ s l t, P s → step s l = some t → P t ∧ allowed l) {s t : σ} (hs : P s)
    {ls : List ℓ} (h : run step s ls = some t) : P t ∧ ∀ l ∈ ls, allowed l := by
  refine run_induction step (P := fun ls t => P t ∧ ∀ l ∈ ls, allowed l) ?_ ?_ ls t h
  · refine ⟨hs, ?_⟩
    intro l hl
    cases hl
  · rintro ls m l t _ ⟨hm, hls⟩ hl
    obtain ⟨ht, hallowed⟩ := hstep m l t hm hl
    refine ⟨ht, ?_⟩
    intro d hd
    rw [List.mem_append, List.mem_singleton] at hd
    rcases hd with hd | rfl
    · exact hls d hd
    · exact hallowed

/-- A budget that every step with a label pays for bounds how often the label occurs. -/
theorem run_count_le [BEq ℓ] {P : σ → Prop} (allowed : ℓ → Prop) (budget : σ → ℕ) {label : ℓ}
    (hstep : ∀ s l t, P s → allowed l → step s l = some t →
      P t ∧ budget t + [l].count label ≤ budget s)
    {s t : σ} (hs : P s) {ls : List ℓ} (hls : ∀ l ∈ ls, allowed l)
    (h : run step s ls = some t) : P t ∧ budget t + ls.count label ≤ budget s := by
  revert hls
  refine run_induction step (P := fun ls t => (∀ l ∈ ls, allowed l) →
    P t ∧ budget t + ls.count label ≤ budget s) ?_ ?_ ls t h
  · intro _
    exact ⟨hs, Nat.le_refl _⟩
  · intro ls m l t _ hm hl hallowed
    obtain ⟨hmid, hcount⟩ := hm fun d hd => hallowed d (List.mem_append_left _ hd)
    obtain ⟨ht, hpaid⟩ := hstep m l t hmid
      (hallowed l (List.mem_append_right _ List.mem_cons_self)) hl
    refine ⟨ht, ?_⟩
    rw [List.count_append]
    omega

end Run

end MetadataAgent.Lib
