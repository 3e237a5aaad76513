import Mathlib.Algebra.GroupWithZero.Nat
import Mathlib.Order.Lattice
import Mathlib.Data.List.Pairwise

/-! # Ordered finite maps

A map is its list of entries in strictly ascending key order, so that walking the map and
comparing two maps are both read off the list. `emplace` never replaces an entry, `erase`
removes one; `find` after either of them is the whole specification, and `ext_find` says that
nothing else can be observed. -/
namespace MetadataAgent.Lib
set_option autoImplicit false

variable {κ ν μ : Type*} [LinearOrder κ]

/-! ## Entry lists -/

def lookup (k : κ) : List (κ × ν) → Option ν
  | [] => none
  | (j, v) :: l => if k = j then some v else lookup k l

/-- Insertion in key order, keeping the entry that is already there. -/
def insertNew (k : κ) (v : ν) : List (κ × ν) → List (κ × ν)
  | [] => [(k, v)]
  | (j, w) :: l =>
    if k < j then (k, v) :: (j, w) :: l
    else if k = j then (j, w) :: l
    else (j, w) :: insertNew k v l

def Ascending (l : List (κ × ν)) : Prop := l.Pairwise fun a b => a.1 < b.1

theorem Ascending.tail {e : κ × ν} {l : List (κ × ν)} (h : Ascending (e :: l)) : Ascending l :=
  List.Pairwise.of_cons h

theorem Ascending.head_lt {e : κ × ν} {l : List (κ × ν)} (h : Ascending (e :: l)) :
    ∀ a ∈ l, e.1 < a.1 :=
  fun _ ha => List.rel_of_pairwise_cons h ha

theorem Ascending.filter {l : List (κ × ν)} (h : Ascending l) (p : κ × ν → Bool) :
    Ascending (l.filter p) :=
  List.Pairwise.filter p h

theorem Ascending.map {l : List (κ × ν)} (h : Ascending l) (f : κ → ν → μ) :
    Ascending (l.map fun e => (e.1, f e.1 e.2)) := by
  unfold Ascending
  rw [List.pairwise_map]
  exact h

theorem lookup_mem {k : κ} {v : ν} {l : List (κ × ν)} (h : lookup k l = some v) : (k, v) ∈ l := by
  induction l with
  | nil => simp [lookup] at h
  | cons e l ih =>
    obtain ⟨j, w⟩ := e
    by_cases hk : k = j
    · simp only [lookup, hk, if_true, Option.some.injEq] at h
      simp [hk, h]
    · rw [lookup, if_neg hk] at h
      exact List.mem_cons_of_mem _ (ih h)

theorem lookup_eq_none_of_lt {k : κ} {l : List (κ × ν)} (h : ∀ e ∈ l, k < e.1) :
    lookup k l = none := by
  cases hl : lookup k l with
  | none => rfl
  | some v => exact absurd (h _ (lookup_mem hl)) (lt_irrefl k)

theorem lookup_of_mem {k : κ} {v : ν} {l : List (κ × ν)} (hl : Ascending l) (h : (k, v) ∈ l) :
    lookup k l = some v := by
  induction l with
  | nil => simp at h
  | cons e l ih =>
    obtain ⟨j, w⟩ := e
    rcases List.mem_cons.mp h with he | ht
    · simp only [Prod.mk.injEq] at he
      simp [lookup, he]
    · have hjk : j < k := hl.head_lt _ ht
      rw [lookup, if_neg hjk.ne']
      exact ih hl.tail ht

theorem lookup_insertNew (k j : κ) (v : ν) (l : List (κ × ν)) (hl : Ascending l) :
    lookup k (insertNew j v l) = if k = j then some ((lookup j l).getD v) else lookup k l := by
  induction l with
  | nil => simp [insertNew, lookup]
  | cons e l ih =>
    obtain ⟨i, w⟩ := e
    have ih := ih hl.tail
    by_cases hlt : j < i
    · have hnone : lookup j ((i, w) :: l) = none := by
        apply lookup_eq_none_of_lt
        intro a ha
        rcases List.mem_cons.mp ha with rfl | ha
        · exact hlt
        · exact hlt.trans (hl.head_lt a ha)
      simp only [insertNew, if_pos hlt, hnone, Option.getD_none]
      by_cases hk : k = j <;> simp [lookup, hk]
    · by_cases he : j = i
      · subst he
        by_cases hk : k = j <;> simp [insertNew, lookup, hk]
      · simp only [insertNew, if_neg hlt, if_neg he, lookup, ih]
        by_cases hki : k = i
        · subst hki
          simp [Ne.symm he]
        · by_cases hk : k = j <;> simp [hki, hk, he]

theorem mem_insertNew {k : κ} {v : ν} {e : κ × ν} {l : List (κ × ν)}
    (h : e ∈ insertNew k v l) : e = (k, v) ∨ e ∈ l := by
  induction l with
  | nil => simpa [insertNew] using h
  | cons a l ih =>
    obtain ⟨j, w⟩ := a
    rw [insertNew] at h
    split at h
    · simpa using h
    · split at h
      · exact Or.inr h
      · rcases List.mem_cons.mp h with rfl | h
        · exact Or.inr List.mem_cons_self
        · exact (ih h).imp id (List.mem_cons_of_mem _)

theorem Ascending.insertNew {l : List (κ × ν)} (hl : Ascending l) (k : κ) (v : ν) :
    Ascending (Lib.insertNew k v l) := by
  induction l with
  | nil => exact List.pairwise_singleton _ _
  | cons a l ih =>
    obtain ⟨j, w⟩ := a
    rw [Lib.insertNew]
    split
    · rename_i hlt
      refine List.Pairwise.cons ?_ hl
      intro e he
      rcases List.mem_cons.mp he with rfl | he
      · exact hlt
      · exact hlt.trans (hl.head_lt e he)
    · split
      · exact hl
      · rename_i hlt hne
        refine List.Pairwise.cons ?_ (ih hl.tail)
        intro e he
        rcases mem_insertNew he with rfl | he
        · exact lt_of_le_of_ne (not_lt.mp hlt) (Ne.symm hne)
        · exact hl.head_lt e he

theorem lookup_filter (k : κ) (p : κ × ν → Bool) (l : List (κ × ν)) (hl : Ascending l) :
    lookup k (l.filter p) = (lookup k l).filter fun v => p (k, v) := by
  induction l with
  | nil => rfl
  | cons e l ih =>
    obtain ⟨j, w⟩ := e
    have ih := ih hl.tail
    by_cases hk : k = j
    · subst hk
      have hnone : lookup k (l.filter p) = none :=
        lookup_eq_none_of_lt fun a ha => hl.head_lt a ((List.mem_filter.mp ha).1)
      cases hp : p (k, w) <;> simp [lookup, hp, hnone, Option.filter]
    · cases hp : p (j, w) <;> simp [lookup, hp, hk, ih]

theorem lookup_map (k : κ) (f : κ → ν → μ) (l : List (κ × ν)) :
    lookup k (l.map fun e => (e.1, f e.1 e.2)) = (lookup k l).map (f k) := by
  induction l with
  | nil => rfl
  | cons e l ih =>
    obtain ⟨j, w⟩ := e
    by_cases hk : k = j
    · subst hk
      simp [lookup]
    · simp [lookup, hk, ih]

theorem eq_of_lookup_eq {l m : List (κ × ν)} (hl : Ascending l) (hm : Ascending m)
    (h : ∀ k, lookup k l = lookup k m) : l = m := by
  induction l generalizing m with
  | nil =>
    cases m with
    | nil => rfl
    | cons e m =>
      have := h e.1
      simp [lookup] at this
  | cons a l ih =>
    obtain ⟨j, v⟩ := a
    cases m with
    | nil =>
      have := h j
      simp [lookup] at this
    | cons b m =>
      obtain ⟨i, w⟩ := b
      have hmem : ∀ e : κ × ν, e ∈ (j, v) :: l ↔ e ∈ (i, w) :: m := by
        intro e
        constructor
        · intro he
          exact lookup_mem ((h e.1).symm.trans (lookup_of_mem hl he))
        · intro he
          exact lookup_mem ((h e.1).trans (lookup_of_mem hm he))
      have hij : j = i := by
        rcases List.mem_cons.mp ((hmem (j, v)).mp List.mem_cons_self) with h1 | h1
        · exact congrArg Prod.fst h1
        · rcases List.mem_cons.mp ((hmem (i, w)).mpr List.mem_cons_self) with h2 | h2
          · exact (congrArg Prod.fst h2).symm
          · exact absurd (hm.head_lt _ h1) (not_lt.mpr (hl.head_lt _ h2).le)
      subst hij
      have hvw : v = w := by
        have := h j
        simpa [lookup] using this
      subst hvw
      rw [ih hl.tail hm.tail]
      intro k
      by_cases hk : k = j
      · subst hk
        rw [lookup_eq_none_of_lt hl.head_lt, lookup_eq_none_of_lt hm.head_lt]
      · simpa [lookup, hk] using h k

theorem sum_insertNew_le (w : κ × ν → ℕ) (k : κ) (v : ν) (l : List (κ × ν)) :
    ((insertNew k v l).map w).sum ≤ w (k, v) + (l.map w).sum := by
  induction l with
  | nil => simp [insertNew]
  | cons e l ih =>
    obtain ⟨j, u⟩ := e
    rw [insertNew]
    split
    · simp
    · split
      · omega
      · simp only [List.map_cons, List.sum_cons]
        omega

/-! ## The map -/

/-- A finite map whose entries are kept in ascending key order. -/
@[ext] structure OrderedMap (κ ν : Type*) [LinearOrder κ] where
  entries : List (κ × ν)
  ascending : Ascending entries

namespace OrderedMap

def empty : OrderedMap κ ν := ⟨[], List.Pairwise.nil⟩

instance : EmptyCollection (OrderedMap κ ν) := ⟨empty⟩

def find (m : OrderedMap κ ν) (k : κ) : Option ν := lookup k m.entries

def isEmpty (m : OrderedMap κ ν) : Bool := m.entries.isEmpty

def emplace (m : OrderedMap κ ν) (k : κ) (v : ν) : OrderedMap κ ν :=
  ⟨insertNew k v m.entries, m.ascending.insertNew k v⟩

def filter (m : OrderedMap κ ν) (p : κ → ν → Bool) : OrderedMap κ ν :=
  ⟨m.entries.filter fun e => p e.1 e.2, m.ascending.filter _⟩

def erase (m : OrderedMap κ ν) (k : κ) : OrderedMap κ ν := m.filter fun j _ => decide (j ≠ k)

def mapValues (f : κ → ν → μ) (m : OrderedMap κ ν) : OrderedMap κ μ :=
  ⟨m.entries.map fun e => (e.1, f e.1 e.2), m.ascending.map f⟩

def assign (m : OrderedMap κ ν) (k : κ) (v : ν) : OrderedMap κ ν :=
  (m.emplace k v).mapValues fun j w => if j = k then v else w

/-- Entries emplaced one after the other, so that the first one of a key stays. -/
def ofList (l : List (κ × ν)) : OrderedMap κ ν := l.foldl (fun m e => m.emplace e.1 e.2) empty

@[simp] theorem find_empty (k : κ) : (empty : OrderedMap κ ν).find k = none := rfl

theorem find_emplace (m : OrderedMap κ ν) (k j : κ) (v : ν) :
    (m.emplace j v).find k = if k = j then some ((m.find j).getD v) else m.find k :=
  lookup_insertNew k j v m.entries m.ascending

theorem find_filter (m : OrderedMap κ ν) (p : κ → ν → Bool) (k : κ) :
    (m.filter p).find k = (m.find k).filter (p k) :=
  lookup_filter k (fun e => p e.1 e.2) m.entries m.ascending

theorem find_erase (m : OrderedMap κ ν) (k j : κ) :
    (m.erase j).find k = if k = j then none else m.find k := by
  rw [erase, find_filter]
  by_cases hk : k = j <;> cases m.find k <;> simp [hk, Option.filter]

theorem find_erase_emplace (m : OrderedMap κ ν) (k j : κ) (v : ν) :
    ((m.erase j).emplace j v).find k = if k = j then some v else m.find k := by
  rw [find_emplace, find_erase, find_erase]
  by_cases hk : k = j <;> simp [hk]

theorem find_mapValues (f : κ → ν → μ) (m : OrderedMap κ ν) (k : κ) :
    (m.mapValues f).find k = (m.find k).map (f k) :=
  lookup_map k f m.entries

theorem find_assign (m : OrderedMap κ ν) (k j : κ) (v : ν) :
    (m.assign j v).find k = if k = j then some v else m.find k := by
  rw [assign, find_mapValues, find_emplace]
  by_cases hk : k = j <;> simp [hk]

theorem mem_entries {m : OrderedMap κ ν} {k : κ} {v : ν} :
    (k, v) ∈ m.entries ↔ m.find k = some v :=
  ⟨lookup_of_mem m.ascending, lookup_mem⟩

theorem ext_find {m n : OrderedMap κ ν} (h : ∀ k, m.find k = n.find k) : m = n :=
  OrderedMap.ext (eq_of_lookup_eq m.ascending n.ascending h)

theorem find_foldl_emplace (l : List (κ × ν)) (m : OrderedMap κ ν) (k : κ) :
    (l.foldl (fun m e => m.emplace e.1 e.2) m).find k = (m.find k).or (lookup k l) := by
  induction l generalizing m with
  | nil => simp [lookup]
  | cons e l ih =>
    obtain ⟨j, v⟩ := e
    rw [List.foldl_cons, ih, find_emplace]
    by_cases hk : k = j
    · subst hk
      cases m.find k <;> simp [lookup]
    · simp [lookup, hk]

theorem find_ofList (l : List (κ × ν)) (k : κ) : (ofList l).find k = lookup k l := by
  simp [ofList, find_foldl_emplace]

theorem mem_of_mem_ofList {l : List (κ × ν)} {e : κ × ν} (h : e ∈ (ofList l).entries) : e ∈ l := by
  have hfind : (ofList l).find e.1 = some e.2 := mem_entries.mp h
  rw [find_ofList] at hfind
  exact lookup_mem hfind

theorem entries_ofList {l : List (κ × ν)} (hl : Ascending l) : (ofList l).entries = l :=
  eq_of_lookup_eq (ofList l).ascending hl (find_ofList l)

theorem sum_foldl_emplace_le (w : κ × ν → ℕ) (l : List (κ × ν)) (m : OrderedMap κ ν) :
    ((l.foldl (fun m e => m.emplace e.1 e.2) m).entries.map w).sum ≤
      (m.entries.map w).sum + (l.map w).sum := by
  induction l generalizing m with
  | nil => simp
  | cons e l ih =>
    have hrest := ih (m.emplace e.1 e.2)
    have hone : ((m.emplace e.1 e.2).entries.map w).sum ≤ w e + (m.entries.map w).sum :=
      sum_insertNew_le w e.1 e.2 m.entries
    simp only [List.foldl_cons, List.map_cons, List.sum_cons]
    omega

theorem sum_ofList_le (w : κ × ν → ℕ) (l : List (κ × ν)) :
    ((ofList l).entries.map w).sum ≤ (l.map w).sum := by
  have h := sum_foldl_emplace_le w l empty
  have hempty : ((empty : OrderedMap κ ν).entries.map w).sum = 0 := rfl
  rw [hempty, Nat.zero_add] at h
  exact h

instance [DecidableEq ν] : DecidableEq (OrderedMap κ ν) :=
  fun _ _ => decidable_of_iff _ OrderedMap.ext_iff.symm

end OrderedMap

end MetadataAgent.Lib
