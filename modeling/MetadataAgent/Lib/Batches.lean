import Mathlib.Algebra.GroupWithZero.Nat
import Mathlib.Data.List.Basic
import Mathlib.Data.Int.Cast.Basic

/-! # Greedy batches

Items are collected until the next one no longer fits, by number or by total size; then the batch
is closed and the item starts a new one. `Greedy` says what such a sequence of batches is without
saying how it is computed, and there is exactly one of them. -/
namespace MetadataAgent.Lib
set_option autoImplicit false

variable {α : Type*} (count : ℕ) (base limit : ℤ) (size : α → ℕ)

def total (batch : List α) : ℕ := (batch.map size).sum

/-- The batches of `pending ++ items`, where `pending` is the batch being filled. -/
def batchesFrom (pending : List α) : List α → List (List α)
  | [] => if pending.isEmpty then [] else [pending]
  | a :: items =>
    if pending.length = count ∨ limit < base + total size pending + size a then
      pending :: batchesFrom [a] items
    else batchesFrom (pending ++ [a]) items

/-- Consecutive nonempty batches within both limits, where a batch is closed only if the first
item of the next one does not fit. -/
structure Greedy (batches : List (List α)) (items : List α) : Prop where
  flatten_eq : batches.flatten = items
  length_pos : ∀ b ∈ batches, 1 ≤ b.length
  length_le : ∀ b ∈ batches, b.length ≤ count
  total_le : ∀ b ∈ batches, base + total size b ≤ limit
  maximal : batches.IsChain fun b c =>
    b.length = count ∨ ∃ a ∈ c.head?, limit < base + total size b + size a

section Totals
variable {size}

@[simp] theorem total_nil : total size [] = 0 := rfl

@[simp] theorem total_append (b c : List α) :
    total size (b ++ c) = total size b + total size c := by
  simp [total]

@[simp] theorem total_cons (a : α) (b : List α) : total size (a :: b) = size a + total size b := by
  simp [total]

end Totals

variable {count base limit size}

/-! ## The computed batches are greedy -/

theorem flatten_batchesFrom (pending items : List α) :
    (batchesFrom count base limit size pending items).flatten = pending ++ items := by
  induction items generalizing pending with
  | nil =>
    rw [batchesFrom]
    cases pending <;> simp
  | cons a items ih =>
    rw [batchesFrom]
    split
    · rw [List.flatten_cons, ih, List.singleton_append]
    · rw [ih, List.append_assoc, List.singleton_append]

theorem head_batchesFrom (a : α) (pending items : List α) :
    ∃ b rest, batchesFrom count base limit size (a :: pending) items = (a :: b) :: rest := by
  induction items generalizing pending with
  | nil => exact ⟨pending, [], rfl⟩
  | cons x items ih =>
    rw [batchesFrom]
    split
    · exact ⟨pending, _, rfl⟩
    · exact ih (pending ++ [x])

theorem batchesFrom_within (hcount : 1 ≤ count) (pending items : List α)
    (hitems : ∀ a ∈ items, base + size a ≤ limit) (hlength : pending.length ≤ count)
    (htotal : base + total size pending ≤ limit) :
    ∀ b ∈ batchesFrom count base limit size pending items,
      1 ≤ b.length ∧ b.length ≤ count ∧ base + total size b ≤ limit := by
  induction items generalizing pending with
  | nil =>
    intro b hb
    rw [batchesFrom] at hb
    cases pending with
    | nil => simp at hb
    | cons a pending =>
      simp only [List.isEmpty_cons, Bool.false_eq_true, if_false, List.mem_singleton] at hb
      subst hb
      exact ⟨by simp, hlength, htotal⟩
  | cons a items ih =>
    have ha : base + size a ≤ limit := hitems a List.mem_cons_self
    have hrest : ∀ x ∈ items, base + size x ≤ limit :=
      fun x hx => hitems x (List.mem_cons_of_mem _ hx)
    intro b hb
    rw [batchesFrom] at hb
    split at hb
    · rename_i hfull
      rcases List.mem_cons.mp hb with rfl | hb
      · refine ⟨?_, hlength, htotal⟩
        -- an empty batch is never closed: it has room for any item that fits alone
        cases b with
        | nil =>
          simp only [List.length_nil, total_nil] at hfull
          omega
        | cons x b => simp
      · exact ih [a] hrest (by simpa using hcount) (by simpa [total] using ha) b hb
    · rename_i hroom
      refine ih (pending ++ [a]) hrest ?_ ?_ b hb
      · rw [List.length_append, List.length_singleton]
        omega
      · rw [total_append, total_cons, total_nil]
        push_cast
        omega

theorem batchesFrom_maximal (pending items : List α) :
    (batchesFrom count base limit size pending items).IsChain fun b c =>
      b.length = count ∨ ∃ a ∈ c.head?, limit < base + total size b + size a := by
  induction items generalizing pending with
  | nil =>
    rw [batchesFrom]
    split
    · exact List.IsChain.nil
    · exact List.IsChain.singleton _
  | cons a items ih =>
    rw [batchesFrom]
    split
    · rename_i hfull
      have hhead : ∃ b rest, batchesFrom count base limit size [a] items = (a :: b) :: rest :=
        head_batchesFrom a [] items
      obtain ⟨b, rest, hb⟩ := hhead
      have htail := ih [a]
      rw [hb] at htail ⊢
      refine List.IsChain.cons_cons ?_ htail
      exact hfull.imp id fun h => ⟨a, rfl, h⟩
    · exact ih (pending ++ [a])

theorem greedy_batchesFrom (hcount : 1 ≤ count) (items : List α)
    (hitems : ∀ a ∈ items, base + size a ≤ limit) :
    Greedy count base limit size (batchesFrom count base limit size [] items) items := by
  cases items with
  | nil => exact ⟨rfl, by simp [batchesFrom], by simp [batchesFrom], by simp [batchesFrom],
      by simp [batchesFrom]⟩
  | cons a items =>
    have hbase : base + total size ([] : List α) ≤ limit := by
      have ha := hitems a List.mem_cons_self
      rw [total_nil]
      omega
    have hwithin := batchesFrom_within hcount [] (a :: items) hitems (Nat.zero_le _) hbase
    exact ⟨flatten_batchesFrom [] _, fun b hb => (hwithin b hb).1,
      fun b hb => (hwithin b hb).2.1, fun b hb => (hwithin b hb).2.2, batchesFrom_maximal [] _⟩

/-! ## There is only one greedy sequence -/

theorem batchesFrom_fill (pending rest items : List α)
    (hlength : (pending ++ rest).length ≤ count)
    (htotal : base + total size (pending ++ rest) ≤ limit) :
    batchesFrom count base limit size pending (rest ++ items) =
      batchesFrom count base limit size (pending ++ rest) items := by
  induction rest generalizing pending with
  | nil => rw [List.append_nil, List.nil_append]
  | cons a rest ih =>
    have hroom : ¬(pending.length = count ∨ limit < base + total size pending + size a) := by
      rw [List.length_append, List.length_cons] at hlength
      rw [total_append, total_cons] at htotal
      push_cast at htotal
      omega
    have happend : pending ++ a :: rest = pending ++ [a] ++ rest := by simp
    rw [List.cons_append, batchesFrom, if_neg hroom, happend]
    rw [happend] at hlength htotal
    exact ih (pending ++ [a]) hlength htotal

theorem Greedy.tail {b : List α} {batches : List (List α)} {items : List α}
    (h : Greedy count base limit size (b :: batches) items) :
    Greedy count base limit size batches batches.flatten where
  flatten_eq := rfl
  length_pos c hc := h.length_pos c (List.mem_cons_of_mem _ hc)
  length_le c hc := h.length_le c (List.mem_cons_of_mem _ hc)
  total_le c hc := h.total_le c (List.mem_cons_of_mem _ hc)
  maximal := h.maximal.of_cons

theorem Greedy.eq_batchesFrom_head {b : List α} {batches : List (List α)} {items : List α}
    (h : Greedy count base limit size (b :: batches) items) :
    batchesFrom count base limit size b batches.flatten = b :: batches := by
  induction batches generalizing b items with
  | nil =>
    have hb := h.length_pos b List.mem_cons_self
    rw [List.flatten_nil, batchesFrom]
    cases b with
    | nil => simp at hb
    | cons a b => rfl
  | cons c batches ih =>
    have hc := h.length_pos c (by simp)
    cases c with
    | nil => simp at hc
    | cons a c =>
      have hfull : b.length = count ∨ limit < base + total size b + size a := by
        have hmax := List.isChain_cons_cons.mp h.maximal
        simpa using hmax.1
      have hfill : batchesFrom count base limit size [a] (c ++ batches.flatten) =
          batchesFrom count base limit size (a :: c) batches.flatten :=
        batchesFrom_fill [a] c batches.flatten (h.length_le (a :: c) (by simp))
          (h.total_le (a :: c) (by simp))
      rw [List.flatten_cons, List.cons_append, batchesFrom, if_pos hfull, hfill]
      exact congrArg (List.cons b) (ih h.tail)

theorem Greedy.eq_batchesFrom {batches : List (List α)} {items : List α}
    (h : Greedy count base limit size batches items) :
    batches = batchesFrom count base limit size [] items := by
  cases batches with
  | nil =>
    rw [← h.flatten_eq]
    rfl
  | cons b batches =>
    rw [← h.flatten_eq, List.flatten_cons,
      batchesFrom_fill [] b batches.flatten (h.length_le b List.mem_cons_self)
        (h.total_le b List.mem_cons_self)]
    exact h.eq_batchesFrom_head.symm

end MetadataAgent.Lib
