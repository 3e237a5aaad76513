import Mathlib.Data.List.Basic

/-! # Answers that are remembered

A responder answers a question from its state and may change the state by it. What a state
remembers of an answer is a relation that the answer establishes, that every later question keeps
and that decides how the same question is answered again. The simplest memory is a cell that is
filled by the first answer that is not blank. -/
namespace MetadataAgent.Lib
set_option autoImplicit false

/-! ## Responders -/

section Responder
variable {σ θ α : Type*} (respond : σ → θ → σ × α)

def afterAll (s : σ) (qs : List θ) : σ := qs.foldl (fun s q => (respond s q).1) s

theorem afterAll_concat (s : σ) (qs : List θ) (q : θ) :
    afterAll respond s (qs ++ [q]) = (respond (afterAll respond s qs) q).1 := by
  rw [afterAll, List.foldl_append, List.foldl_cons, List.foldl_nil, ← afterAll]

/-- The questions of a run with their answers. -/
def responses : σ → List θ → List (θ × α)
  | _, [] => []
  | s, q :: qs => (q, (respond s q).2) :: responses (respond s q).1 qs

variable {respond}

theorem exists_of_mem_responses {s : σ} {qs : List θ} {x : θ × α}
    (h : x ∈ responses respond s qs) :
    ∃ before after, qs = before ++ x.1 :: after ∧
      x.2 = (respond (afterAll respond s before) x.1).2 := by
  induction qs generalizing s with
  | nil => cases h
  | cons q qs ih =>
    rcases List.mem_cons.mp h with rfl | h
    · exact ⟨[], qs, rfl, rfl⟩
    · obtain ⟨before, after, rfl, hanswer⟩ := ih h
      exact ⟨q :: before, after, rfl, hanswer⟩

theorem afterAll_keeps {P : σ → Prop} (hkeep : ∀ s q, P s → P (respond s q).1) {s : σ} (hs : P s)
    (qs : List θ) : P (afterAll respond s qs) := by
  induction qs generalizing s with
  | nil => exact hs
  | cons q qs ih => exact ih (hkeep s q hs)

/-- An answer that is worth remembering is related to all the later ones, if the state it leaves
remembers it, every question keeps the memory, and the memory relates it to the next answer. -/
theorem responses_remember {Worth : θ × α → Prop} {Remembers : σ → θ × α → Prop}
    {R : θ × α → θ × α → Prop}
    (hgive : ∀ s q, Worth (q, (respond s q).2) → Remembers (respond s q).1 (q, (respond s q).2))
    (hkeep : ∀ s x q, Remembers s x → Remembers (respond s q).1 x)
    (huse : ∀ s x q, Remembers s x → R x (q, (respond s q).2)) (s : σ) (qs : List θ) :
    (responses respond s qs).Pairwise fun x y => Worth x → R x y := by
  induction qs generalizing s with
  | nil => exact List.Pairwise.nil
  | cons q qs ih =>
    refine List.pairwise_cons.mpr ⟨?_, ih _⟩
    intro y hy hworth
    obtain ⟨before, after, -, hanswer⟩ := exists_of_mem_responses hy
    have hmemory : Remembers (afterAll respond (respond s q).1 before) (q, (respond s q).2) :=
      afterAll_keeps (P := fun t => Remembers t (q, (respond s q).2))
        (fun t q' => hkeep t _ q') (hgive s q hworth) before
    have hrelated := huse _ _ y.1 hmemory
    rw [← hanswer] at hrelated
    exact hrelated

end Responder

/-! ## Cells -/

section Cell
variable {τ ω : Type*} (fetch : ω → List τ)

/-- A cell keeps what it has; a blank one is filled with what is fetched. -/
def fill (cell : List τ) (w : ω) : List τ := if cell.isEmpty then fetch w else cell

theorem fill_of_ne_nil {cell : List τ} (h : cell ≠ []) (w : ω) : fill fetch cell w = cell := by
  rw [fill, if_neg (by simpa using h)]

theorem fill_nil (w : ω) : fill fetch [] w = fetch w := rfl

/-- After any number of fills a cell has the first value that was not blank. -/
theorem foldl_fill (ws : List ω) :
    ws.foldl (fill fetch) [] =
      ((ws.map fetch).find? fun value => !value.isEmpty).getD [] := by
  have hfull : ∀ (ws : List ω) (cell : List τ), cell ≠ [] → ws.foldl (fill fetch) cell = cell := by
    intro ws cell hcell
    induction ws with
    | nil => rfl
    | cons w ws ih => rw [List.foldl_cons, fill_of_ne_nil fetch hcell, ih]
  induction ws with
  | nil => rfl
  | cons w ws ih =>
    rw [List.foldl_cons, fill_nil, List.map_cons, List.find?_cons]
    cases hw : fetch w with
    | nil => exact ih
    | cons a value => exact hfull ws _ (List.cons_ne_nil a value)

end Cell

end MetadataAgent.Lib
