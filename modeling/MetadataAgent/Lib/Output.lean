import Mathlib.Data.List.Basic

/-! # Output that is written over a text, and lines

A stream that starts with a text writes over it from the position at which it stands. What is left
of the text is what lies behind the last position. -/
namespace MetadataAgent.Lib
set_option autoImplicit false

variable {τ : Type}

/-- A text and the position at which the next output goes. -/
structure OutputStream (τ : Type) where
  text : List τ
  pos : ℕ

namespace OutputStream

/-- A stream constructed from a text in its default mode. -/
def ofText (text : List τ) : OutputStream τ := ⟨text, 0⟩

def write (stream : OutputStream τ) (out : List τ) : OutputStream τ :=
  ⟨stream.text.take stream.pos ++ out ++ stream.text.drop (stream.pos + out.length),
    stream.pos + out.length⟩

theorem foldl_write (text before : List τ) (outs : List (List τ)) :
    outs.foldl write ⟨before ++ text.drop before.length, before.length⟩ =
      ⟨before ++ outs.flatten ++ text.drop (before ++ outs.flatten).length,
        (before ++ outs.flatten).length⟩ := by
  induction outs generalizing before with
  | nil => rw [List.flatten_nil, List.append_nil, List.foldl_nil]
  | cons out outs ih =>
    have hwrite : write ⟨before ++ text.drop before.length, before.length⟩ out =
        ⟨(before ++ out) ++ text.drop (before ++ out).length, (before ++ out).length⟩ := by
      unfold write
      simp only [List.take_left, List.length_append, ← List.drop_drop, List.drop_left]
    rw [List.foldl_cons, hwrite, ih, List.flatten_cons, List.append_assoc before]

/-- Everything that was written, and the rest of the text behind it. -/
theorem text_foldl_write (text : List τ) (outs : List (List τ)) :
    (outs.foldl write (ofText text)).text = outs.flatten ++ text.drop outs.flatten.length := by
  have h := foldl_write text [] outs
  rw [List.length_nil, List.drop_zero, List.nil_append, List.nil_append] at h
  rw [ofText, h]

end OutputStream

/-! ## Lines -/

variable [DecidableEq τ] {mark : τ}

/-- The pieces that the mark ends, and the last piece if it is not empty. -/
def lines (mark : τ) : List τ → List (List τ)
  | [] => []
  | a :: text =>
    if a = mark then [] :: lines mark text
    else
      match lines mark text with
      | [] => [[a]]
      | line :: rest => (a :: line) :: rest

theorem lines_append_mark {line : List τ} (text : List τ) (h : mark ∉ line) :
    lines mark (line ++ mark :: text) = line :: lines mark text := by
  induction line with
  | nil => rw [List.nil_append, lines, if_pos rfl]
  | cons a line ih =>
    rw [List.mem_cons, not_or] at h
    rw [List.cons_append, lines, if_neg (Ne.symm h.1), ih h.2]

theorem lines_flatMap {ls : List (List τ)} (text : List τ) (h : ∀ line ∈ ls, mark ∉ line) :
    lines mark ((ls.flatMap fun line => line ++ [mark]) ++ text) = ls ++ lines mark text := by
  induction ls with
  | nil => rfl
  | cons line ls ih =>
    have hrest := ih fun l hl => h l (List.mem_cons_of_mem _ hl)
    rw [List.flatMap_cons, List.append_assoc, List.append_assoc, List.singleton_append,
      lines_append_mark _ (h line List.mem_cons_self), hrest]
    rfl

end MetadataAgent.Lib
