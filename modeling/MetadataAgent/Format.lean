import MetadataAgent.Bytes
import MetadataAgent.Lib.Failing
import Mathlib.Data.List.Infix

/-! # Format strings

`format::Substitute` replaces every placeholder of a format, a name between two opening and two
closing braces, by the value of that name. It throws for a placeholder that is not closed and for
a name without a value. -/
namespace MetadataAgent.Format
open Lib
set_option autoImplicit false

/-- `format::Exception`. -/
structure Exception where
  what : Bytes
  deriving DecidableEq

/-! ## Doubled marks -/

/-- What is before and after the first place where the mark stands twice. -/
def splitAtPair (mark : UInt8) : Bytes → Option (Bytes × Bytes)
  | [] => none
  | [_] => none
  | a :: b :: rest =>
    if a = mark ∧ b = mark then some ([], rest)
    else (splitAtPair mark (b :: rest)).map fun p => (a :: p.1, p.2)

/-- The mark stands nowhere twice. -/
def NoPair (mark : UInt8) (text : Bytes) : Prop := ¬ [mark, mark] <:+: text

@[simp] theorem noPair_nil (mark : UInt8) : NoPair mark [] := by
  intro h
  cases List.infix_nil.mp h

theorem noPair_cons {mark a : UInt8} {text : Bytes} :
    NoPair mark (a :: text) ↔ ¬ (a = mark ∧ text.head? = some mark) ∧ NoPair mark text := by
  rw [NoPair, NoPair, List.infix_cons_iff, not_or]
  refine and_congr_left fun _ => not_congr ?_
  cases text with
  | nil => simp
  | cons b rest => simp [List.cons_prefix_cons, eq_comm]

theorem splitAtPair_eq_none {mark : UInt8} {text : Bytes} :
    splitAtPair mark text = none ↔ NoPair mark text := by
  induction text using splitAtPair.induct mark with
  | case1 => simp [splitAtPair]
  | case2 a => simp [splitAtPair, noPair_cons]
  | case3 a b rest hpair =>
    rw [splitAtPair, if_pos hpair, noPair_cons]
    simp [hpair]
  | case4 a b rest hpair ih =>
    rw [splitAtPair, if_neg hpair, Option.map_eq_none_iff, ih, noPair_cons (a := a)]
    simp [hpair]

theorem splitAtPair_of_noPair {mark : UInt8} {before : Bytes} (rest : Bytes)
    (h : NoPair mark (before ++ [mark])) :
    splitAtPair mark (before ++ mark :: mark :: rest) = some (before, rest) := by
  induction before with
  | nil => simp [splitAtPair]
  | cons a before ih =>
    rw [List.cons_append, noPair_cons] at h
    have ih := ih h.2
    cases before with
    | nil =>
      rw [List.nil_append] at ih
      simp only [List.cons_append, List.nil_append, List.head?_cons, and_true] at h ⊢
      rw [splitAtPair, if_neg fun hpair => h.1 hpair.1, ih]
      rfl
    | cons b before =>
      simp only [List.cons_append, List.head?_cons, Option.some.injEq] at h ih ⊢
      rw [splitAtPair, if_neg h.1, ih]
      rfl

theorem splitAtPair_eq_some {mark : UInt8} {text before rest : Bytes} :
    splitAtPair mark text = some (before, rest) ↔
      text = before ++ mark :: mark :: rest ∧ NoPair mark (before ++ [mark]) := by
  constructor
  · intro h
    induction text using splitAtPair.induct mark generalizing before with
    | case1 => cases h
    | case2 a => cases h
    | case3 a b rest' hpair =>
      rw [splitAtPair, if_pos hpair] at h
      obtain ⟨rfl, rfl⟩ := hpair
      cases h
      exact ⟨rfl, by simp [noPair_cons]⟩
    | case4 a b rest' hpair ih =>
      rw [splitAtPair, if_neg hpair, Option.map_eq_some_iff] at h
      obtain ⟨⟨before', rest''⟩, hsplit, heq⟩ := h
      cases heq
      obtain ⟨htext, hno⟩ := ih hsplit
      rw [htext, List.cons_append, List.cons_append, noPair_cons]
      refine ⟨rfl, ?_, hno⟩
      cases before' with
      | nil =>
        rw [List.nil_append, List.cons.injEq] at htext
        intro hmark
        exact hpair ⟨hmark.1, htext.1⟩
      | cons c before' =>
        rw [List.cons_append, List.cons.injEq] at htext
        intro hmark
        rw [List.cons_append, List.head?_cons, Option.some.injEq] at hmark
        exact hpair ⟨hmark.1, htext.1.trans hmark.2⟩
  · rintro ⟨rfl, hno⟩
    exact splitAtPair_of_noPair rest hno

theorem length_of_splitAtPair {mark : UInt8} {text before rest : Bytes}
    (h : splitAtPair mark text = some (before, rest)) :
    text.length = before.length + 2 + rest.length := by
  rw [(splitAtPair_eq_some.mp h).1]
  simp only [List.length_append, List.length_cons]
  omega

/-! ## Substitution -/

/-- The loop of `Substitute`, with the rest of the format and its position. -/
def substituteFrom (params : OrderedMap Bytes Bytes) (pos : ℕ) (format : Bytes) :
    Except Exception Bytes :=
  match _hbrace : splitAtPair 0x7b format with
  | none => .ok format
  | some (before, opened) =>
    match _hclose : splitAtPair 0x7d opened with
    | none =>
      .error ⟨lit "Unterminated placeholder at " ++ digits (pos + before.length)⟩
    | some (param, rest) =>
      match params.find param with
      | none =>
        .error ⟨lit "Unknown parameter '" ++ param ++ lit "' at " ++ digits pos⟩
      | some value =>
        (substituteFrom params (pos + before.length + 2 + param.length + 2) rest).map fun tail =>
          before ++ value ++ tail
termination_by format.length
decreasing_by
  have hopened := length_of_splitAtPair _hbrace
  have hrest := length_of_splitAtPair _hclose
  omega

def substitute (format : Bytes) (params : OrderedMap Bytes Bytes) : Except Exception Bytes :=
  substituteFrom params 0 format

/-- Every placeholder that the scan from the left meets is closed and has a known name. -/
inductive WellFormed (known : Bytes → Prop) : Bytes → Prop
  | literal {text : Bytes} (htext : NoPair 0x7b text) : WellFormed known text
  | placeholder {before name rest : Bytes} (hbefore : NoPair 0x7b (before ++ [0x7b]))
      (hname : NoPair 0x7d (name ++ [0x7d])) (hknown : known name)
      (hrest : WellFormed known rest) :
      WellFormed known (before ++ 0x7b :: 0x7b :: (name ++ 0x7d :: 0x7d :: rest))

section Substitute
variable (params : OrderedMap Bytes Bytes) (pos : ℕ)

theorem substituteFrom_literal {format : Bytes} (h : NoPair 0x7b format) :
    substituteFrom params pos format = .ok format := by
  rw [← splitAtPair_eq_none] at h
  rw [substituteFrom]
  split
  · rfl
  · rename_i hbrace
    rw [h] at hbrace
    cases hbrace

theorem substituteFrom_unterminated {before opened : Bytes}
    (hbefore : NoPair 0x7b (before ++ [0x7b])) (hopened : NoPair 0x7d opened) :
    substituteFrom params pos (before ++ 0x7b :: 0x7b :: opened) =
      .error ⟨lit "Unterminated placeholder at " ++ digits (pos + before.length)⟩ := by
  have hbrace := splitAtPair_of_noPair opened hbefore
  rw [← splitAtPair_eq_none] at hopened
  rw [substituteFrom]
  split
  · rename_i hnone
    rw [hbrace] at hnone
    cases hnone
  · rename_i hsome
    rw [hbrace] at hsome
    cases hsome
    split
    · rfl
    · rename_i hclose
      rw [hopened] at hclose
      cases hclose

theorem substituteFrom_placeholder {before name : Bytes} (rest : Bytes)
    (hbefore : NoPair 0x7b (before ++ [0x7b])) (hname : NoPair 0x7d (name ++ [0x7d])) :
    substituteFrom params pos (before ++ 0x7b :: 0x7b :: (name ++ 0x7d :: 0x7d :: rest)) =
      match params.find name with
      | none => .error ⟨lit "Unknown parameter '" ++ name ++ lit "' at " ++ digits pos⟩
      | some value =>
        (substituteFrom params (pos + before.length + 2 + name.length + 2) rest).map fun tail =>
          before ++ value ++ tail := by
  have hbrace := splitAtPair_of_noPair (name ++ 0x7d :: 0x7d :: rest) hbefore
  have hclose := splitAtPair_of_noPair rest hname
  rw [substituteFrom]
  split
  · rename_i hnone
    rw [hbrace] at hnone
    cases hnone
  · rename_i hsome
    rw [hbrace] at hsome
    cases hsome
    split
    · rename_i hnone
      rw [hclose] at hnone
      cases hnone
    · rename_i hsome
      rw [hclose] at hsome
      cases hsome
      rfl

/-- A format is a literal, or has a first placeholder that is closed or not. -/
theorem first_placeholder (format : Bytes) :
    NoPair 0x7b format ∨
    (∃ before opened, format = before ++ 0x7b :: 0x7b :: opened ∧
      NoPair 0x7b (before ++ [0x7b]) ∧ NoPair 0x7d opened) ∨
    ∃ before name rest, format = before ++ 0x7b :: 0x7b :: (name ++ 0x7d :: 0x7d :: rest) ∧
      NoPair 0x7b (before ++ [0x7b]) ∧ NoPair 0x7d (name ++ [0x7d]) := by
  cases hbrace : splitAtPair 0x7b format with
  | none => exact Or.inl (splitAtPair_eq_none.mp hbrace)
  | some p =>
    obtain ⟨before, opened⟩ := p
    obtain ⟨rfl, hbefore⟩ := splitAtPair_eq_some.mp hbrace
    cases hclose : splitAtPair 0x7d opened with
    | none => exact Or.inr (Or.inl ⟨before, opened, rfl, hbefore, splitAtPair_eq_none.mp hclose⟩)
    | some q =>
      obtain ⟨name, rest⟩ := q
      obtain ⟨rfl, hname⟩ := splitAtPair_eq_some.mp hclose
      exact Or.inr (Or.inr ⟨before, name, rest, rfl, hbefore, hname⟩)

theorem returns_of_wellFormed {format : Bytes}
    (h : WellFormed (fun name => (params.find name).isSome = true) format) :
    ∃ result, substituteFrom params pos format = .ok result := by
  induction h generalizing pos with
  | literal htext => exact ⟨_, substituteFrom_literal params pos htext⟩
  | @placeholder before name rest hbefore hname hknown _ ih =>
    obtain ⟨value, hvalue⟩ := Option.isSome_iff_exists.mp hknown
    obtain ⟨tail, htail⟩ := ih (pos + before.length + 2 + name.length + 2)
    refine ⟨before ++ value ++ tail, ?_⟩
    rw [substituteFrom_placeholder params pos rest hbefore hname, hvalue, htail]
    rfl

theorem wellFormed_of_returns (n : ℕ) {format result : Bytes} (hn : format.length ≤ n)
    (h : substituteFrom params pos format = .ok result) :
    WellFormed (fun name => (params.find name).isSome = true) format := by
  induction n generalizing format pos result with
  | zero =>
    rw [Nat.le_zero, List.length_eq_zero_iff] at hn
    rw [hn]
    exact .literal (noPair_nil _)
  | succ n ih =>
    rcases first_placeholder format with
      hno | ⟨before, opened, rfl, hbefore, hopened⟩ | ⟨before, name, rest, rfl, hbefore, hname⟩
    · exact .literal hno
    · rw [substituteFrom_unterminated params pos hbefore hopened] at h
      cases h
    · rw [substituteFrom_placeholder params pos rest hbefore hname] at h
      cases hvalue : params.find name with
      | none =>
        rw [hvalue] at h
        cases h
      | some value =>
        rw [hvalue] at h
        simp only at h
        cases htail : substituteFrom params (pos + before.length + 2 + name.length + 2) rest with
        | error e =>
          rw [htail] at h
          cases h
        | ok tail =>
          have hlength : rest.length ≤ n := by
            simp only [List.length_append, List.length_cons] at hn
            omega
          refine .placeholder hbefore hname ?_ (ih _ hlength htail)
          rw [hvalue]
          rfl

/-- `Substitute` returns exactly for the well-formed formats. -/
theorem substitute_returns_iff (format : Bytes) :
    (∃ result, substitute format params = .ok result) ↔
      WellFormed (fun name => (params.find name).isSome = true) format :=
  ⟨fun h => wellFormed_of_returns params 0 format.length (le_refl _) h.choose_spec,
    returns_of_wellFormed params 0⟩

end Substitute

/-! ## The loop with its positions -/

/-- `std::string::find` of the doubled mark, from a position on. -/
def findPair (mark : UInt8) (text : Bytes) (pos : ℕ) : Option ℕ :=
  (splitAtPair mark (text.drop pos)).map fun p => pos + p.1.length

/-- `std::string::substr`. -/
def substr (text : Bytes) (pos count : ℕ) : Bytes := (text.drop pos).take count

theorem findPair_eq_some {mark : UInt8} {text : Bytes} {pos found : ℕ}
    (h : findPair mark text pos = some found) :
    ∃ before rest, text.drop pos = before ++ mark :: mark :: rest ∧
      NoPair mark (before ++ [mark]) ∧ pos + before.length = found ∧
      substr text pos (found - pos) = before ∧ text.drop (found + 2) = rest ∧
      found + 2 + rest.length = text.length := by
  rw [findPair, Option.map_eq_some_iff] at h
  obtain ⟨⟨before, rest⟩, hsplit, hfound⟩ := h
  have hlength := length_of_splitAtPair hsplit
  obtain ⟨htext, hno⟩ := splitAtPair_eq_some.mp hsplit
  have hfound : pos + before.length = found := hfound
  rw [List.length_drop] at hlength
  refine ⟨before, rest, htext, hno, hfound, ?_, ?_, by omega⟩
  · rw [substr, ← hfound, Nat.add_sub_cancel_left, htext, List.take_left]
  · rw [← hfound, Nat.add_assoc, ← List.drop_drop, htext, ← List.drop_drop, List.drop_left]
    rfl

theorem findPair_eq_none {mark : UInt8} {text : Bytes} {pos : ℕ} :
    findPair mark text pos = none ↔ splitAtPair mark (text.drop pos) = none :=
  Option.map_eq_none_iff

/-- The loop of `Substitute`, with the stream `result` and the position `pos`. -/
def substituteLoop (format : Bytes) (params : OrderedMap Bytes Bytes) (pos : ℕ) (result : Bytes) :
    Except Exception Bytes :=
  match _hbrace : findPair 0x7b format pos with
  | none => .ok (result ++ format.drop pos)
  | some brace =>
    match _hclose : findPair 0x7d format (brace + 2) with
    | none => .error ⟨lit "Unterminated placeholder at " ++ digits brace⟩
    | some close =>
      let param := substr format (brace + 2) (close - (brace + 2))
      match params.find param with
      | none =>
        .error ⟨lit "Unknown parameter '" ++ param ++ lit "' at " ++ digits pos⟩
      | some value =>
        substituteLoop format params (close + 2) (result ++ substr format pos (brace - pos) ++ value)
termination_by format.length - pos
decreasing_by
  obtain ⟨_, _, _, _, hbrace, _⟩ := findPair_eq_some _hbrace
  obtain ⟨_, _, _, _, hclose, _, _, hlength⟩ := findPair_eq_some _hclose
  omega

section Loop
variable (format : Bytes) (params : OrderedMap Bytes Bytes)

theorem substituteLoop_of_none {pos : ℕ} (result : Bytes) (h : findPair 0x7b format pos = none) :
    substituteLoop format params pos result = .ok (result ++ format.drop pos) := by
  rw [substituteLoop]
  split
  · rfl
  · rename_i hsome
    rw [h] at hsome
    cases hsome

theorem substituteLoop_of_open {pos brace : ℕ} (result : Bytes)
    (h : findPair 0x7b format pos = some brace)
    (hclose : findPair 0x7d format (brace + 2) = none) :
    substituteLoop format params pos result =
      .error ⟨lit "Unterminated placeholder at " ++ digits brace⟩ := by
  rw [substituteLoop]
  split
  · rename_i hnone
    rw [h] at hnone
    cases hnone
  · rename_i hsome
    rw [h] at hsome
    cases hsome
    split
    · rfl
    · rename_i hsome
      rw [hclose] at hsome
      cases hsome

theorem substituteLoop_of_closed {pos brace close : ℕ} (result : Bytes)
    (h : findPair 0x7b format pos = some brace)
    (hclose : findPair 0x7d format (brace + 2) = some close) :
    substituteLoop format params pos result =
      match params.find (substr format (brace + 2) (close - (brace + 2))) with
      | none =>
        .error ⟨lit "Unknown parameter '" ++ substr format (brace + 2) (close - (brace + 2)) ++
          lit "' at " ++ digits pos⟩
      | some value =>
        substituteLoop format params (close + 2)
          (result ++ substr format pos (brace - pos) ++ value) := by
  rw [substituteLoop]
  split
  · rename_i hnone
    rw [h] at hnone
    cases hnone
  · rename_i hsome
    rw [h] at hsome
    cases hsome
    split
    · rename_i hnone
      rw [hclose] at hnone
      cases hnone
    · rename_i hsome
      rw [hclose] at hsome
      cases hsome
      rfl

/-- The loop from a position and the substitution in the rest of the format agree. -/
theorem substituteLoop_eq (pos : ℕ) (result : Bytes) :
    substituteLoop format params pos result =
      (substituteFrom params pos (format.drop pos)).map fun tail => result ++ tail := by
  induction pos, result using substituteLoop.induct format params with
  | case1 pos result hbrace =>
    rw [substituteLoop_of_none format params result hbrace,
      substituteFrom_literal params pos (splitAtPair_eq_none.mp (findPair_eq_none.mp hbrace))]
    rfl
  | case2 pos result brace hbrace hclose =>
    obtain ⟨before, opened, htext, hbefore, hbraceAt, _, hopened, _⟩ := findPair_eq_some hbrace
    have hno := splitAtPair_eq_none.mp (findPair_eq_none.mp hclose)
    rw [hopened] at hno
    rw [substituteLoop_of_open format params result hbrace hclose, htext,
      substituteFrom_unterminated params pos hbefore hno, hbraceAt]
    rfl
  | case3 pos result brace hbrace close hclose param hvalue =>
    obtain ⟨before, opened, htext, hbefore, hbraceAt, _, hopened, _⟩ := findPair_eq_some hbrace
    obtain ⟨name, rest, hname, hnameNo, hcloseAt, hparam, hrest, _⟩ := findPair_eq_some hclose
    rw [substituteLoop_of_closed format params result hbrace hclose, hvalue, htext, ← hopened,
      hname, substituteFrom_placeholder params pos rest hbefore hnameNo, ← hparam, hvalue]
    rfl
  | case4 pos result brace hbrace close hclose param value hvalue ih =>
    obtain ⟨before, opened, htext, hbefore, hbraceAt, hliteral, hopened, _⟩ :=
      findPair_eq_some hbrace
    obtain ⟨name, rest, hname, hnameNo, hcloseAt, hparam, hrest, _⟩ := findPair_eq_some hclose
    have hpos : pos + before.length + 2 + name.length + 2 = close + 2 := by omega
    rw [substituteLoop_of_closed format params result hbrace hclose, hvalue, htext, ← hopened,
      hname, substituteFrom_placeholder params pos rest hbefore hnameNo, ← hparam, hvalue]
    simp only
    rw [ih, hparam, hpos, hrest, hliteral]
    cases substituteFrom params (close + 2) rest with
    | error e => rfl
    | ok tail => simp [Except.map]

theorem substituteLoop_zero :
    substituteLoop format params 0 [] = substitute format params := by
  rw [substituteLoop_eq, List.drop_zero, substitute]
  cases substituteFrom params 0 format with
  | error e => rfl
  | ok tail => rfl

end Loop

/-! ## The scan from the left -/

/-- What the scan meets. -/
inductive Piece where
  | literal (text : Bytes)
  | name (text : Bytes)
  | unterminated
  deriving DecidableEq

/-- The pieces of a format: the text before the next two opening braces, the name up to the first
two closing braces after them, and so on. -/
inductive Scan : Bytes → List Piece → Prop
  | rest {text : Bytes} (htext : NoPair 0x7b text) : Scan text [.literal text]
  | unterminated {before opened : Bytes} (hbefore : NoPair 0x7b (before ++ [0x7b]))
      (hopened : NoPair 0x7d opened) :
      Scan (before ++ 0x7b :: 0x7b :: opened) [.literal before, .unterminated]
  | placeholder {before name rest : Bytes} {pieces : List Piece}
      (hbefore : NoPair 0x7b (before ++ [0x7b])) (hname : NoPair 0x7d (name ++ [0x7d]))
      (hrest : Scan rest pieces) :
      Scan (before ++ 0x7b :: 0x7b :: (name ++ 0x7d :: 0x7d :: rest))
        (.literal before :: .name name :: pieces)

/-- What a piece stands for in the result, if anything. -/
def Piece.value (params : OrderedMap Bytes Bytes) : Piece → Option Bytes
  | .literal text => some text
  | .name text => params.find text
  | .unterminated => none

theorem exists_scan (n : ℕ) {format : Bytes} (hn : format.length ≤ n) :
    ∃ pieces, Scan format pieces := by
  induction n generalizing format with
  | zero =>
    rw [Nat.le_zero, List.length_eq_zero_iff] at hn
    rw [hn]
    exact ⟨_, .rest (noPair_nil _)⟩
  | succ n ih =>
    rcases first_placeholder format with
      hno | ⟨before, opened, rfl, hbefore, hopened⟩ | ⟨before, name, rest, rfl, hbefore, hname⟩
    · exact ⟨_, .rest hno⟩
    · exact ⟨_, .unterminated hbefore hopened⟩
    · simp only [List.length_append, List.length_cons] at hn
      have hlength : rest.length ≤ n := by omega
      obtain ⟨pieces, hrest⟩ := ih hlength
      exact ⟨_, .placeholder hbefore hname hrest⟩

theorem Scan.inversion {format : Bytes} {pieces : List Piece} (h : Scan format pieces) :
    (splitAtPair 0x7b format = none ∧ pieces = [.literal format]) ∨
    (∃ before opened, splitAtPair 0x7b format = some (before, opened) ∧
      splitAtPair 0x7d opened = none ∧ pieces = [.literal before, .unterminated]) ∨
    ∃ before opened name rest tail, splitAtPair 0x7b format = some (before, opened) ∧
      splitAtPair 0x7d opened = some (name, rest) ∧ Scan rest tail ∧
      pieces = .literal before :: .name name :: tail := by
  cases h with
  | rest htext => exact Or.inl ⟨splitAtPair_eq_none.mpr htext, rfl⟩
  | @unterminated before opened hbefore hopened =>
    exact Or.inr (Or.inl ⟨before, opened, splitAtPair_of_noPair opened hbefore,
      splitAtPair_eq_none.mpr hopened, rfl⟩)
  | @placeholder before name rest tail hbefore hname hrest =>
    exact Or.inr (Or.inr ⟨before, _, name, rest, tail, splitAtPair_of_noPair _ hbefore,
      splitAtPair_of_noPair rest hname, hrest, rfl⟩)

theorem Scan.unique {format : Bytes} {ps qs : List Piece} (hp : Scan format ps)
    (hq : Scan format qs) : ps = qs := by
  induction hp generalizing qs with
  | rest htext =>
    have hsplit := splitAtPair_eq_none.mpr htext
    rcases hq.inversion with ⟨_, rfl⟩ | ⟨_, _, hsome, _⟩ | ⟨_, _, _, _, _, hsome, _⟩
    · rfl
    · rw [hsplit] at hsome
      cases hsome
    · rw [hsplit] at hsome
      cases hsome
  | @unterminated before opened hbefore hopened =>
    have hsplit := splitAtPair_of_noPair opened hbefore
    have hclose := splitAtPair_eq_none.mpr hopened
    rcases hq.inversion with ⟨hnone, _⟩ | ⟨_, _, hsome, _, rfl⟩ | ⟨_, _, _, _, _, hsome, hname, _⟩
    · rw [hsplit] at hnone
      cases hnone
    · rw [hsplit] at hsome
      cases hsome
      rfl
    · rw [hsplit] at hsome
      cases hsome
      rw [hclose] at hname
      cases hname
  | @placeholder before name rest tail hbefore hname _ ih =>
    have hsplit := splitAtPair_of_noPair (name ++ 0x7d :: 0x7d :: rest) hbefore
    have hclose := splitAtPair_of_noPair rest hname
    rcases hq.inversion with
      ⟨hnone, _⟩ | ⟨_, _, hsome, hnone, _⟩ | ⟨_, _, _, _, _, hsome, hname', hrest, rfl⟩
    · rw [hsplit] at hnone
      cases hnone
    · rw [hsplit] at hsome
      cases hsome
      rw [hclose] at hnone
      cases hnone
    · rw [hsplit] at hsome
      cases hsome
      rw [hclose] at hname'
      cases hname'
      rw [ih hrest]

section Pieces
variable (params : OrderedMap Bytes Bytes) (pos : ℕ)

/-- The pieces that have a value, in order. -/
def joinPieces (pieces : List Piece) : Bytes := (pieces.filterMap (Piece.value params)).flatten

theorem substituteFrom_ok_of_scan {format : Bytes} {pieces : List Piece} (h : Scan format pieces)
    (hall : ∀ piece ∈ pieces, piece.value params ≠ none) :
    substituteFrom params pos format = .ok (joinPieces params pieces) := by
  induction h generalizing pos with
  | rest htext =>
    rw [substituteFrom_literal params pos htext]
    simp [joinPieces, Piece.value]
  | unterminated hbefore hopened =>
    have hlast := hall .unterminated (by simp)
    exact absurd rfl hlast
  | @placeholder before name rest tail hbefore hname _ ih =>
    have hvalue : params.find name ≠ none := hall (.name name) (by simp)
    obtain ⟨value, hvalue⟩ := Option.ne_none_iff_exists'.mp hvalue
    have hrest := ih (pos + before.length + 2 + name.length + 2) fun piece hpiece =>
      hall piece (by simp [hpiece])
    rw [substituteFrom_placeholder params pos rest hbefore hname, hvalue, hrest]
    simp [joinPieces, Piece.value, hvalue, Except.map]

theorem substituteFrom_error_of_scan {format : Bytes} {pieces : List Piece}
    (h : Scan format pieces) {piece : Piece} (hpiece : piece ∈ pieces)
    (hnone : piece.value params = none) :
    ∃ e, substituteFrom params pos format = .error e := by
  induction h generalizing pos with
  | rest htext =>
    rw [List.mem_singleton] at hpiece
    rw [hpiece] at hnone
    cases hnone
  | unterminated hbefore hopened =>
    exact ⟨_, substituteFrom_unterminated params pos hbefore hopened⟩
  | @placeholder before name rest tail hbefore hname _ ih =>
    rw [substituteFrom_placeholder params pos rest hbefore hname]
    cases hvalue : params.find name with
    | none => exact ⟨_, rfl⟩
    | some value =>
      rw [List.mem_cons, List.mem_cons] at hpiece
      rcases hpiece with rfl | rfl | hpiece
      · cases hnone
      · rw [Piece.value, hvalue] at hnone
        cases hnone
      · obtain ⟨e, he⟩ := ih (pos + before.length + 2 + name.length + 2) hpiece
        rw [he]
        exact ⟨e, rfl⟩

theorem value_eq_none_iff (piece : Piece) : piece.value params = none ↔
    piece = .unterminated ∨ ∃ name, piece = .name name ∧ params.find name = none := by
  cases piece with
  | literal text => simp [Piece.value]
  | name text => simp [Piece.value]
  | unterminated => simp [Piece.value]

/-- `Substitute` scans a format from the left; it throws exactly for a placeholder that is not
closed or has no value, and else joins the literal pieces and the values. -/
theorem substitute_scans (format : Bytes) : ∃ pieces, Scan format pieces ∧
    (∀ others, Scan format others → others = pieces) ∧
    ((∃ e, substituteLoop format params 0 [] = .error e) ↔
      .unterminated ∈ pieces ∨ ∃ name, .name name ∈ pieces ∧ params.find name = none) ∧
    (¬ (.unterminated ∈ pieces ∨ ∃ name, .name name ∈ pieces ∧ params.find name = none) →
      substituteLoop format params 0 [] = .ok (joinPieces params pieces)) := by
  obtain ⟨pieces, hscan⟩ := exists_scan format.length (le_refl format.length)
  have hbad : (.unterminated ∈ pieces ∨ ∃ name, .name name ∈ pieces ∧ params.find name = none) ↔
      ∃ piece ∈ pieces, piece.value params = none := by
    constructor
    · rintro (hmem | ⟨name, hmem, hname⟩)
      · exact ⟨_, hmem, rfl⟩
      · exact ⟨_, hmem, hname⟩
    · rintro ⟨piece, hmem, hnone⟩
      rcases (value_eq_none_iff params piece).mp hnone with rfl | ⟨name, rfl, hname⟩
      · exact Or.inl hmem
      · exact Or.inr ⟨name, hmem, hname⟩
  have hok : ¬ (.unterminated ∈ pieces ∨ ∃ name, .name name ∈ pieces ∧ params.find name = none) →
      substituteLoop format params 0 [] = .ok (joinPieces params pieces) := by
    intro hgood
    rw [hbad] at hgood
    rw [substituteLoop_zero]
    exact substituteFrom_ok_of_scan params 0 hscan fun piece hmem hnone =>
      hgood ⟨piece, hmem, hnone⟩
  refine ⟨pieces, hscan, fun others hothers => hothers.unique hscan, ?_, hok⟩
  constructor
  · rintro ⟨e, he⟩
    by_contra hgood
    rw [hok hgood] at he
    cases he
  · intro hpiece
    obtain ⟨piece, hmem, hnone⟩ := hbad.mp hpiece
    rw [substituteLoop_zero]
    exact substituteFrom_error_of_scan params 0 hscan hmem hnone

end Pieces

end MetadataAgent.Format
