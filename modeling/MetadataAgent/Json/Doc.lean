import MetadataAgent.Json.Value
import MetadataAgent.Lib.Delimited

/-! # JSON documents, their tokens and their SAX events

A JSON text is a sequence of tokens. `Doc` is the syntax tree of a text: an object may repeat a
key, and a number is an integer token or a floating one. A document has its tokens, the events
the parser reports for it, and the value it denotes, in which the first occurrence of a key
counts. `Denotes` is then the meaning of a text. -/
namespace MetadataAgent.Json
open Lib
set_option autoImplicit false

inductive Token where
  | leftBrace | rightBrace | leftBracket | rightBracket | comma | colon
  | null
  | boolean (b : Bool)
  | integer (n : Int)
  | double (d : LongDouble)
  | string (s : Bytes)
  deriving DecidableEq

inductive Event where
  | null
  | boolean (b : Bool)
  | integer (n : Int)
  | double (d : LongDouble)
  | string (s : Bytes)
  | startMap
  | mapKey (key : Bytes)
  | endMap
  | startArray
  | endArray
  deriving DecidableEq

inductive Doc where
  | null
  | boolean (b : Bool)
  | integer (n : Int)
  | double (d : LongDouble)
  | string (s : Bytes)
  | array (elements : List Doc)
  | object (fields : List (Bytes × Doc))

@[elab_as_elim]
theorem Doc.inductionOn {P : Doc → Prop} (d : Doc) (null : P .null)
    (boolean : ∀ b, P (.boolean b)) (integer : ∀ n, P (.integer n)) (double : ∀ x, P (.double x))
    (string : ∀ s, P (.string s))
    (array : ∀ ds : List Doc, (∀ e ∈ ds, P e) → P (.array ds))
    (object : ∀ fs : List (Bytes × Doc), (∀ f ∈ fs, P f.2) → P (.object fs)) : P d := by
  refine Doc.rec (motive_1 := P) (motive_2 := fun ds => ∀ e ∈ ds, P e)
    (motive_3 := fun fs => ∀ f ∈ fs, P f.2) (motive_4 := fun f => P f.2)
    null boolean integer double string array object ?_ ?_ ?_ ?_ ?_ d
  · intro e he
    cases he
  · intro e ds he hds a ha
    rcases List.mem_cons.mp ha with rfl | ha
    · exact he
    · exact hds a ha
  · intro f hf
    cases hf
  · intro f fs hf hfs a ha
    rcases List.mem_cons.mp ha with rfl | ha
    · exact hf
    · exact hfs a ha
  · intro k v hv
    exact hv

/-! ## Tokens, events, value -/

mutual
def Doc.tokens : Doc → List Token
  | .null => [.null]
  | .boolean b => [.boolean b]
  | .integer n => [.integer n]
  | .double d => [.double d]
  | .string s => [.string s]
  | .array ds => .leftBracket :: ([Token.comma].intercalate (elementTokens ds) ++ [.rightBracket])
  | .object fs => .leftBrace :: ([Token.comma].intercalate (fieldTokens fs) ++ [.rightBrace])
termination_by structural d => d

def elementTokens : List Doc → List (List Token)
  | [] => []
  | d :: ds => d.tokens :: elementTokens ds
termination_by structural ds => ds

def fieldTokens : List (Bytes × Doc) → List (List Token)
  | [] => []
  | (k, d) :: fs => (.string k :: .colon :: d.tokens) :: fieldTokens fs
termination_by structural fs => fs
end

mutual
def Doc.events : Doc → List Event
  | .null => [.null]
  | .boolean b => [.boolean b]
  | .integer n => [.integer n]
  | .double d => [.double d]
  | .string s => [.string s]
  | .array ds => .startArray :: (elementEvents ds ++ [.endArray])
  | .object fs => .startMap :: (fieldEvents fs ++ [.endMap])
termination_by structural d => d

def elementEvents : List Doc → List Event
  | [] => []
  | d :: ds => d.events ++ elementEvents ds
termination_by structural ds => ds

def fieldEvents : List (Bytes × Doc) → List Event
  | [] => []
  | (k, d) :: fs => .mapKey k :: (d.events ++ fieldEvents fs)
termination_by structural fs => fs
end

mutual
def Doc.value : Doc → Value
  | .null => .null
  | .boolean b => .boolean b
  | .integer n => .number (.finite n)
  | .double d => .number d
  | .string s => .string s
  | .array ds => .array (elementValues ds)
  | .object fs => .object (OrderedMap.ofList (fieldValues fs)).entries
termination_by structural d => d

def elementValues : List Doc → List Value
  | [] => []
  | d :: ds => d.value :: elementValues ds
termination_by structural ds => ds

def fieldValues : List (Bytes × Doc) → Object
  | [] => []
  | (k, d) :: fs => (k, d.value) :: fieldValues fs
termination_by structural fs => fs
end

theorem elementTokens_eq (ds : List Doc) : elementTokens ds = ds.map Doc.tokens := by
  induction ds with
  | nil => rfl
  | cons d ds ih => rw [elementTokens, ih, List.map_cons]

theorem fieldTokens_eq (fs : List (Bytes × Doc)) :
    fieldTokens fs = fs.map fun f => .string f.1 :: .colon :: f.2.tokens := by
  induction fs with
  | nil => rfl
  | cons f fs ih => rw [fieldTokens, ih, List.map_cons]

theorem elementEvents_eq (ds : List Doc) : elementEvents ds = ds.flatMap Doc.events := by
  induction ds with
  | nil => rfl
  | cons d ds ih => rw [elementEvents, ih, List.flatMap_cons]

theorem fieldEvents_eq (fs : List (Bytes × Doc)) :
    fieldEvents fs = fs.flatMap fun f => .mapKey f.1 :: f.2.events := by
  induction fs with
  | nil => rfl
  | cons f fs ih => rw [fieldEvents, ih, List.flatMap_cons, List.cons_append]

theorem elementValues_eq (ds : List Doc) : elementValues ds = ds.map Doc.value := by
  induction ds with
  | nil => rfl
  | cons d ds ih => rw [elementValues, ih, List.map_cons]

theorem fieldValues_eq (fs : List (Bytes × Doc)) :
    fieldValues fs = fs.map fun f => (f.1, f.2.value) := by
  induction fs with
  | nil => rfl
  | cons f fs ih => rw [fieldValues, ih, List.map_cons]

/-- The text is that of a document with this value. -/
def Denotes (text : List Token) (v : Value) : Prop := ∃ d : Doc, d.tokens = text ∧ d.value = v

theorem lookup_value_object (fs : List (Bytes × Doc)) (k : Bytes) :
    lookup k (OrderedMap.ofList (fieldValues fs)).entries =
      lookup k (fs.map fun f => (f.1, f.2.value)) := by
  rw [← fieldValues_eq]
  exact OrderedMap.find_ofList _ k

theorem Doc.ordered_value (d : Doc) : d.value.Ordered := by
  induction d using Doc.inductionOn with
  | null => trivial
  | boolean b => trivial
  | integer n => trivial
  | double x => trivial
  | string s => trivial
  | array ds ih =>
    rw [Doc.value, Value.Ordered, orderedElements_iff, elementValues_eq]
    intro v hv
    obtain ⟨d, hd, rfl⟩ := List.mem_map.mp hv
    exact ih d hd
  | object fs ih =>
    rw [Doc.value, Value.Ordered, orderedFields_iff]
    refine ⟨(OrderedMap.ofList (fieldValues fs)).ascending, ?_⟩
    intro f hf
    have hmem : f ∈ fs.map fun f => (f.1, f.2.value) :=
      fieldValues_eq fs ▸ OrderedMap.mem_of_mem_ofList hf
    obtain ⟨g, hg, rfl⟩ := List.mem_map.mp hmem
    exact ih g hg

/-! ## Separators and lexemes -/

def Token.isSeparator : Token → Bool
  | .comma | .colon => true
  | _ => false

/-- The tokens of a text that are not separators. -/
def lexemes (text : List Token) : List Token := text.filter fun t => !t.isSeparator

@[simp] theorem lexemes_append (s t : List Token) : lexemes (s ++ t) = lexemes s ++ lexemes t :=
  List.filter_append _ _

theorem lexemes_intercalate_comma (ts : List (List Token)) :
    lexemes ([Token.comma].intercalate ts) = ts.flatMap lexemes := by
  induction ts with
  | nil => rfl
  | cons t ts ih =>
    cases ts with
    | nil => simp [List.intercalate]
    | cons u us =>
      have hcomma : lexemes [Token.comma] = [] := rfl
      rw [List.intercalate_cons_cons, lexemes_append, lexemes_append, ih, hcomma,
        List.append_nil]
      rfl

def Event.token : Event → Token
  | .null => .null
  | .boolean b => .boolean b
  | .integer n => .integer n
  | .double d => .double d
  | .string s => .string s
  | .startMap => .leftBrace
  | .mapKey key => .string key
  | .endMap => .rightBrace
  | .startArray => .leftBracket
  | .endArray => .rightBracket

theorem lexemes_tokens (d : Doc) : lexemes d.tokens = d.events.map Event.token := by
  induction d using Doc.inductionOn with
  | null => rfl
  | boolean b => rfl
  | integer n => rfl
  | double x => rfl
  | string s => rfl
  | array ds ih =>
    have hbody : (ds.map Doc.tokens).flatMap lexemes =
        (ds.flatMap Doc.events).map Event.token := by
      rw [List.flatMap_map, List.map_flatMap]
      exact List.flatMap_congr ih
    rw [Doc.tokens, Doc.events, elementTokens_eq, elementEvents_eq, List.map_cons, List.map_append,
      ← hbody, ← lexemes_intercalate_comma, ← List.singleton_append, lexemes_append,
      lexemes_append]
    rfl
  | object fs ih =>
    have hbody : (fs.map fun f => .string f.1 :: .colon :: f.2.tokens).flatMap lexemes =
        (fs.flatMap fun f => .mapKey f.1 :: f.2.events).map Event.token := by
      rw [List.flatMap_map, List.map_flatMap]
      apply List.flatMap_congr
      intro f hf
      rw [List.map_cons, ← ih f hf]
      rfl
    rw [Doc.tokens, Doc.events, fieldTokens_eq, fieldEvents_eq, List.map_cons, List.map_append,
      ← hbody, ← lexemes_intercalate_comma, ← List.singleton_append, lexemes_append,
      lexemes_append]
    rfl

/-! ## One reading of a text -/

theorem tokens_append_ne (d : Doc) {close : Token} (hclose : close = .rightBracket ∨
    close = .rightBrace) (s t : List Token) : d.tokens ++ s ≠ close :: t := by
  rcases hclose with rfl | rfl <;> cases d <;> simp [Doc.tokens]

theorem tokens_readable (d : Doc) : Readable Doc.tokens d := by
  induction d using Doc.inductionOn with
  | null =>
    intro e s t h
    cases e <;> simp_all [Doc.tokens]
  | boolean b =>
    intro e s t h
    cases e <;> simp_all [Doc.tokens]
  | integer n =>
    intro e s t h
    cases e <;> simp_all [Doc.tokens]
  | double x =>
    intro e s t h
    cases e <;> simp_all [Doc.tokens]
  | string k =>
    intro e s t h
    cases e <;> simp_all [Doc.tokens]
  | array ds ih =>
    intro e s t h
    cases e with
    | array es =>
      simp only [Doc.tokens, elementTokens_eq, List.cons_append, List.append_assoc,
        List.cons.injEq, true_and, List.nil_append] at h
      obtain ⟨rfl, rfl⟩ := delimited_readable (by decide)
        (fun d s t => tokens_append_ne d (.inl rfl) s t) ds es ih s t h
      exact ⟨rfl, rfl⟩
    | _ => simp [Doc.tokens] at h
  | object fs ih =>
    intro e s t h
    cases e with
    | object gs =>
      simp only [Doc.tokens, fieldTokens_eq, List.cons_append, List.append_assoc,
        List.cons.injEq, true_and, List.nil_append] at h
      have hfield : ∀ f ∈ fs, Readable
          (fun f : Bytes × Doc => Token.string f.1 :: .colon :: f.2.tokens) f := by
        intro f hf g s t h
        simp only [List.cons_append, List.cons.injEq, Token.string.injEq, true_and] at h
        obtain ⟨hvalue, hrest⟩ := ih f hf g.2 s t h.2
        exact ⟨Prod.ext h.1 hvalue, hrest⟩
      obtain ⟨rfl, rfl⟩ := delimited_readable (by decide) (by simp) fs gs hfield s t h
      exact ⟨rfl, rfl⟩
    | _ => simp [Doc.tokens] at h

/-- A text is the text of at most one document, and so denotes at most one value. -/
theorem tokens_injective {d e : Doc} (h : d.tokens = e.tokens) : d = e :=
  (tokens_readable d e [] [] (by rw [h])).1

theorem denotes_tokens {d : Doc} {v : Value} : Denotes d.tokens v ↔ d.value = v := by
  constructor
  · rintro ⟨e, he, rfl⟩
    rw [tokens_injective he]
  · intro h
    exact ⟨d, rfl, h⟩

end MetadataAgent.Json
