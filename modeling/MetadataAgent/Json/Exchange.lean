import MetadataAgent.Json.Lexer

/-! # Texts that are read back

What `ToString` writes, `AllFromStream` and `FromString` read: the values of a text are the values
it was written for, in their order, however the stream is cut into blocks. The parser is a
parameter that reads the texts of the generator; the pushdown parser with its lexer is one. -/
namespace MetadataAgent.Json
open Lib
set_option autoImplicit false

/-! ## Tokens of a value -/

section Lexer
variable (formatDouble : LongDouble → Bytes) (toDouble : LongDouble → LongDouble)
  (readDouble : Bytes → Option LongDouble)

/-- A floating number is written as one word, and read back from it. -/
def ReadsDoubles : Prop :=
  ∀ x : LongDouble, x.isFinite = true → toDouble x = x → isEffectivelyInteger x = false →
    formatDouble x ≠ [] ∧ (∀ b ∈ formatDouble x, isAtomByte b = true) ∧
      readAtom readDouble (formatDouble x) = some (.double x)

variable {formatDouble toDouble readDouble}

/-- Items with commas between an opening and a closing bracket. -/
theorem Lexes.bracketed {α : Type} {opening closing : UInt8} {first last : Token}
    (hfirst : lexStart opening = (.start, [some first]))
    (hlast : lexStart closing = (.start, [some last])) (hmark : isAtomByte closing = false)
    {text : α → Bytes} {toks : α → List Token} {items : List α}
    (h : ∀ a ∈ items, ∀ rest, Delimits rest → Lexes readDouble (text a) (toks a) rest)
    (rest : Bytes) :
    Lexes readDouble (opening :: ([0x2c].intercalate (items.map text) ++ [closing]))
      (first :: ([Token.comma].intercalate (items.map toks) ++ [last])) rest := by
  have hitems : Lexes readDouble ([0x2c].intercalate (items.map text))
      ([Token.comma].intercalate (items.map toks)) ([closing] ++ rest) := Lexes.items h hmark
  have hbody := hitems.append (Lexes.single hlast rest)
  have hopening : Lexes readDouble [opening] [first]
      ([0x2c].intercalate (items.map text) ++ [closing] ++ rest) := Lexes.single hfirst _
  exact hopening.append hbody

theorem lexes_array {es : List Value}
    (h : ∀ e ∈ es, ∀ rest, Delimits rest →
      Lexes readDouble (compactText formatDouble toDouble e) (e.doc toDouble).tokens rest)
    (rest : Bytes) :
    Lexes readDouble (compactText formatDouble toDouble (.array es))
      ((Value.array es).doc toDouble).tokens rest := by
  rw [compactText_array, Value.doc, Doc.tokens, elementDocs_eq, elementTokens_eq, List.map_map]
  exact Lexes.bracketed rfl rfl rfl h rest

theorem lexes_object {fs : Object}
    (h : ∀ f ∈ fs, ∀ rest, Delimits rest →
      Lexes readDouble (compactText formatDouble toDouble f.2) (f.2.doc toDouble).tokens rest)
    (rest : Bytes) :
    Lexes readDouble (compactText formatDouble toDouble (.object fs))
      ((Value.object fs).doc toDouble).tokens rest := by
  have hfield : ∀ f ∈ fs, ∀ rest, Delimits rest →
      Lexes readDouble (quote f.1 ++ 0x3a :: compactText formatDouble toDouble f.2)
        (.string f.1 :: .colon :: (f.2.doc toDouble).tokens) rest := by
    intro f hf rest hrest
    have hcolon : Lexes readDouble [0x3a] [.colon]
        (compactText formatDouble toDouble f.2 ++ rest) := Lexes.single rfl _
    exact (Lexes.string f.1 _).append (hcolon.append (h f hf rest hrest))
  rw [compactText_object, Value.doc, Doc.tokens, fieldDocs_eq, fieldTokens_eq, List.map_map]
  exact Lexes.bracketed rfl rfl rfl hfield rest

/-- The text of a value is read as the tokens of its document. -/
theorem lexes_value (hdoubles : ReadsDoubles formatDouble toDouble readDouble) (v : Value)
    (hv : ∀ x ∈ v.numbers, isEffectivelyInteger x = true ∨ x.isFinite = true ∧ toDouble x = x)
    {rest : Bytes} (hrest : Delimits rest) :
    Lexes readDouble (compactText formatDouble toDouble v) (v.doc toDouble).tokens rest := by
  induction v using Value.inductionOn generalizing rest with
  | null =>
    have htext : compactText formatDouble toDouble .null = lit "null" := List.append_nil _
    rw [htext]
    exact Lexes.atom (by decide) (by decide +kernel) rfl hrest
  | boolean b =>
    have htext : compactText formatDouble toDouble (.boolean b) =
        if b then lit "true" else lit "false" := List.append_nil _
    rw [htext]
    cases b with
    | true => exact Lexes.atom (by decide) (by decide +kernel) rfl hrest
    | false => exact Lexes.atom (by decide) (by decide +kernel) rfl hrest
  | number x =>
    rw [compactText, Value.doc]
    by_cases hinteger : isEffectivelyInteger x = true
    · have htext : textOf formatDouble (Doc.integer (toLongLong x)).tokens =
          decimal (toLongLong x) := List.append_nil _
      rw [if_pos hinteger, htext]
      refine Lexes.atom ?_ (fun b hb => isAtomByte_decimal hb) (readAtom_decimal readDouble _) hrest
      intro hnil
      have hread := readInteger_decimal (toLongLong x)
      rw [hnil] at hread
      cases hread
    · obtain ⟨hfinite, hexact⟩ := (hv x (List.mem_singleton.mpr rfl)).resolve_left hinteger
      have htext : textOf formatDouble (Doc.double (toDouble x)).tokens = formatDouble x := by
        rw [hexact]
        exact List.append_nil _
      obtain ⟨hsome, hbytes, hread⟩ :=
        hdoubles x hfinite hexact (Bool.eq_false_iff.mpr hinteger)
      rw [if_neg hinteger, htext, hexact]
      exact Lexes.atom hsome hbytes hread hrest
  | string s =>
    have htext : compactText formatDouble toDouble (.string s) = quote s := List.append_nil _
    rw [htext]
    exact Lexes.string s rest
  | array es ih =>
    refine lexes_array (fun e he rest hrest => ?_) rest
    exact ih e he (fun x hx => hv x (mem_elementNumbers.mpr ⟨e, he, hx⟩)) hrest
  | object fs ih =>
    refine lexes_object (fun f hf rest hrest => ?_) rest
    exact ih f hf (fun x hx => hv x (mem_fieldNumbers.mpr ⟨f, hf, hx⟩)) hrest

theorem isText_textParser (hdoubles : ReadsDoubles formatDouble toDouble readDouble) (fs : Object)
    (hfs : ∀ x ∈ (Value.object fs).numbers,
      isEffectivelyInteger x = true ∨ x.isFinite = true ∧ toDouble x = x) :
    (textParser readDouble).IsText (compactText formatDouble toDouble (.object fs))
      ((Value.object fs).doc toDouble) := by
  have hlexes : Lexes readDouble (compactText formatDouble toDouble (.object fs))
      ((Value.object fs).doc toDouble).tokens [] := by
    refine lexes_object (fun f hf rest hrest => ?_) []
    exact lexes_value hdoubles f.2 (fun x hx => hfs x (mem_fieldNumbers.mpr ⟨f, hf, hx⟩)) hrest
  rw [Lexes, List.append_nil, lexText, List.append_nil] at hlexes
  exact (lexAll_textParser readDouble .start _).trans hlexes

end Lexer

/-! ## Values of a text -/

section Parser
variable {y : Yajl} {γ : Type} (callback : UserCallback γ Exception)

/-- A run of the parser without a stop is a parse, whatever the blocks of the stream are. -/
theorem parseStream_of_yajlParse {p q : ParseState y γ} {stream : Bytes}
    (h : yajlParse y callback p stream = (q, none)) :
    parseStream y callback p stream = (q, .ok stream.length) := by
  have hblocks : runUntil (yajlParse y callback) p (readBlocks stream) = (q, none) := by
    rw [yajlParse, runUntil_flatten, flatten_readBlocks]
    exact h
  have hrun : runUntil (parseBlock y callback) p (readBlocks stream) = (q, none) :=
    runUntil_map_none (yajlParse y callback)
      (fun p block => Stop.exception (y.errorText (yajlParse y callback p block).1.state block))
      hblocks
  rw [parseStream, hrun]

variable {Between InsideMap Failed : y.State → Prop}

/-- Objects one after the other are kept, and the input may end behind them. -/
theorem feed_kept (hy : y.Documented Between InsideMap Failed) (hfinish : y.Finishes Between)
    (objects : List (List (Bytes × Doc))) {s : y.State} (hs : Between s) (values : List Value) :
    ∃ t, runUntil (feedToken y keepValue) (s, ⟨.callback, [], values⟩)
        ((objects.flatMap fun fields => (Doc.object fields).tokens).map some) =
          ((t, ⟨.callback, [], values ++ objects.map fun fields => (Doc.object fields).value⟩),
            none) ∧
      ((y.finish s).2 = true ∨ objects ≠ [] → (y.finish t).2 = true) := by
  induction objects generalizing s values with
  | nil =>
    refine ⟨s, ?_, fun h => h.resolve_right fun hne => hne rfl⟩
    rw [List.map_nil, List.append_nil]
    rfl
  | cons fields objects ih =>
    obtain ⟨mid, haccepts, hmid⟩ := hy.reports fields s hs
    have hfed : runUntil (feedToken y keepValue) (s, ⟨.callback, [], values⟩)
        ((Doc.object fields).tokens.map some) =
          ((mid, ⟨.callback, [], values ++ [(Doc.object fields).value]⟩), none) := by
      refine feed_of_accepts y keepValue haccepts ?_
      rw [handleAll_doc]
      rfl
    obtain ⟨t, hrest, ht⟩ := ih hmid (values ++ [(Doc.object fields).value])
    refine ⟨t, ?_, fun _ => ht (.inl (hfinish.object fields s mid hs haccepts))⟩
    rw [List.flatMap_cons, List.map_append, runUntil_append_none _ hfed, hrest, List.map_cons,
      List.append_assoc, List.singleton_append]

/-- The texts of documents, one behind the other, give their values. -/
theorem allFromString_texts (hy : y.Documented Between InsideMap Failed)
    (hfinish : y.Finishes Between) {stream : List (Bytes × List (Bytes × Doc))}
    (hsome : stream ≠ []) (hstream : ∀ e ∈ stream, y.IsText e.1 (.object e.2)) :
    allFromString y (stream.flatMap Prod.fst) =
      .ok (stream.map fun e => (Doc.object e.2).value) := by
  obtain ⟨t, hfed, ht⟩ := feed_kept hy hfinish (stream.map Prod.snd) hy.start []
  have hended : (y.finish t).2 = true := ht (.inr fun h => hsome (List.map_eq_nil_iff.mp h))
  obtain ⟨l, hparse, hl⟩ := yajlParse_eq_feed (ParseState.init y ([] : List Value))
    (y.lexAll_texts stream hstream) hfed
  obtain rfl := hl rfl
  have heof : notifyEOF y keepValue ⟨y.lexer, t, ⟨.callback, [],
      (stream.map Prod.snd).map fun fields => (Doc.object fields).value⟩⟩ =
        (⟨y.lexer, (y.finish t).1, ⟨.callback, [],
          (stream.map Prod.snd).map fun fields => (Doc.object fields).value⟩⟩, .ok ()) := by
    rw [notifyEOF, hy.flush]
    simp only [runUntil, hended, if_true]
  rw [allFromString, parseStream_of_yajlParse keepValue hparse]
  simp only [List.nil_append, heof]
  rw [List.map_map]
  rfl

/-- Of an empty text the end is premature. -/
theorem allFromString_nil (hy : y.Documented Between InsideMap Failed)
    (hfinish : y.Finishes Between) :
    allFromString y [] = .error (.text (y.errorText (y.finish y.state).1 [])) := by
  have hparse : yajlParse y keepValue (ParseState.init y ([] : List Value)) [] =
      (ParseState.init y [], none) := rfl
  have heof : notifyEOF y keepValue (ParseState.init y ([] : List Value)) =
      (⟨y.lexer, (y.finish y.state).1, JSONBuilder.init []⟩,
        .error (.text (y.errorText (y.finish y.state).1 []))) := by
    rw [ParseState.init, notifyEOF, hy.flush]
    simp only [runUntil, hfinish.empty, Bool.false_eq_true, if_false]
  rw [allFromString, parseStream_of_yajlParse keepValue hparse]
  simp only [heof]

theorem fromString_of_error {input : Bytes} {e : Exception} (h : allFromString y input = .error e) :
    fromString y input = .error e := by
  rw [fromString, h]

theorem fromString_of_allFromString {input : Bytes} {values : List Value}
    (h : allFromString y input = .ok values) :
    (∀ v, values = [v] → fromString y input = .ok (some v)) ∧
      (2 ≤ values.length → fromString y input = .error (.text
        (lit "Single value expected, " ++ digits values.length ++ lit " values seen"))) := by
  rw [fromString, h]
  constructor
  · rintro v rfl
    rfl
  · intro hlength
    cases values with
    | nil => simp at hlength
    | cons v values =>
      cases values with
      | nil => simp at hlength
      | cons w values => rfl

end Parser

/-! ## Values within values -/

/-- The value can be written within `level` arrays and objects. -/
structure EncodableAt (validUtf8 : Bytes → Bool) (toDouble : LongDouble → LongDouble) (level : ℕ)
    (v : Value) : Prop where
  strings : ∀ s ∈ v.strings, validUtf8 s = true
  numbers : ∀ x ∈ v.numbers,
    isEffectivelyInteger x = true ∨ x.isFinite = true ∧ toDouble x = x
  depth : v.depth + level < maxDepth

section Encodable
variable {validUtf8 : Bytes → Bool} {toDouble : LongDouble → LongDouble} {level : ℕ}

theorem encodable_of_at {v : Value} (h : EncodableAt validUtf8 toDouble 0 v) :
    Encodable validUtf8 toDouble v :=
  ⟨h.strings, h.numbers, h.depth⟩

theorem encodableAt_string {s : Bytes} (hs : validUtf8 s = true) (hlevel : level < maxDepth) :
    EncodableAt validUtf8 toDouble level (.string s) where
  strings t ht := by
    rw [List.mem_singleton.mp ht]
    exact hs
  numbers x hx := absurd hx List.not_mem_nil
  depth := by
    have hzero : (Value.string s).depth = 0 := rfl
    rw [hzero, Nat.zero_add]
    exact hlevel

theorem encodableAt_integer {n : ℤ} (hn : -2 ^ 63 ≤ n ∧ n ≤ 2 ^ 63 - 1)
    (hlevel : level < maxDepth) : EncodableAt validUtf8 toDouble level (.number (.finite n)) where
  strings s hs := absurd hs List.not_mem_nil
  numbers x hx := by
    rw [List.mem_singleton.mp hx, isEffectivelyInteger, Rat.den_intCast, Rat.num_intCast,
      Bool.and_eq_true, Bool.and_eq_true, decide_eq_true_eq, decide_eq_true_eq, decide_eq_true_eq]
    exact .inl ⟨⟨rfl, hn.1⟩, hn.2⟩
  depth := by
    have hzero : (Value.number (.finite n)).depth = 0 := rfl
    rw [hzero, Nat.zero_add]
    exact hlevel

theorem encodableAt_array {vs : List Value} (hlevel : level + 1 < maxDepth)
    (hvs : ∀ v ∈ vs, EncodableAt validUtf8 toDouble (level + 1) v) :
    EncodableAt validUtf8 toDouble level (.array vs) where
  strings s hs := by
    obtain ⟨v, hv, hs⟩ := mem_elementStrings.mp hs
    exact (hvs v hv).strings s hs
  numbers x hx := by
    obtain ⟨v, hv, hx⟩ := mem_elementNumbers.mp hx
    exact (hvs v hv).numbers x hx
  depth := by
    have hdepth : elementsDepth vs < maxDepth - (level + 1) := by
      refine (elementsDepth_lt (by omega)).mpr fun v hv => ?_
      have hv := (hvs v hv).depth
      omega
    rw [Value.depth]
    omega

theorem encodableAt_object {fs : Object} (hlevel : level + 1 < maxDepth)
    (hfs : ∀ f ∈ fs, validUtf8 f.1 = true ∧ EncodableAt validUtf8 toDouble (level + 1) f.2) :
    EncodableAt validUtf8 toDouble level (.object fs) where
  strings s hs := by
    obtain ⟨f, hf, rfl | hs⟩ := mem_fieldStrings.mp hs
    · exact (hfs f hf).1
    · exact (hfs f hf).2.strings s hs
  numbers x hx := by
    obtain ⟨f, hf, hx⟩ := mem_fieldNumbers.mp hx
    exact (hfs f hf).2.numbers x hx
  depth := by
    have hdepth : fieldsDepth fs < maxDepth - (level + 1) := by
      refine (fieldsDepth_lt (by omega)).mpr fun f hf => ?_
      have hf := (hfs f hf).2.depth
      omega
    rw [Value.depth]
    omega

end Encodable

/-! ## What is written is read -/

section Exchange
variable (g : YajlGen) (formatDouble : LongDouble → Bytes) (toDouble : LongDouble → LongDouble)

/-- The bytes that `ToString` returns. -/
def Value.toText (v : Value) : Except Exception Bytes :=
  (v.toString g toDouble).map (textOf formatDouble)

/-- The text of `ToString`, which never throws. -/
def Value.bytes (v : Value) : Bytes :=
  textOf formatDouble (g.buf (g.issue g.alloc (serialize toDouble v)))

theorem Value.toText_eq (v : Value) :
    v.toText g formatDouble toDouble = .ok (v.bytes g formatDouble toDouble) := rfl

variable {g formatDouble toDouble} {validUtf8 : Bytes → Bool} {y : Yajl}
  {Between InsideMap Failed : y.State → Prop}

theorem bytes_of_fits (hg : g.Documented validUtf8) {v : Value}
    (hv : Fits validUtf8 toDouble 1 v) :
    v.bytes g formatDouble toDouble = compactText formatDouble toDouble v :=
  congrArg (textOf formatDouble) (Except.ok.inj (toString_of_fits toDouble hg hv))

theorem bytes_of_encodable (hg : g.Documented validUtf8) {v : Value}
    (hv : Encodable validUtf8 toDouble v) :
    v.bytes g formatDouble toDouble = compactText formatDouble toDouble v :=
  bytes_of_fits hg hv.fits

/-- The parser reads the text of every encodable object as the tokens of its document. -/
def ReadsTexts (y : Yajl) (validUtf8 : Bytes → Bool) (formatDouble : LongDouble → Bytes)
    (toDouble : LongDouble → LongDouble) : Prop :=
  ∀ fs : Object, Encodable validUtf8 toDouble (.object fs) →
    y.IsText (compactText formatDouble toDouble (.object fs)) ((Value.object fs).doc toDouble)

/-- One object is what `FromString` returns. -/
theorem fromString_bytes (hg : g.Documented validUtf8) (hy : y.Documented Between InsideMap Failed)
    (hfinish : y.Finishes Between) (hreads : ReadsTexts y validUtf8 formatDouble toDouble)
    {fs : Object} (hordered : (Value.object fs).Ordered)
    (hfs : Encodable validUtf8 toDouble (.object fs)) :
    fromString y ((Value.object fs).bytes g formatDouble toDouble) = .ok (some (.object fs)) := by
  have hstream : ∀ e ∈ [(compactText formatDouble toDouble (.object fs), fieldDocs toDouble fs)],
      y.IsText e.1 (.object e.2) := by
    intro e he
    rw [List.mem_singleton.mp he]
    exact hreads fs hfs
  have hall := allFromString_texts hy hfinish (List.cons_ne_nil _ _) hstream
  have hvalue : (Doc.object (fieldDocs toDouble fs)).value = .object fs :=
    value_doc toDouble (.object fs) hordered fun x hx => (hfs.numbers x hx).imp id And.right
  rw [List.flatMap_singleton, List.map_singleton, hvalue] at hall
  rw [bytes_of_encodable hg hfs]
  exact (fromString_of_allFromString hall).1 _ rfl

end Exchange

/-- `1.5` and nothing else is written with a point. -/
def formatHalf (_ : LongDouble) : Bytes := lit "1.5"

def toHalf (_ : LongDouble) : LongDouble := .finite (3 / 2)

theorem readsTexts_textParser :
    ReadsTexts (textParser fun _ => some (.finite (3 / 2))) validateUtf8 formatHalf toHalf := by
  intro fs hfs
  refine isText_textParser ?_ fs hfs.numbers
  rintro x - hx -
  have hformat : formatHalf x = lit "1.5" := rfl
  rw [hformat, ← hx]
  exact ⟨by decide, by decide +kernel, rfl⟩

/-- An object with a string of special characters, a number and a list. -/
def exchanged : Object :=
  [(lit "a", .string [0x22, 0x0a, 0x01, 0xc3, 0xa9]), (lit "b", .array [.number (.finite (-7)),
    .number (.finite (3 / 2)), .null, .object []])]

end MetadataAgent.Json
