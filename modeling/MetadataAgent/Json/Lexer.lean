import MetadataAgent.Json.Text
import MetadataAgent.Json.Pushdown

/-! # Reading the text of the generator

The lexer of `yajl` on what its generator writes: strings with their escapes, the words, integers
and floating numbers, and the structural characters. `readDouble` reads a floating number. The
tokens of a text that was written for a value are those of the document of the value. -/
namespace MetadataAgent.Json
open Lib
set_option autoImplicit false

/-! ## Atoms -/

def isDecimal (b : UInt8) : Bool := decide (0x30 ≤ b) && decide (b ≤ 0x39)

def readDigits (bytes : Bytes) : ℕ := bytes.foldl (fun n b => 10 * n + (b.toNat - 0x30)) 0

def readInteger : Bytes → Option ℤ
  | [] => none
  | b :: bytes =>
    if b = 0x2d then
      if bytes.all isDecimal && !bytes.isEmpty then some (-(readDigits bytes : ℤ)) else none
    else if (b :: bytes).all isDecimal then some (readDigits (b :: bytes))
    else none

/-- A byte of a word or a number. -/
def isAtomByte (b : UInt8) : Bool :=
  isDecimal b || decide (0x61 ≤ b) && decide (b ≤ 0x7a) || decide (0x41 ≤ b) && decide (b ≤ 0x5a) ||
    decide (b = 0x2d) || decide (b = 0x2b) || decide (b = 0x2e)

section Lexer
variable (readDouble : Bytes → Option LongDouble)

def readAtom (bytes : Bytes) : Option Token :=
  if bytes = lit "null" then some .null
  else if bytes = lit "true" then some (.boolean true)
  else if bytes = lit "false" then some (.boolean false)
  else
    match readInteger bytes with
    | some n => some (.integer n)
    | none => (readDouble bytes).map .double

/-! ## Bytes -/

/-- What the lexer has read of a token that is not complete. -/
inductive Pending where
  | start
  | string (bytes : Bytes)
  | escape (bytes : Bytes)
  | code (bytes digits : Bytes)
  | atom (bytes : Bytes)
  deriving DecidableEq

def unescape (b : UInt8) : Option UInt8 :=
  if b = 0x72 then some 0x0d
  else if b = 0x6e then some 0x0a
  else if b = 0x5c then some 0x5c
  else if b = 0x22 then some 0x22
  else if b = 0x66 then some 0x0c
  else if b = 0x62 then some 0x08
  else if b = 0x74 then some 0x09
  else if b = 0x2f then some 0x2f
  else none

def hexValue (b : UInt8) : Option ℕ :=
  if isDecimal b then some (b.toNat - 0x30)
  else if 0x41 ≤ b ∧ b ≤ 0x46 then some (b.toNat - 0x37)
  else if 0x61 ≤ b ∧ b ≤ 0x66 then some (b.toNat - 0x57)
  else none

/-- A code point below 128. -/
def readCode (digits : Bytes) : Option UInt8 :=
  match digits.mapM hexValue with
  | some values =>
    let code := values.foldl (fun n d => 16 * n + d) 0
    if code < 0x80 then some code.toUInt8 else none
  | none => none

def lexStart (byte : UInt8) : Pending × List (Option Token) :=
  if byte = 0x22 then (.string [], [])
  else if byte = 0x7b then (.start, [some .leftBrace])
  else if byte = 0x7d then (.start, [some .rightBrace])
  else if byte = 0x5b then (.start, [some .leftBracket])
  else if byte = 0x5d then (.start, [some .rightBracket])
  else if byte = 0x2c then (.start, [some .comma])
  else if byte = 0x3a then (.start, [some .colon])
  else if byte = 0x20 ∨ byte = 0x09 ∨ byte = 0x0a ∨ byte = 0x0d then (.start, [])
  else if isAtomByte byte then (.atom [byte], [])
  else (.start, [none])

def lexString (bytes : Bytes) (byte : UInt8) : Pending × List (Option Token) :=
  if byte = 0x22 then (.start, [some (.string bytes)])
  else if byte = 0x5c then (.escape bytes, [])
  else if byte < 0x20 then (.start, [none])
  else (.string (bytes ++ [byte]), [])

def lexEscape (bytes : Bytes) (byte : UInt8) : Pending × List (Option Token) :=
  if byte = 0x75 then (.code bytes [], [])
  else
    match unescape byte with
    | some b => (.string (bytes ++ [b]), [])
    | none => (.start, [none])

def lexCode (bytes digits : Bytes) (byte : UInt8) : Pending × List (Option Token) :=
  if digits.length < 3 then (.code bytes (digits ++ [byte]), [])
  else
    match readCode (digits ++ [byte]) with
    | some b => (.string (bytes ++ [b]), [])
    | none => (.start, [none])

def lexPending (pending : Pending) (byte : UInt8) : Pending × List (Option Token) :=
  match pending with
  | .start => lexStart byte
  | .string bytes => lexString bytes byte
  | .escape bytes => lexEscape bytes byte
  | .code bytes digits => lexCode bytes digits byte
  | .atom bytes =>
    if isAtomByte byte then (.atom (bytes ++ [byte]), [])
    else ((lexStart byte).1, readAtom readDouble bytes :: (lexStart byte).2)

/-- The pushdown parser, with this lexer. -/
def textParser : Yajl where
  Lexer := Pending
  State := Option (List Level)
  lexer := .start
  lex := lexPending readDouble
  flush
    | .start => []
    | .atom bytes => [readAtom readDouble bytes]
    | _ => [none]
  state := some [.start]
  react := reactState
  cancelled _ := none
  finish := finishStack
  errorText _ _ := lit "parse error"

theorem accepts_textParser (s : Option (List Level)) (toks : List Token) :
    (textParser readDouble).accepts s toks = pushdown.accepts s toks := by
  induction toks generalizing s with
  | nil => rfl
  | cons tok toks ih =>
    rcases hreact : pushdown.react s (some tok) with next | ⟨event, during, after⟩ | next
    · have hsilent : (textParser readDouble).react s (some tok) = .silent next := hreact
      exact ((textParser readDouble).accepts_cons_silent toks hsilent).trans
        ((ih next).trans (pushdown.accepts_cons_silent toks hreact).symm)
    · have hcall : (textParser readDouble).react s (some tok) = .call event during after := hreact
      exact ((textParser readDouble).accepts_cons_call toks hcall).trans
        ((congrArg (Option.map _) (ih after)).trans
          (pushdown.accepts_cons_call toks hreact).symm)
    · have hreject : (textParser readDouble).react s (some tok) = .reject next := hreact
      exact ((textParser readDouble).accepts_cons_reject toks hreject).trans
        (pushdown.accepts_cons_reject toks hreact).symm

theorem textParser_documented :
    (textParser readDouble).Documented BetweenValues InMap (fun s => s = none) where
  start := .inl rfl
  reports := by
    intro fields s hs
    obtain ⟨t, ht, hbetween⟩ := pushdown_documented.reports fields s hs
    exact ⟨t, (accepts_textParser readDouble s _).trans ht, hbetween⟩
  endMap := pushdown_documented.endMap
  insideMap := pushdown_documented.insideMap
  failed := pushdown_documented.failed
  cancelled _ := rfl
  flush := rfl

theorem textParser_finishes : (textParser readDouble).Finishes BetweenValues where
  object := by
    intro fields s t hs h
    exact finishStack_after_object hs ((accepts_textParser readDouble s _).symm.trans h)
  empty := rfl

end Lexer

/-! ## Integers -/

theorem toNat_of_isDigit {c : Char} (hc : c.isDigit = true) :
    c.toNat.toUInt8.toNat = c.toNat ∧ 0x30 ≤ c.toNat ∧ c.toNat ≤ 0x39 := by
  have hbounds : 48 ≤ c.toNat ∧ c.toNat ≤ 57 := by
    rw [Char.isDigit, Bool.and_eq_true, decide_eq_true_eq, decide_eq_true_eq] at hc
    exact ⟨UInt32.le_iff_toNat_le.mp hc.1, UInt32.le_iff_toNat_le.mp hc.2⟩
  refine ⟨?_, hbounds.1, hbounds.2⟩
  rw [Nat.toUInt8_eq, UInt8.toNat_ofNat']
  omega

theorem isDecimal_digits {n : ℕ} {b : UInt8} (hb : b ∈ digits n) : isDecimal b = true := by
  obtain ⟨c, hc, rfl⟩ := List.mem_map.mp hb
  obtain ⟨hnat, hlow, hhigh⟩ :=
    toNat_of_isDigit (Nat.isDigit_of_mem_toDigits (by decide) (by decide) hc)
  rw [isDecimal, Bool.and_eq_true, decide_eq_true_eq, decide_eq_true_eq, UInt8.le_iff_toNat_le,
    UInt8.le_iff_toNat_le, hnat]
  exact ⟨hlow, hhigh⟩

theorem digits_ne_nil (n : ℕ) : digits n ≠ [] := by
  rw [digits, Ne, List.map_eq_nil_iff]
  exact Nat.toDigits_ne_nil

theorem readDigits_digits (n : ℕ) : readDigits (digits n) = n := by
  have hfold : readDigits (digits n) = Nat.ofDigitChars 10 (Nat.toDigits 10 n) 0 := by
    rw [readDigits, digits, List.foldl_map, Nat.ofDigitChars_eq_foldl]
    refine List.foldl_ext _ _ 0 fun m c hc => ?_
    obtain ⟨hnat, -, -⟩ :=
      toNat_of_isDigit (Nat.isDigit_of_mem_toDigits (by decide) (by decide) hc)
    rw [hnat]
    rfl
  rw [hfold, Nat.ofDigitChars_ten_toDigits]

theorem all_isDecimal_digits (n : ℕ) : (digits n).all isDecimal = true := by
  rw [List.all_eq_true]
  exact fun b hb => isDecimal_digits hb

theorem readInteger_decimal (n : ℤ) : readInteger (decimal n) = some n := by
  cases n with
  | ofNat n =>
    cases hdigits : digits n with
    | nil => exact absurd hdigits (digits_ne_nil n)
    | cons b bytes =>
      have hb : isDecimal b = true := by
        refine isDecimal_digits (n := n) ?_
        rw [hdigits]
        exact List.mem_cons_self
      have hminus : b ≠ 0x2d := by
        rintro rfl
        cases hb
      rw [decimal, hdigits, readInteger, if_neg hminus, ← hdigits, all_isDecimal_digits,
        readDigits_digits, if_pos rfl]
      rfl
  | negSucc n =>
    have htext : decimal (.negSucc n) = 0x2d :: digits (n + 1) := rfl
    have hsome : (digits (n + 1)).isEmpty = false := by
      rw [List.isEmpty_eq_false_iff]
      exact digits_ne_nil (n + 1)
    rw [htext, readInteger, if_pos rfl, all_isDecimal_digits, hsome, readDigits_digits]
    rfl

theorem isAtomByte_decimal {n : ℤ} {b : UInt8} (hb : b ∈ decimal n) : isAtomByte b = true := by
  have hdigit : ∀ {m : ℕ}, b ∈ digits m → isAtomByte b = true := by
    intro m hm
    rw [isAtomByte, isDecimal_digits hm]
    rfl
  cases n with
  | ofNat n => exact hdigit hb
  | negSucc n =>
    rcases List.mem_cons.mp hb with rfl | hb
    · rfl
    · exact hdigit hb

theorem readAtom_decimal (readDouble : Bytes → Option LongDouble) (n : ℤ) :
    readAtom readDouble (decimal n) = some (.integer n) := by
  have hword : ∀ word : Bytes, readInteger word = none → decimal n ≠ word := by
    rintro word hword rfl
    rw [readInteger_decimal] at hword
    cases hword
  rw [readAtom, if_neg (hword _ rfl), if_neg (hword _ rfl), if_neg (hword _ rfl),
    readInteger_decimal]

/-! ## Strings -/

section Reading
variable (readDouble : Bytes → Option LongDouble)

/-- The lexer on a text. -/
def lexText (pending : Pending) : Bytes → Pending × List (Option Token)
  | [] => (pending, [])
  | byte :: bytes =>
    let lexed := lexPending readDouble pending byte
    ((lexText lexed.1 bytes).1, lexed.2 ++ (lexText lexed.1 bytes).2)

theorem lexAll_textParser (pending : Pending) (bytes : Bytes) :
    (textParser readDouble).lexAll pending bytes = lexText readDouble pending bytes := by
  induction bytes generalizing pending with
  | nil => rfl
  | cons byte bytes ih =>
    exact congrArg (fun r => (r.1, (lexPending readDouble pending byte).2 ++ r.2))
      (ih (lexPending readDouble pending byte).1)

theorem lexText_cons_silent {pending next : Pending} {byte : UInt8}
    (h : lexPending readDouble pending byte = (next, [])) (bytes : Bytes) :
    lexText readDouble pending (byte :: bytes) = lexText readDouble next bytes := by
  rw [lexText, h]
  rfl

theorem lexText_cons_token {pending next : Pending} {byte : UInt8} {tok : Option Token}
    (h : lexPending readDouble pending byte = (next, [tok])) (bytes : Bytes) :
    lexText readDouble pending (byte :: bytes) =
      ((lexText readDouble next bytes).1, tok :: (lexText readDouble next bytes).2) := by
  rw [lexText, h]
  rfl

theorem readCode_control {b : UInt8} (hb : b < 0x20) :
    readCode [0x30, 0x30, hexDigit (b >>> 4), hexDigit (b &&& 0xf)] = some b := by
  have hall : ∀ n < 32, readCode [0x30, 0x30, hexDigit (UInt8.ofNat n >>> 4),
      hexDigit (UInt8.ofNat n &&& 0xf)] = some (UInt8.ofNat n) := by decide +kernel
  have h := hall b.toNat (UInt8.lt_iff_toNat_lt.mp hb)
  rwa [UInt8.ofNat_toNat] at h

theorem lexText_escape {letter b : UInt8} (hletter : letter ≠ 0x75)
    (hb : unescape letter = some b) (bytes rest : Bytes) :
    lexText readDouble (.string bytes) (0x5c :: letter :: rest) =
      lexText readDouble (.string (bytes ++ [b])) rest := by
  have hbackslash : lexPending readDouble (.string bytes) 0x5c = (.escape bytes, []) := rfl
  have hescape : lexPending readDouble (.escape bytes) letter = (.string (bytes ++ [b]), []) := by
    rw [lexPending, lexEscape, if_neg hletter, hb]
  rw [lexText_cons_silent readDouble hbackslash, lexText_cons_silent readDouble hescape]

theorem lexText_control {b : UInt8} (hb : b < 0x20) (bytes rest : Bytes) :
    lexText readDouble (.string bytes)
        (lit "\\u00" ++ [hexDigit (b >>> 4), hexDigit (b &&& 0xf)] ++ rest) =
      lexText readDouble (.string (bytes ++ [b])) rest := by
  have htext : lit "\\u00" ++ [hexDigit (b >>> 4), hexDigit (b &&& 0xf)] ++ rest =
      0x5c :: 0x75 :: 0x30 :: 0x30 :: hexDigit (b >>> 4) :: hexDigit (b &&& 0xf) :: rest := rfl
  have hbackslash : lexPending readDouble (.string bytes) 0x5c = (.escape bytes, []) := rfl
  have hu : lexPending readDouble (.escape bytes) 0x75 = (.code bytes [], []) := rfl
  have hfirst : lexPending readDouble (.code bytes []) 0x30 = (.code bytes [0x30], []) := rfl
  have hsecond : lexPending readDouble (.code bytes [0x30]) 0x30 =
      (.code bytes [0x30, 0x30], []) := rfl
  have hthird : lexPending readDouble (.code bytes [0x30, 0x30]) (hexDigit (b >>> 4)) =
      (.code bytes [0x30, 0x30, hexDigit (b >>> 4)], []) := rfl
  have hcode : lexPending readDouble (.code bytes [0x30, 0x30, hexDigit (b >>> 4)])
      (hexDigit (b &&& 0xf)) = (.string (bytes ++ [b]), []) := by
    have hread := readCode_control hb
    have hfull : ¬[0x30, 0x30, hexDigit (b >>> 4)].length < 3 := Nat.lt_irrefl 3
    rw [lexPending, lexCode, if_neg hfull]
    simp only [List.cons_append, List.nil_append, hread]
  rw [htext, lexText_cons_silent readDouble hbackslash, lexText_cons_silent readDouble hu,
    lexText_cons_silent readDouble hfirst, lexText_cons_silent readDouble hsecond,
    lexText_cons_silent readDouble hthird, lexText_cons_silent readDouble hcode]

theorem lexText_escapeByte (b : UInt8) (bytes rest : Bytes) :
    lexText readDouble (.string bytes) (escapeByte b ++ rest) =
      lexText readDouble (.string (bytes ++ [b])) rest := by
  unfold escapeByte
  split
  · next h => exact h ▸ lexText_escape readDouble (by decide) rfl bytes rest
  split
  · next h => exact h ▸ lexText_escape readDouble (by decide) rfl bytes rest
  split
  · next h => exact h ▸ lexText_escape readDouble (by decide) rfl bytes rest
  split
  · next h => exact h ▸ lexText_escape readDouble (by decide) rfl bytes rest
  split
  · next h => exact h ▸ lexText_escape readDouble (by decide) rfl bytes rest
  split
  · next h => exact h ▸ lexText_escape readDouble (by decide) rfl bytes rest
  split
  · next h => exact h ▸ lexText_escape readDouble (by decide) rfl bytes rest
  split
  · next h => exact lexText_control readDouble h bytes rest
  · next hbackslash hquote _ _ _ hcontrol =>
    have hplain : lexPending readDouble (.string bytes) b = (.string (bytes ++ [b]), []) := by
      rw [lexPending, lexString, if_neg hquote, if_neg hbackslash, if_neg hcontrol]
    exact lexText_cons_silent readDouble hplain rest

theorem lexText_string (s bytes rest : Bytes) :
    lexText readDouble (.string bytes) (s.flatMap escapeByte ++ 0x22 :: rest) =
      ((lexText readDouble .start rest).1,
        some (.string (bytes ++ s)) :: (lexText readDouble .start rest).2) := by
  induction s generalizing bytes with
  | nil =>
    have hquote : lexPending readDouble (.string bytes) 0x22 = (.start, [some (.string bytes)]) :=
      rfl
    rw [List.append_nil, List.flatMap_nil, List.nil_append, lexText_cons_token readDouble hquote]
  | cons b s ih =>
    rw [List.flatMap_cons, List.append_assoc, lexText_escapeByte, ih, List.append_assoc,
      List.singleton_append]

/-! ## Values -/

/-- In front of `rest` the bytes are read as the tokens. -/
def Lexes (bytes : Bytes) (toks : List Token) (rest : Bytes) : Prop :=
  lexText readDouble .start (bytes ++ rest) =
    ((lexText readDouble .start rest).1,
      toks.map some ++ (lexText readDouble .start rest).2)

/-- What comes next ends a word or a number. -/
def Delimits : Bytes → Prop
  | [] => False
  | mark :: _ => isAtomByte mark = false

variable {readDouble}

theorem Lexes.nil (rest : Bytes) : Lexes readDouble [] [] rest := rfl

theorem Lexes.append {as bs rest : Bytes} {s t : List Token}
    (h : Lexes readDouble as s (bs ++ rest)) (h' : Lexes readDouble bs t rest) :
    Lexes readDouble (as ++ bs) (s ++ t) rest := by
  unfold Lexes at *
  rw [List.append_assoc, h, h', List.map_append, List.append_assoc]

theorem Lexes.single {byte : UInt8} {tok : Token} (h : lexStart byte = (.start, [some tok]))
    (rest : Bytes) : Lexes readDouble [byte] [tok] rest := by
  have hpending : lexPending readDouble .start byte = (.start, [some tok]) := h
  exact lexText_cons_token readDouble hpending rest

theorem Lexes.string (s rest : Bytes) : Lexes readDouble (quote s) [.string s] rest := by
  have hquote : lexPending readDouble .start 0x22 = (.string [], []) := rfl
  have htext : quote s ++ rest = 0x22 :: (s.flatMap escapeByte ++ 0x22 :: rest) := by
    rw [quote, List.cons_append, List.append_assoc, List.singleton_append]
  rw [Lexes, htext, lexText_cons_silent readDouble hquote, lexText_string]
  rfl

theorem lexStart_atom {b : UInt8} (hb : isAtomByte b = true) : lexStart b = (.atom [b], []) := by
  have hne : ∀ c : UInt8, isAtomByte c = false → b ≠ c := by
    rintro c hc rfl
    rw [hb] at hc
    cases hc
  have hblank : ¬(b = 0x20 ∨ b = 0x09 ∨ b = 0x0a ∨ b = 0x0d) := by
    rintro (h | h | h | h)
    · exact hne _ rfl h
    · exact hne _ rfl h
    · exact hne _ rfl h
    · exact hne _ rfl h
  rw [lexStart, if_neg (hne _ rfl), if_neg (hne _ rfl), if_neg (hne _ rfl), if_neg (hne _ rfl),
    if_neg (hne _ rfl), if_neg (hne _ rfl), if_neg (hne _ rfl), if_neg hblank, if_pos hb]

theorem lexText_atom {bytes : Bytes} (hbytes : ∀ b ∈ bytes, isAtomByte b = true)
    (acc : Bytes) {rest : Bytes} (hrest : Delimits rest) :
    lexText readDouble (.atom acc) (bytes ++ rest) =
      ((lexText readDouble .start rest).1,
        readAtom readDouble (acc ++ bytes) :: (lexText readDouble .start rest).2) := by
  induction bytes generalizing acc with
  | nil =>
    cases rest with
    | nil => cases hrest
    | cons mark rest =>
      have hmark : lexPending readDouble (.atom acc) mark =
          ((lexStart mark).1, readAtom readDouble acc :: (lexStart mark).2) := by
        have hnot : ¬isAtomByte mark = true := by
          rw [show isAtomByte mark = false from hrest]
          exact Bool.false_ne_true
        rw [lexPending, if_neg hnot]
      rw [List.append_nil, List.nil_append, lexText, hmark, lexText]
      rfl
  | cons b bytes ih =>
    have hb : lexPending readDouble (.atom acc) b = (.atom (acc ++ [b]), []) := by
      rw [lexPending, if_pos (hbytes b List.mem_cons_self)]
    rw [List.cons_append, lexText_cons_silent readDouble hb,
      ih (fun c hc => hbytes c (List.mem_cons_of_mem b hc)), List.append_assoc,
      List.singleton_append]

theorem Lexes.atom {bytes : Bytes} {tok : Token} (hsome : bytes ≠ [])
    (hbytes : ∀ b ∈ bytes, isAtomByte b = true) (hread : readAtom readDouble bytes = some tok)
    {rest : Bytes} (hrest : Delimits rest) : Lexes readDouble bytes [tok] rest := by
  cases bytes with
  | nil => exact absurd rfl hsome
  | cons b bytes =>
    have hb : lexPending readDouble .start b = (.atom [b], []) :=
      lexStart_atom (hbytes b List.mem_cons_self)
    rw [Lexes, List.cons_append, lexText_cons_silent readDouble hb,
      lexText_atom (fun c hc => hbytes c (List.mem_cons_of_mem b hc)) [b] hrest,
      List.singleton_append, hread]
    rfl

/-- Items with a comma between two of them. -/
theorem Lexes.items {α : Type} {text : α → Bytes} {toks : α → List Token} {items : List α}
    (h : ∀ a ∈ items, ∀ rest, Delimits rest → Lexes readDouble (text a) (toks a) rest)
    {rest : Bytes} (hrest : Delimits rest) :
    Lexes readDouble ([0x2c].intercalate (items.map text))
      ([Token.comma].intercalate (items.map toks)) rest := by
  have htail : ∀ as : List α, (∀ a ∈ as, a ∈ items) →
      Lexes readDouble (as.flatMap fun a => 0x2c :: text a)
        (as.flatMap fun a => .comma :: toks a) rest ∧
      Delimits ((as.flatMap fun a => 0x2c :: text a) ++ rest) := by
    intro as has
    induction as with
    | nil => exact ⟨Lexes.nil rest, hrest⟩
    | cons a as ih =>
      obtain ⟨hlexes, hdelimits⟩ := ih fun b hb => has b (List.mem_cons_of_mem a hb)
      refine ⟨?_, rfl⟩
      have hcomma : Lexes readDouble [0x2c] [.comma]
          (text a ++ ((as.flatMap fun a => 0x2c :: text a) ++ rest)) := Lexes.single rfl _
      have ha := h a (has a List.mem_cons_self) _ hdelimits
      have hhead : Lexes readDouble ([0x2c] ++ text a) ([.comma] ++ toks a)
          ((as.flatMap fun a => 0x2c :: text a) ++ rest) := hcomma.append ha
      exact hhead.append hlexes
  cases items with
  | nil => exact Lexes.nil rest
  | cons a items =>
    obtain ⟨hlexes, hdelimits⟩ := htail items fun b hb => List.mem_cons_of_mem a hb
    rw [List.map_cons, List.map_cons, intercalate_cons, intercalate_cons, List.flatMap_map,
      List.flatMap_map]
    exact (h a List.mem_cons_self _ hdelimits).append hlexes

end Reading

end MetadataAgent.Json
