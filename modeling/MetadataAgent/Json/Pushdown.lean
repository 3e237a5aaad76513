import MetadataAgent.Json.Parser

/-! # A pushdown parser

The states of yajl's parser are a stack with a level for every open array or map, above one for the
whole text. This one has the same levels and the same transitions; its lexer knows strings without
escapes, the structural characters and white space. It does what the documentation of yajl says. -/
namespace MetadataAgent.Json
open Lib
set_option autoImplicit false

/-! ## Levels -/

/-- `yajl_state` of an open array or map, and of the text before and after its first value. -/
inductive Level where
  | start | parseComplete
  | mapStart | mapSep | mapNeedVal | mapGotVal | mapNeedKey
  | arrayStart | arrayGotVal | arrayNeedVal
  deriving DecidableEq

/-- The stack once a value has been read, or has been started. -/
def gotValue : List Level → List Level
  | .start :: stack => .parseComplete :: stack
  | .mapNeedVal :: stack => .mapGotVal :: stack
  | .arrayStart :: stack => .arrayGotVal :: stack
  | .arrayNeedVal :: stack => .arrayGotVal :: stack
  | stack => stack

def reactKey (stack : List Level) (tok : Token) : Reaction (Option (List Level)) :=
  match tok with
  | .string key => .call (.mapKey key) (some stack) (some (.mapSep :: stack.tail))
  | _ => .reject none

def reactValue (stack : List Level) (tok : Token) : Reaction (Option (List Level)) :=
  match tok with
  | .null => .call .null (some stack) (some (gotValue stack))
  | .boolean b => .call (.boolean b) (some stack) (some (gotValue stack))
  | .integer n => .call (.integer n) (some stack) (some (gotValue stack))
  | .double d => .call (.double d) (some stack) (some (gotValue stack))
  | .string s => .call (.string s) (some stack) (some (gotValue stack))
  | .leftBrace => .call .startMap (some stack) (some (.mapStart :: gotValue stack))
  | .leftBracket => .call .startArray (some stack) (some (.arrayStart :: gotValue stack))
  | .rightBrace => .reject none
  | .rightBracket => .reject none
  | .comma => .reject none
  | .colon => .reject none

/-- One token on a stack; the stack is still as it was when a callback runs. -/
def reactStack (stack : List Level) (tok : Token) : Reaction (Option (List Level)) :=
  match stack with
  | .mapStart :: rest =>
    if tok = .rightBrace then .call .endMap (some stack) (some rest) else reactKey stack tok
  | .mapNeedKey :: _ => reactKey stack tok
  | .mapSep :: rest => if tok = .colon then .silent (some (.mapNeedVal :: rest)) else .reject none
  | .mapGotVal :: rest =>
    if tok = .comma then .silent (some (.mapNeedKey :: rest))
    else if tok = .rightBrace then .call .endMap (some stack) (some rest)
    else .reject none
  | .arrayStart :: rest =>
    if tok = .rightBracket then .call .endArray (some stack) (some rest) else reactValue stack tok
  | .arrayGotVal :: rest =>
    if tok = .comma then .silent (some (.arrayNeedVal :: rest))
    else if tok = .rightBracket then .call .endArray (some stack) (some rest)
    else .reject none
  | .arrayNeedVal :: _ => reactValue stack tok
  | .mapNeedVal :: _ => reactValue stack tok
  | .start :: _ => reactValue stack tok
  | .parseComplete :: _ => reactValue stack tok
  | [] => .reject none

/-- `none` is `yajl_state_parse_error`. -/
def reactState : Option (List Level) → Option Token → Reaction (Option (List Level))
  | some stack, some tok => reactStack stack tok
  | some _, none => .reject none
  | none, _ => .reject none

/-! ## Characters -/

def lexByte (pending : Option Bytes) (byte : UInt8) : Option Bytes × List (Option Token) :=
  match pending with
  | some bytes =>
    if byte = 0x22 then (none, [some (.string bytes)])
    else if byte = 0x5c ∨ byte < 0x20 then (none, [none])
    else (some (bytes ++ [byte]), [])
  | none =>
    if byte = 0x22 then (some [], [])
    else if byte = 0x7b then (none, [some .leftBrace])
    else if byte = 0x7d then (none, [some .rightBrace])
    else if byte = 0x5b then (none, [some .leftBracket])
    else if byte = 0x5d then (none, [some .rightBracket])
    else if byte = 0x2c then (none, [some .comma])
    else if byte = 0x3a then (none, [some .colon])
    else if byte = 0x20 ∨ byte = 0x09 ∨ byte = 0x0a ∨ byte = 0x0d then (none, [])
    else (none, [none])

/-- `yajl_complete_parse`: a text without a value ends too early. -/
def finishStack (state : Option (List Level)) : Option (List Level) × Bool :=
  if state = some [.parseComplete] then (state, true) else (none, false)

def pushdown : Yajl where
  Lexer := Option Bytes
  State := Option (List Level)
  lexer := none
  lex := lexByte
  flush pending := if pending = none then [] else [none]
  state := some [.start]
  react := reactState
  cancelled _ := none
  finish := finishStack
  errorText _ _ := lit "parse error"

/-! ## What it reports -/

def TakesValue : List Level → Prop
  | .start :: _ => True
  | .parseComplete :: _ => True
  | .mapNeedVal :: _ => True
  | .arrayStart :: _ => True
  | .arrayNeedVal :: _ => True
  | _ => False

/-- From the stack, the tokens report the events and lead to the other stack, with more tokens
to come. -/
def Reports (stack : List Level) (toks : List Token) (es : List Event) (stack' : List Level) :
    Prop :=
  ∀ rest, pushdown.accepts (some stack) (toks ++ rest) =
    (pushdown.accepts (some stack') rest).map fun r => (es ++ r.1, r.2)

theorem Reports.nil (stack : List Level) : Reports stack [] [] stack := by
  intro rest
  simp

theorem Reports.trans {s t u : List Level} {xs ys : List Token} {es fs : List Event}
    (h : Reports s xs es t) (h' : Reports t ys fs u) : Reports s (xs ++ ys) (es ++ fs) u := by
  intro rest
  rw [List.append_assoc, h, h', Option.map_map]
  congr 1
  funext r
  simp

theorem Reports.silent {s t : List Level} {tok : Token}
    (h : reactStack s tok = .silent (some t)) : Reports s [tok] [] t := by
  intro rest
  have hreact : pushdown.react (some s) (some tok) = .silent (some t) := h
  rw [List.singleton_append, pushdown.accepts_cons_silent rest hreact]
  simp

theorem Reports.call {s t : List Level} {tok : Token} {e : Event} {during : Option (List Level)}
    (h : reactStack s tok = .call e during (some t)) : Reports s [tok] [e] t := by
  intro rest
  have hreact : pushdown.react (some s) (some tok) = .call e during (some t) := h
  rw [List.singleton_append, pushdown.accepts_cons_call rest hreact]
  rfl

theorem reactStack_value {stack : List Level} (hstack : TakesValue stack) {tok : Token}
    (htok : tok ≠ .rightBracket) : reactStack stack tok = reactValue stack tok := by
  cases stack with
  | nil => cases hstack
  | cons level stack =>
    cases level with
    | start => rfl
    | parseComplete => rfl
    | mapNeedVal => rfl
    | arrayStart => rw [reactStack, if_neg htok]
    | arrayNeedVal => rfl
    | _ => cases hstack

theorem Reports.value {stack t : List Level} (hstack : TakesValue stack) {tok : Token} {e : Event}
    (htok : tok ≠ .rightBracket) (h : reactValue stack tok = .call e (some stack) (some t)) :
    Reports stack [tok] [e] t := by
  rw [← reactStack_value hstack htok] at h
  exact Reports.call h

theorem reports_elements (ds : List Doc)
    (ih : ∀ d ∈ ds, ∀ stack, TakesValue stack → Reports stack d.tokens d.events (gotValue stack))
    (stack : List Level) :
    Reports (.arrayGotVal :: stack) ((ds.flatMap fun d => .comma :: d.tokens) ++ [.rightBracket])
      (ds.flatMap Doc.events ++ [.endArray]) stack := by
  induction ds with
  | nil => exact Reports.call rfl
  | cons d ds ihds =>
    have hcomma : Reports (.arrayGotVal :: stack) [.comma] [] (.arrayNeedVal :: stack) :=
      Reports.silent rfl
    have hd : Reports (.arrayNeedVal :: stack) d.tokens d.events (.arrayGotVal :: stack) :=
      ih d List.mem_cons_self _ trivial
    have hds := ihds fun e he => ih e (List.mem_cons_of_mem _ he)
    have h := (hcomma.trans hd).trans hds
    simpa using h

theorem reports_fields (fs : List (Bytes × Doc))
    (ih : ∀ f ∈ fs, ∀ stack, TakesValue stack →
      Reports stack f.2.tokens f.2.events (gotValue stack)) (stack : List Level) :
    Reports (.mapGotVal :: stack)
      ((fs.flatMap fun f => .comma :: .string f.1 :: .colon :: f.2.tokens) ++ [.rightBrace])
      ((fs.flatMap fun f => .mapKey f.1 :: f.2.events) ++ [.endMap]) stack := by
  induction fs with
  | nil => exact Reports.call rfl
  | cons f fs ihfs =>
    have hcomma : Reports (.mapGotVal :: stack) [.comma] [] (.mapNeedKey :: stack) :=
      Reports.silent rfl
    have hkey : Reports (.mapNeedKey :: stack) [.string f.1] [.mapKey f.1] (.mapSep :: stack) :=
      Reports.call rfl
    have hcolon : Reports (.mapSep :: stack) [.colon] [] (.mapNeedVal :: stack) :=
      Reports.silent rfl
    have hf : Reports (.mapNeedVal :: stack) f.2.tokens f.2.events (.mapGotVal :: stack) :=
      ih f List.mem_cons_self _ trivial
    have hfs := ihfs fun g hg => ih g (List.mem_cons_of_mem _ hg)
    have h := (((hcomma.trans hkey).trans hcolon).trans hf).trans hfs
    simpa using h

/-- A document is reported by its events wherever a value may come. -/
theorem reports_doc (d : Doc) (stack : List Level) (hstack : TakesValue stack) :
    Reports stack d.tokens d.events (gotValue stack) := by
  induction d using Doc.inductionOn generalizing stack with
  | null => exact Reports.value hstack (by decide) rfl
  | boolean b => exact Reports.value hstack (by simp) rfl
  | integer n => exact Reports.value hstack (by simp) rfl
  | double x => exact Reports.value hstack (by simp) rfl
  | string s => exact Reports.value hstack (by simp) rfl
  | array ds ih =>
    have hopen : Reports stack [.leftBracket] [.startArray] (.arrayStart :: gotValue stack) :=
      Reports.value hstack (by decide) rfl
    rw [Doc.tokens, Doc.events, elementTokens_eq, elementEvents_eq]
    cases ds with
    | nil =>
      have hclose : Reports (.arrayStart :: gotValue stack) [.rightBracket] [.endArray]
          (gotValue stack) := Reports.call rfl
      exact hopen.trans hclose
    | cons d ds =>
      have hd : Reports (.arrayStart :: gotValue stack) d.tokens d.events
          (.arrayGotVal :: gotValue stack) := ih d List.mem_cons_self _ trivial
      have hds := reports_elements ds (fun e he => ih e (List.mem_cons_of_mem _ he))
        (gotValue stack)
      have h := (hopen.trans hd).trans hds
      rw [List.map_cons, intercalate_cons, List.flatMap_map, List.flatMap_cons]
      simpa using h
  | object fs ih =>
    have hopen : Reports stack [.leftBrace] [.startMap] (.mapStart :: gotValue stack) :=
      Reports.value hstack (by decide) rfl
    rw [Doc.tokens, Doc.events, fieldTokens_eq, fieldEvents_eq]
    cases fs with
    | nil =>
      have hclose : Reports (.mapStart :: gotValue stack) [.rightBrace] [.endMap]
          (gotValue stack) := Reports.call rfl
      exact hopen.trans hclose
    | cons f fs =>
      have hkey : Reports (.mapStart :: gotValue stack) [.string f.1] [.mapKey f.1]
          (.mapSep :: gotValue stack) := Reports.call rfl
      have hcolon : Reports (.mapSep :: gotValue stack) [.colon] []
          (.mapNeedVal :: gotValue stack) := Reports.silent rfl
      have hf : Reports (.mapNeedVal :: gotValue stack) f.2.tokens f.2.events
          (.mapGotVal :: gotValue stack) := ih f List.mem_cons_self _ trivial
      have hfs := reports_fields fs (fun g hg => ih g (List.mem_cons_of_mem _ hg)) (gotValue stack)
      have h := (((hopen.trans hkey).trans hcolon).trans hf).trans hfs
      rw [List.map_cons, intercalate_cons, List.flatMap_map, List.flatMap_cons]
      simpa using h

/-! ## The documentation -/

def InMap : Option (List Level) → Prop
  | some (.mapStart :: _) => True
  | some (.mapNeedKey :: _) => True
  | some (.mapGotVal :: _) => True
  | _ => False

theorem reactValue_ne_endMap (stack : List Level) (tok : Token)
    (during after : Option (List Level)) : reactValue stack tok ≠ .call .endMap during after := by
  cases tok <;> simp [reactValue]

theorem reactKey_ne_endMap (stack : List Level) (tok : Token)
    (during after : Option (List Level)) : reactKey stack tok ≠ .call .endMap during after := by
  cases tok <;> simp [reactKey]

theorem inMap_of_endMap {stack : List Level} {tok : Token} {during after : Option (List Level)}
    (h : reactStack stack tok = .call .endMap during after) : InMap during := by
  cases stack with
  | nil => cases h
  | cons level stack =>
    cases level with
    | start => exact absurd h (reactValue_ne_endMap _ _ _ _)
    | parseComplete => exact absurd h (reactValue_ne_endMap _ _ _ _)
    | mapStart =>
      rw [reactStack] at h
      split at h
      · obtain ⟨-, rfl, -⟩ := Reaction.call.inj h
        trivial
      · exact absurd h (reactKey_ne_endMap _ _ _ _)
    | mapGotVal =>
      rw [reactStack] at h
      split at h
      · cases h
      · split at h
        · obtain ⟨-, rfl, -⟩ := Reaction.call.inj h
          trivial
        · cases h
    | mapNeedKey => exact absurd h (reactKey_ne_endMap _ _ _ _)
    | mapSep =>
      rw [reactStack] at h
      split at h <;> cases h
    | mapNeedVal => exact absurd h (reactValue_ne_endMap _ _ _ _)
    | arrayStart =>
      rw [reactStack] at h
      split at h
      · cases h
      · exact absurd h (reactValue_ne_endMap _ _ _ _)
    | arrayGotVal =>
      rw [reactStack] at h
      split at h
      · cases h
      · split at h <;> cases h
    | arrayNeedVal => exact absurd h (reactValue_ne_endMap _ _ _ _)

/-- Before a key or after a value, only a comma is silent, and only a key or the end is
reported. -/
theorem reactStack_inMap {stack : List Level} (hstack : InMap (some stack)) (tok : Token) :
    (∃ next, reactStack stack tok = .silent next ∧ InMap next) ∨
    (∃ next, reactStack stack tok = .reject next ∧ next = none) ∨
    (∃ key during after, reactStack stack tok = .call (.mapKey key) during after) ∨
    (∃ during after, reactStack stack tok = .call .endMap during after) := by
  have hkey : (∃ next, reactKey stack tok = .reject next ∧ next = none) ∨
      ∃ key during after, reactKey stack tok = .call (.mapKey key) during after := by
    cases tok with
    | string key => exact .inr ⟨key, _, _, rfl⟩
    | _ => exact .inl ⟨none, rfl, rfl⟩
  cases stack with
  | nil => cases hstack
  | cons level stack =>
    cases level with
    | mapStart =>
      rw [reactStack]
      split
      · exact .inr (.inr (.inr ⟨_, _, rfl⟩))
      · rcases hkey with hkey | hkey
        · exact .inr (.inl hkey)
        · exact .inr (.inr (.inl hkey))
    | mapNeedKey =>
      rcases hkey with hkey | hkey
      · exact .inr (.inl hkey)
      · exact .inr (.inr (.inl hkey))
    | mapGotVal =>
      rw [reactStack]
      split
      · exact .inl ⟨_, rfl, trivial⟩
      · split
        · exact .inr (.inr (.inr ⟨_, _, rfl⟩))
        · exact .inr (.inl ⟨none, rfl, rfl⟩)
    | _ => cases hstack

/-- In front of a value of the text, or behind one. -/
def BetweenValues (state : Option (List Level)) : Prop :=
  state = some [.start] ∨ state = some [.parseComplete]

/-- The values of the text leave the level behind a value. -/
theorem accepts_object (fields : List (Bytes × Doc)) {s : pushdown.State} (hs : BetweenValues s) :
    pushdown.accepts s (Doc.object fields).tokens =
      some ((Doc.object fields).events, some [.parseComplete]) := by
  have hreports : ∀ stack, TakesValue stack → gotValue stack = [.parseComplete] →
      pushdown.accepts (some stack) (Doc.object fields).tokens =
        some ((Doc.object fields).events, some [.parseComplete]) := by
    intro stack hstack hvalue
    have h := reports_doc (.object fields) stack hstack []
    rw [List.append_nil, hvalue] at h
    refine h.trans ?_
    change some ((Doc.object fields).events ++ [], some [Level.parseComplete]) = _
    rw [List.append_nil]
  rcases hs with rfl | rfl
  · exact hreports [.start] trivial rfl
  · exact hreports [.parseComplete] trivial rfl

theorem pushdown_documented :
    pushdown.Documented BetweenValues InMap (fun s => s = none) where
  start := .inl rfl
  reports := fun fields _ hs => ⟨_, accepts_object fields hs, .inr rfl⟩
  endMap := by
    intro s tok during after h
    cases s with
    | none => cases h
    | some stack =>
      cases tok with
      | none => cases h
      | some tok => exact inMap_of_endMap h
  insideMap := by
    intro s tok hs
    cases s with
    | none => cases hs
    | some stack =>
      cases tok with
      | none => exact .inr (.inl ⟨none, rfl, rfl⟩)
      | some tok => exact reactStack_inMap hs tok
  failed := by
    rintro s tok rfl
    exact ⟨none, rfl, rfl⟩
  cancelled _ := rfl
  flush := rfl

theorem finishStack_after_object {fields : List (Bytes × Doc)} {s t : pushdown.State}
    (hs : BetweenValues s)
    (h : pushdown.accepts s (Doc.object fields).tokens = some ((Doc.object fields).events, t)) :
    (finishStack t).2 = true := by
  have ht : some [Level.parseComplete] = t :=
    congrArg Prod.snd (Option.some.inj ((accepts_object fields hs).symm.trans h))
  rw [← ht]
  rfl

end MetadataAgent.Json
