import MetadataAgent.Json.Builder
import MetadataAgent.Lib.Stopping

/-! # The parser

`yajl` is an external parser and so a parameter: a lexer from bytes to tokens, and a parser that
reacts to a token. A callback has two states, the one in which it runs and the one that follows
when it returns 1; an exception unwinds out of `yajl_parse` and leaves the first. `Documented` is
what the documentation says of it. `ParseStream` hands a stream to yajl block by block. -/
namespace MetadataAgent.Json
open Lib
set_option autoImplicit false

/-! ## yajl -/

inductive Reaction (σ : Type) where
  | silent (next : σ)
  | call (event : Event) (during after : σ)
  | reject (next : σ)

/-- A lexical error is `none` among the tokens. `flush` is what the lexer still holds at the end
of the input, `finish` the check for a premature end. -/
structure Yajl where
  Lexer : Type
  State : Type
  lexer : Lexer
  lex : Lexer → UInt8 → Lexer × List (Option Token)
  flush : Lexer → List (Option Token)
  state : State
  react : State → Option Token → Reaction State
  cancelled : State → State
  finish : State → State × Bool
  errorText : State → Bytes → Bytes

namespace Yajl
variable (y : Yajl)

def accepts (s : y.State) : List Token → Option (List Event × y.State)
  | [] => some ([], s)
  | tok :: toks =>
    match y.react s (some tok) with
    | .silent next => accepts next toks
    | .call event _ after => (accepts after toks).map fun r => (event :: r.1, r.2)
    | .reject _ => none

def lexAll (l : y.Lexer) : Bytes → y.Lexer × List (Option Token)
  | [] => (l, [])
  | byte :: bytes =>
    ((lexAll (y.lex l byte).1 bytes).1, (y.lex l byte).2 ++ (lexAll (y.lex l byte).1 bytes).2)

/-- The tokens of the text are those of the document, and nothing is pending at its end. -/
def IsText (text : Bytes) (d : Doc) : Prop :=
  y.lexAll y.lexer text = (y.lexer, d.tokens.map some)

/-- An object is reported by its events. The callback for its end comes before the map is popped.
Inside a map, before a key or after a value, no callback but that for a key or for the end can
come next, and whatever is not allowed there is an error; an error is permanent, and so is a
callback that returned 0. Where the input may end is not said here but in `Finishes`. -/
structure Documented (Between InsideMap Failed : y.State → Prop) : Prop where
  start : Between y.state
  reports : ∀ (fields : List (Bytes × Doc)) (s : y.State), Between s →
    ∃ t, y.accepts s (Doc.object fields).tokens = some ((Doc.object fields).events, t) ∧ Between t
  endMap : ∀ (s : y.State) (tok : Option Token) (during after : y.State),
    y.react s tok = .call .endMap during after → InsideMap during
  insideMap : ∀ (s : y.State) (tok : Option Token), InsideMap s →
    (∃ next, y.react s tok = .silent next ∧ InsideMap next) ∨
    (∃ next, y.react s tok = .reject next ∧ Failed next) ∨
    (∃ key during after, y.react s tok = .call (.mapKey key) during after) ∨
    (∃ during after, y.react s tok = .call .endMap during after)
  failed : ∀ (s : y.State) (tok : Option Token), Failed s →
    ∃ next, y.react s tok = .reject next ∧ Failed next
  cancelled : ∀ s : y.State, Failed (y.cancelled s)
  flush : y.flush y.lexer = []

/-- The input may end behind an object; before its first value the end is premature. -/
structure Finishes (Between : y.State → Prop) : Prop where
  object : ∀ (fields : List (Bytes × Doc)) (s t : y.State), Between s →
    y.accepts s (Doc.object fields).tokens = some ((Doc.object fields).events, t) →
    (y.finish t).2 = true
  empty : (y.finish y.state).2 = false

theorem lexAll_append (l : y.Lexer) (as bs : Bytes) :
    y.lexAll l (as ++ bs) =
      ((y.lexAll (y.lexAll l as).1 bs).1,
        (y.lexAll l as).2 ++ (y.lexAll (y.lexAll l as).1 bs).2) := by
  induction as generalizing l with
  | nil => rfl
  | cons a as ih => rw [List.cons_append, lexAll, ih, lexAll, List.append_assoc]

theorem lexAll_texts (stream : List (Bytes × List (Bytes × Doc)))
    (h : ∀ e ∈ stream, y.IsText e.1 (.object e.2)) :
    y.lexAll y.lexer (stream.flatMap Prod.fst) =
      (y.lexer, ((stream.map Prod.snd).flatMap fun fields =>
        (Doc.object fields).tokens).map some) := by
  induction stream with
  | nil => rfl
  | cons e stream ih =>
    have he : y.lexAll y.lexer e.1 = (y.lexer, (Doc.object e.2).tokens.map some) :=
      h e List.mem_cons_self
    rw [List.flatMap_cons, List.map_cons, List.flatMap_cons, lexAll_append, he,
      ih fun f hf => h f (List.mem_cons_of_mem _ hf), List.map_append]

theorem accepts_cons_silent {s next : y.State} {tok : Token} (toks : List Token)
    (h : y.react s (some tok) = .silent next) :
    y.accepts s (tok :: toks) = y.accepts next toks := by
  rw [accepts, h]

theorem accepts_cons_call {s during after : y.State} {tok : Token} {e : Event} (toks : List Token)
    (h : y.react s (some tok) = .call e during after) :
    y.accepts s (tok :: toks) = (y.accepts after toks).map fun r => (e :: r.1, r.2) := by
  rw [accepts, h]

theorem accepts_cons_reject {s next : y.State} {tok : Token} (toks : List Token)
    (h : y.react s (some tok) = .reject next) : y.accepts s (tok :: toks) = none := by
  rw [accepts, h]

theorem accepts_split {s t : y.State} {toks : List Token} {es fs : List Event} {e : Event}
    (h : y.accepts s toks = some (es ++ e :: fs, t)) :
    ∃ before tok rest mid during after, toks = before ++ tok :: rest ∧
      y.accepts s before = some (es, mid) ∧ y.react mid (some tok) = .call e during after ∧
      y.accepts after rest = some (fs, t) := by
  induction toks generalizing s es with
  | nil => simp [accepts] at h
  | cons tok toks ih =>
    rcases hreact : y.react s (some tok) with next | ⟨event, during, after⟩ | next
    · rw [accepts_cons_silent y _ hreact] at h
      obtain ⟨before, tok', rest, mid, during, after, rfl, hbefore, htok, hrest⟩ := ih h
      refine ⟨tok :: before, tok', rest, mid, during, after, rfl, ?_, htok, hrest⟩
      rw [accepts_cons_silent y _ hreact, hbefore]
    · rw [accepts_cons_call y _ hreact] at h
      obtain ⟨r, hr, hevents⟩ := Option.map_eq_some_iff.mp h
      rw [Prod.mk.injEq] at hevents
      cases es with
      | nil =>
        obtain ⟨rfl, hfs⟩ := List.cons.inj hevents.1
        exact ⟨[], tok, toks, s, during, after, rfl, rfl, hreact,
          hr.trans (congrArg some (Prod.ext hfs hevents.2))⟩
      | cons e' es =>
        obtain ⟨rfl, hes⟩ := List.cons.inj hevents.1
        obtain ⟨before, tok', rest, mid, during', after', rfl, hbefore, htok, hrest⟩ :=
          ih (hr.trans (congrArg some (Prod.ext hes hevents.2)))
        refine ⟨tok :: before, tok', rest, mid, during', after', rfl, ?_, htok, hrest⟩
        rw [accepts_cons_call y _ hreact, hbefore, Option.map_some]
    · rw [accepts_cons_reject y _ hreact] at h
      cases h

end Yajl

/-! ## Parsing with the builder -/

/-- Why `yajl_parse` does not return `yajl_status_ok`: a status, or an exception through it. -/
inductive Stop where
  | status
  | thrown (e : Exception)

def Stop.exception (errorText : Bytes) : Stop → Exception
  | .status => .text errorText
  | .thrown e => e

/-- `Parser::ParseState`: the builder and the handle, with its lexer and its stack. -/
structure ParseState (y : Yajl) (γ : Type) where
  lexer : y.Lexer
  state : y.State
  builder : JSONBuilder γ

def ParseState.init (y : Yajl) {γ : Type} (user : γ) : ParseState y γ :=
  ⟨y.lexer, y.state, JSONBuilder.init user⟩

def kMax : ℕ := 65536

/-- The reads of `ParseStream`: the last one is the first that comes up short. -/
def readBlocks (stream : Bytes) : List Bytes :=
  if stream.length < kMax then [stream]
  else stream.take kMax :: readBlocks (stream.drop kMax)
termination_by stream.length
decreasing_by
  rw [List.length_drop]
  unfold kMax at *
  omega

section Parser
variable (y : Yajl) {γ : Type} (callback : UserCallback γ Exception)

def feedToken (p : y.State × JSONBuilder γ) (tok : Option Token) :
    (y.State × JSONBuilder γ) × Option Stop :=
  match y.react p.1 tok with
  | .silent next => ((next, p.2), none)
  | .reject next => ((next, p.2), some .status)
  | .call event during after =>
    match handle callback p.2 event with
    | (builder, .proceed) => ((after, builder), none)
    | (builder, .cancel) => ((y.cancelled during, builder), some .status)
    | (builder, .thrown e) => ((during, builder), some (.thrown e))

def readByte (p : ParseState y γ) (byte : UInt8) : ParseState y γ × Option Stop :=
  let lexed := y.lex p.lexer byte
  let fed := runUntil (feedToken y callback) (p.state, p.builder) lexed.2
  (⟨lexed.1, fed.1.1, fed.1.2⟩, fed.2)

def yajlParse : ParseState y γ → Bytes → ParseState y γ × Option Stop :=
  runUntil (readByte y callback)

/-- The body of the loop in `ParseStream`. -/
def parseBlock (p : ParseState y γ) (block : Bytes) : ParseState y γ × Option Exception :=
  ((yajlParse y callback p block).1, (yajlParse y callback p block).2.map
    (Stop.exception (y.errorText (yajlParse y callback p block).1.state block)))

/-- `Parser::ParseStream` on a string stream, with the number of bytes consumed. -/
def parseStream (p : ParseState y γ) (stream : Bytes) : ParseState y γ × Except Exception ℕ :=
  match runUntil (parseBlock y callback) p (readBlocks stream) with
  | (p, none) => (p, .ok stream.length)
  | (p, some e) => (p, .error e)

/-- `Parser::NotifyEOF`. -/
def notifyEOF (p : ParseState y γ) : ParseState y γ × Except Exception Unit :=
  match runUntil (feedToken y callback) (p.state, p.builder) (y.flush p.lexer) with
  | (fed, some stop) => (⟨p.lexer, fed.1, fed.2⟩, .error (stop.exception (y.errorText fed.1 [])))
  | (fed, none) =>
    let finished := y.finish fed.1
    (⟨p.lexer, finished.1, fed.2⟩,
      if finished.2 then .ok () else .error (.text (y.errorText finished.1 [])))

theorem flatten_readBlocks (stream : Bytes) : (readBlocks stream).flatten = stream := by
  induction stream using readBlocks.induct with
  | case1 stream hshort =>
    rw [readBlocks, if_pos hshort]
    simp
  | case2 stream hfull ih =>
    rw [readBlocks, if_neg hfull, List.flatten_cons, ih, List.take_append_drop]

theorem parseStream_state (p : ParseState y γ) (stream : Bytes) :
    (parseStream y callback p stream).1 = (yajlParse y callback p stream).1 := by
  have hblocks : (runUntil (parseBlock y callback) p (readBlocks stream)).1 =
      (yajlParse y callback p stream).1 := by
    have h := runUntil_map (yajlParse y callback)
      (fun p block => Stop.exception (y.errorText (yajlParse y callback p block).1.state block))
      p (readBlocks stream)
    rw [yajlParse, runUntil_flatten, flatten_readBlocks] at h
    exact h
  rw [parseStream, ← hblocks]
  rcases runUntil (parseBlock y callback) p (readBlocks stream) with ⟨p, _ | e⟩
  · rfl
  · rfl

/-! ## Tokens -/

theorem feed_of_accepts {s t : y.State} {toks : List Token} {es : List Event}
    (h : y.accepts s toks = some (es, t)) {b b' : JSONBuilder γ}
    (hb : handleAll callback b es = (b', .proceed)) :
    runUntil (feedToken y callback) (s, b) (toks.map some) = ((t, b'), none) := by
  induction toks generalizing s b es with
  | nil =>
    obtain ⟨rfl, rfl⟩ : [] = es ∧ s = t := by simpa [Yajl.accepts] using h
    obtain rfl : b = b' := congrArg Prod.fst hb
    rfl
  | cons tok toks ih =>
    rw [List.map_cons]
    rcases hreact : y.react s (some tok) with next | ⟨event, during, after⟩ | next
    · rw [y.accepts_cons_silent _ hreact] at h
      have hstep : feedToken y callback (s, b) (some tok) = ((next, b), none) := by
        rw [feedToken, hreact]
      rw [runUntil_cons_none _ hstep]
      exact ih h hb
    · rw [y.accepts_cons_call _ hreact] at h
      obtain ⟨r, hr, hevents⟩ := Option.map_eq_some_iff.mp h
      obtain ⟨rfl, rfl⟩ : event :: r.1 = es ∧ r.2 = t := Prod.mk.inj hevents
      rw [handleAll] at hb
      rcases hhandle : handle callback b event with ⟨b₁, _ | _ | e⟩
      · rw [hhandle] at hb
        have hstep : feedToken y callback (s, b) (some tok) = ((after, b₁), none) := by
          simp only [feedToken, hreact, hhandle]
        rw [runUntil_cons_none _ hstep]
        exact ih hr hb
      · rw [hhandle] at hb
        cases hb
      · rw [hhandle] at hb
        cases hb
    · rw [y.accepts_cons_reject _ hreact] at h
      cases h

theorem handleAll_open (fields : List (Bytes × Doc)) (b : JSONBuilder γ) :
    handleAll callback b (.startMap :: fieldEvents fields) =
      (⟨.object b.context (OrderedMap.ofList (fieldValues fields)) none, b.cerr, b.user⟩,
        .proceed) := by
  have hstart : handle callback b .startMap =
      (⟨.object b.context .empty none, b.cerr, b.user⟩, .proceed) := rfl
  rw [handleAll_cons_proceed callback _ hstart, fieldEvents_eq,
    handleAll_fields callback fields fun f _ b => handleAll_doc callback f.2 b, fieldValues_eq]
  rfl

variable {y} {Between InsideMap Failed : y.State → Prop}

/-- One object: the callback has it, and if it throws the parser is still inside the map. -/
theorem feed_object (hy : y.Documented Between InsideMap Failed) (fields : List (Bytes × Doc))
    {s : y.State} (hs : Between s) (cerr : List Diagnostic) (g : γ) :
    (∀ g', callback g (Doc.object fields).value = (g', none) → ∃ t, Between t ∧
      runUntil (feedToken y callback) (s, ⟨.callback, cerr, g⟩)
        ((Doc.object fields).tokens.map some) = ((t, ⟨.callback, cerr, g'⟩), none)) ∧
    (∀ g' e, callback g (Doc.object fields).value = (g', some e) → ∃ t, InsideMap t ∧
      runUntil (feedToken y callback) (s, ⟨.callback, cerr, g⟩)
        ((Doc.object fields).tokens.map some) =
          ((t, ⟨.callback, cerr, g'⟩), some (.thrown e))) := by
  obtain ⟨t, haccepts, ht⟩ := hy.reports fields s hs
  constructor
  · intro g' hg
    refine ⟨t, ht, feed_of_accepts y callback haccepts ?_⟩
    rw [handleAll_doc, JSONBuilder.addValue, hg]
  · intro g' e hg
    have hevents : (Doc.object fields).events =
        (.startMap :: fieldEvents fields) ++ .endMap :: [] := rfl
    rw [hevents] at haccepts
    obtain ⟨before, tok, rest, mid, during, after, htoks, hbefore, htok, -⟩ :=
      y.accepts_split haccepts
    refine ⟨during, hy.endMap mid (some tok) during after htok, ?_⟩
    have hopen := feed_of_accepts y callback hbefore
      (handleAll_open callback fields ⟨.callback, cerr, g⟩)
    have hend : feedToken y callback (mid, ⟨.object .callback
        (OrderedMap.ofList (fieldValues fields)) none, cerr, g⟩) (some tok) =
          ((during, ⟨.callback, cerr, g'⟩), some (.thrown e)) := by
      have hadd : handle callback ⟨.object .callback (OrderedMap.ofList (fieldValues fields)) none,
          cerr, g⟩ .endMap = (⟨.callback, cerr, g'⟩, .thrown e) := by
        rw [Doc.value] at hg
        simp only [handle, handleEndMap, JSONBuilder.popObject, JSONBuilder.addValue, hg]
      simp only [feedToken, htok, hadd]
    rw [htoks, List.map_append, List.map_cons, runUntil_append_none _ hopen,
      runUntil_cons_some _ hend]

/-- Objects one after the other: the callback has them up to the first on which it throws. -/
theorem feed_objects (hy : y.Documented Between InsideMap Failed)
    (objects : List (List (Bytes × Doc))) {s : y.State} (hs : Between s) (cerr : List Diagnostic)
    (g : γ) :
    (∀ g', runUntil callback g (objects.map fun fields => (Doc.object fields).value) = (g', none) →
      ∃ t, Between t ∧ runUntil (feedToken y callback) (s, ⟨.callback, cerr, g⟩)
        ((objects.flatMap fun fields => (Doc.object fields).tokens).map some) =
          ((t, ⟨.callback, cerr, g'⟩), none)) ∧
    (∀ g' e, runUntil callback g (objects.map fun fields => (Doc.object fields).value) =
        (g', some e) →
      ∃ t, InsideMap t ∧ runUntil (feedToken y callback) (s, ⟨.callback, cerr, g⟩)
        ((objects.flatMap fun fields => (Doc.object fields).tokens).map some) =
          ((t, ⟨.callback, cerr, g'⟩), some (.thrown e))) := by
  induction objects generalizing s g with
  | nil =>
    refine ⟨fun g' hg => ⟨s, hs, ?_⟩, fun g' e hg => ?_⟩
    · obtain rfl : g = g' := congrArg Prod.fst hg
      rfl
    · cases hg
  | cons fields objects ih =>
    rw [List.flatMap_cons, List.map_append, List.map_cons]
    obtain ⟨hnone, hsome⟩ := feed_object callback hy fields hs cerr g
    rcases hcall : callback g (Doc.object fields).value with ⟨g₁, _ | e⟩
    · obtain ⟨t, ht, hfed⟩ := hnone g₁ hcall
      rw [runUntil_cons_none _ hcall, runUntil_append_none _ hfed]
      exact ih ht g₁
    · obtain ⟨t, ht, hfed⟩ := hsome g₁ e hcall
      rw [runUntil_cons_some _ hcall, runUntil_append_some _ hfed]
      refine ⟨fun g' hg => ?_, fun g' e' hg => ⟨t, ht, ?_⟩⟩
      · cases hg
      · cases hg
        rfl

/-! ## A parser left inside a map -/

variable {callback}

/-- The builder is back at the root while the parser is still inside a map, or has failed. -/
def Stuck (InsideMap Failed : y.State → Prop) (user : γ) (p : y.State × JSONBuilder γ) : Prop :=
  p.2.context = .callback ∧ p.2.user = user ∧ (InsideMap p.1 ∨ Failed p.1)

/-- The builder refuses the only callbacks that can come, so the user callback is never called
again. -/
theorem feedToken_stuck (hy : y.Documented Between InsideMap Failed) (user : γ)
    (p : y.State × JSONBuilder γ) (tok : Option Token) (hp : Stuck InsideMap Failed user p) :
    Stuck InsideMap Failed user (feedToken y callback p tok).1 := by
  obtain ⟨s, ⟨context, cerr, u⟩⟩ := p
  obtain ⟨rfl, rfl, hinside | hfailed⟩ := hp
  · obtain ⟨next, h, hnext⟩ | ⟨next, h, hnext⟩ | ⟨key, during, after, h⟩ | ⟨during, after, h⟩ :=
      hy.insideMap s tok hinside
    · simp only [feedToken, h]
      exact ⟨rfl, rfl, .inl hnext⟩
    · simp only [feedToken, h]
      exact ⟨rfl, rfl, .inr hnext⟩
    · simp only [feedToken, h]
      exact ⟨rfl, rfl, .inr (hy.cancelled during)⟩
    · simp only [feedToken, h]
      exact ⟨rfl, rfl, .inr (hy.cancelled during)⟩
  · obtain ⟨next, h, hnext⟩ := hy.failed s tok hfailed
    simp only [feedToken, h]
    exact ⟨rfl, rfl, .inr hnext⟩

theorem readByte_stuck (hy : y.Documented Between InsideMap Failed) (user : γ)
    (p : ParseState y γ) (byte : UInt8) (hp : Stuck InsideMap Failed user (p.state, p.builder)) :
    Stuck InsideMap Failed user
      ((readByte y callback p byte).1.state, (readByte y callback p byte).1.builder) :=
  runUntil_preserves (feedToken_stuck hy user) hp _

/-! ## Bytes -/

/-- Parsing bytes is feeding their tokens; the lexer is at its end unless the parser stopped. -/
theorem yajlParse_eq_feed (p : ParseState y γ) {bytes : Bytes} {l : y.Lexer}
    {toks : List (Option Token)} (hlex : y.lexAll p.lexer bytes = (l, toks)) {t : y.State}
    {b : JSONBuilder γ} {stop : Option Stop}
    (h : runUntil (feedToken y callback) (p.state, p.builder) toks = ((t, b), stop)) :
    ∃ l', yajlParse y callback p bytes = (⟨l', t, b⟩, stop) ∧ (stop = none → l' = l) := by
  induction bytes generalizing p toks with
  | nil =>
    obtain ⟨rfl, rfl⟩ : p.lexer = l ∧ [] = toks := Prod.mk.inj hlex
    obtain ⟨⟨rfl, rfl⟩, rfl⟩ : (p.state = t ∧ p.builder = b) ∧ none = stop := by
      simpa [runUntil] using h
    exact ⟨p.lexer, rfl, fun _ => rfl⟩
  | cons byte bytes ih =>
    obtain ⟨hl, htoks⟩ := Prod.mk.inj hlex
    rw [← htoks] at h
    rcases hfed : runUntil (feedToken y callback) (p.state, p.builder)
      (y.lex p.lexer byte).2 with ⟨⟨t₁, b₁⟩, _ | stop₁⟩
    · have hstep : readByte y callback p byte = (⟨(y.lex p.lexer byte).1, t₁, b₁⟩, none) := by
        rw [readByte, hfed]
      rw [runUntil_append_none _ hfed] at h
      rw [yajlParse, runUntil_cons_none _ hstep]
      exact ih _ (Prod.ext hl rfl) h
    · have hstep : readByte y callback p byte =
          (⟨(y.lex p.lexer byte).1, t₁, b₁⟩, some stop₁) := by
        rw [readByte, hfed]
      rw [runUntil_append_some _ hfed] at h
      obtain ⟨⟨rfl, rfl⟩, rfl⟩ : (t₁ = t ∧ b₁ = b) ∧ some stop₁ = stop := by simpa using h
      exact ⟨_, runUntil_cons_some _ hstep, fun hnone => by cases hnone⟩

end Parser

/-! ## Whole texts -/

section Values
variable (y : Yajl)

/-- The lambda in `Parser::AllFromStream`. -/
def keepValue : UserCallback (List Value) Exception := fun values v => (values ++ [v], none)

def allFromString (input : Bytes) : Except Exception (List Value) :=
  match parseStream y keepValue (ParseState.init y []) input with
  | (_, .error e) => .error e
  | (parsed, .ok _) =>
    match notifyEOF y keepValue parsed with
    | (_, .error e) => .error e
    | (ended, .ok _) => .ok ended.builder.user

/-- `Parser::FromString`; `none` is the null pointer. -/
def fromString (input : Bytes) : Except Exception (Option Value) :=
  match allFromString y input with
  | .error e => .error e
  | .ok [] => .ok none
  | .ok [value] => .ok (some value)
  | .ok allValues => .error (.text
      (lit "Single value expected, " ++ digits allValues.length ++ lit " values seen"))

end Values

end MetadataAgent.Json
