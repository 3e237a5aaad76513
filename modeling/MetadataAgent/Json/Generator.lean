import MetadataAgent.Json.Serializer
import Mathlib.Algebra.Order.BigOperators.Group.List
import Mathlib.Algebra.Order.Group.Nat

/-! # The generator

`yajl_gen` is an external writer and so a parameter: a state machine with a status for every
call, which keeps a slot for every open array or object. `Documented` is what its documentation
says of it. `ToString` issues the calls of a value one after the other, drops every status and
returns the buffer. The text denotes the value exactly when no call is rejected and no number is
rounded; in all other cases the caller is not told. -/
namespace MetadataAgent.Json
open Lib
set_option autoImplicit false

/-! ## The writer -/

/-- `yajl_gen_state` of one nesting level. -/
inductive Slot where
  | start | complete | mapStart | mapKey | mapVal | arrayStart | inArray
  deriving DecidableEq

def Slot.separator : Slot → List Token
  | .mapKey | .inArray => [.comma]
  | .mapVal => [.colon]
  | _ => []

def Slot.afterItem : Slot → Slot
  | .start => .complete
  | .mapStart | .mapKey => .mapVal
  | .mapVal => .mapKey
  | .arrayStart => .inArray
  | slot => slot

def Slot.takesValue : Slot → Bool
  | .start | .mapVal | .arrayStart | .inArray => true
  | _ => false

def GenCall.token : GenCall → Token
  | .null => .null
  | .bool b => .boolean b
  | .integer n => .integer n
  | .double d => .double d
  | .string s => .string s
  | .mapOpen => .leftBrace
  | .mapClose => .rightBrace
  | .arrayOpen => .leftBracket
  | .arrayClose => .rightBracket

def GenCall.opens : GenCall → Option Slot
  | .mapOpen => some .mapStart
  | .arrayOpen => some .arrayStart
  | _ => none

def GenCall.closes : GenCall → Bool
  | .mapClose | .arrayClose => true
  | _ => false

/-- Whether an item may come next: a string may also be a key. -/
def GenCall.fits : GenCall → Slot → Bool
  | .string _, slot => decide (slot ≠ .complete)
  | _, slot => slot.takesValue

def LongDouble.isFinite : LongDouble → Bool
  | .finite _ | .negZero => true
  | _ => false

def GenCall.representable (validUtf8 : Bytes → Bool) : GenCall → Bool
  | .string s => validUtf8 s
  | .double d => d.isFinite
  | _ => true

/-- `YAJL_MAX_DEPTH`. -/
def maxDepth : ℕ := 128

/-- A generator: `call` gives the next state and whether the status was `yajl_gen_status_ok`.
The slots are listed innermost first, the outermost one included. -/
structure YajlGen where
  State : Type
  alloc : State
  call : State → GenCall → State × Bool
  slots : State → List Slot
  buf : State → List Token

/-- A call was accepted, wrote `text` and left the slots `after`. -/
structure YajlGen.Wrote (g : YajlGen) (s : g.State) (c : GenCall) (text : List Token)
    (after : List Slot) : Prop where
  ok : (g.call s c).2 = true
  buf : g.buf (g.call s c).1 = g.buf s ++ text
  slots : g.slots (g.call s c).1 = after

structure YajlGen.Documented (g : YajlGen) (validUtf8 : Bytes → Bool) : Prop where
  alloc_slots : g.slots g.alloc = [.start]
  alloc_buf : g.buf g.alloc = []
  item : ∀ s slot outer c, g.slots s = slot :: outer → c.closes = false → c.opens = none →
    c.fits slot = true → c.representable validUtf8 = true →
    g.Wrote s c (slot.separator ++ [c.token]) (slot.afterItem :: outer)
  opening : ∀ s slot outer c inner, g.slots s = slot :: outer → c.opens = some inner →
    c.fits slot = true → outer.length + 1 < maxDepth →
    g.Wrote s c (slot.separator ++ [c.token]) (inner :: slot :: outer)
  closing : ∀ s inner slot outer c, g.slots s = inner :: slot :: outer → c.closes = true →
    inner ≠ .complete → g.Wrote s c [c.token] (slot.afterItem :: outer)
  unrepresentable : ∀ s c, c.representable validUtf8 = false → (g.call s c).2 = false
  too_deep : ∀ s c, c.opens.isSome → maxDepth ≤ (g.slots s).length → (g.call s c).2 = false
  lexemes_call : ∀ s c, (lexemes (g.buf (g.call s c).1)).length =
    (lexemes (g.buf s)).length + (g.call s c).2.toNat

namespace YajlGen
variable (g : YajlGen)

/-! ## Issuing calls -/

/-- The `Serialize` methods: every call is made, its status is not looked at. -/
def issue (s : g.State) (calls : List GenCall) : g.State :=
  calls.foldl (fun s c => (g.call s c).1) s

def accepts (s : g.State) : List GenCall → Bool
  | [] => true
  | c :: calls => (g.call s c).2 && accepts (g.call s c).1 calls

theorem issue_append (s : g.State) (cs ds : List GenCall) :
    g.issue s (cs ++ ds) = g.issue (g.issue s cs) ds :=
  List.foldl_append

theorem accepts_append (s : g.State) (cs ds : List GenCall) :
    g.accepts s (cs ++ ds) = (g.accepts s cs && g.accepts (g.issue s cs) ds) := by
  induction cs generalizing s with
  | nil => rfl
  | cons c cs ih =>
    rw [List.cons_append, accepts, accepts, ih, Bool.and_assoc]
    rfl

theorem lexemes_issue {validUtf8 : Bytes → Bool} (hg : g.Documented validUtf8) (s : g.State)
    (cs : List GenCall) :
    (lexemes (g.buf (g.issue s cs))).length ≤ (lexemes (g.buf s)).length + cs.length ∧
      ((lexemes (g.buf (g.issue s cs))).length = (lexemes (g.buf s)).length + cs.length →
        g.accepts s cs = true) := by
  induction cs generalizing s with
  | nil => exact ⟨le_rfl, fun _ => rfl⟩
  | cons c cs ih =>
    obtain ⟨hle, hall⟩ := ih (g.call s c).1
    have hcall := hg.lexemes_call s c
    have hissue : g.issue s (c :: cs) = g.issue (g.call s c).1 cs := rfl
    rw [hissue, List.length_cons, accepts]
    cases hok : (g.call s c).2 with
    | true =>
      rw [hok, Bool.toNat_true] at hcall
      refine ⟨by omega, fun h => ?_⟩
      rw [Bool.true_and]
      exact hall (by omega)
    | false =>
      rw [hok, Bool.toNat_false] at hcall
      refine ⟨by omega, fun h => ?_⟩
      omega

/-- From the slots `before`, the calls are accepted exactly when `ok` holds, and then they write
`text` and leave the slots `after`. -/
structure Writes (before after : List Slot) (calls : List GenCall) (ok : Prop)
    (text : List Token) : Prop where
  accepts_iff : ∀ s, g.slots s = before → (g.accepts s calls = true ↔ ok)
  buf_issue : ok → ∀ s, g.slots s = before → g.buf (g.issue s calls) = g.buf s ++ text
  slots_issue : ok → ∀ s, g.slots s = before → g.slots (g.issue s calls) = after

variable {g}
variable {a b c : List Slot} {cs ds : List GenCall} {p q : Prop} {t u : List Token}

theorem Writes.nil : g.Writes a a [] True [] where
  accepts_iff _ _ := ⟨fun _ => trivial, fun _ => rfl⟩
  buf_issue _ _ _ := (List.append_nil _).symm
  slots_issue _ _ hs := hs

theorem Writes.congr (h : g.Writes a b cs p t) (hpq : p ↔ q) : g.Writes a b cs q t where
  accepts_iff s hs := (h.accepts_iff s hs).trans hpq
  buf_issue hq := h.buf_issue (hpq.mpr hq)
  slots_issue hq := h.slots_issue (hpq.mpr hq)

theorem Writes.append (h₁ : g.Writes a b cs p t) (h₂ : g.Writes b c ds q u) :
    g.Writes a c (cs ++ ds) (p ∧ q) (t ++ u) where
  accepts_iff s hs := by
    rw [accepts_append, Bool.and_eq_true, h₁.accepts_iff s hs]
    constructor
    · rintro ⟨hp, hq⟩
      exact ⟨hp, (h₂.accepts_iff _ (h₁.slots_issue hp s hs)).mp hq⟩
    · rintro ⟨hp, hq⟩
      exact ⟨hp, (h₂.accepts_iff _ (h₁.slots_issue hp s hs)).mpr hq⟩
  buf_issue hpq s hs := by
    have hmid := h₁.slots_issue hpq.1 s hs
    rw [issue_append, h₂.buf_issue hpq.2 _ hmid, h₁.buf_issue hpq.1 s hs, List.append_assoc]
  slots_issue hpq s hs := by
    have hmid := h₁.slots_issue hpq.1 s hs
    rw [issue_append]
    exact h₂.slots_issue hpq.2 _ hmid

theorem Writes.single {call : GenCall} (hyes : p → ∀ s, g.slots s = a → g.Wrote s call t b)
    (hno : ¬p → ∀ s, g.slots s = a → (g.call s call).2 = false) :
    g.Writes a b [call] p t where
  accepts_iff s hs := by
    rw [accepts, accepts, Bool.and_true]
    constructor
    · intro h
      by_contra hp
      rw [hno hp s hs] at h
      exact Bool.false_ne_true h
    · intro hp
      exact (hyes hp s hs).ok
  buf_issue hp s hs := (hyes hp s hs).buf
  slots_issue hp s hs := (hyes hp s hs).slots

theorem Writes.flatMap {α : Type} {calls : α → List GenCall} {ok : α → Prop}
    {text : α → List Token} (as : List α)
    (h : ∀ x ∈ as, g.Writes a a (calls x) (ok x) (text x)) :
    g.Writes a a (as.flatMap calls) (∀ x ∈ as, ok x) (as.flatMap text) := by
  induction as with
  | nil => exact Writes.nil.congr (by simp)
  | cons x as ih =>
    have htail := ih fun y hy => h y (List.mem_cons_of_mem _ hy)
    rw [List.flatMap_cons, List.flatMap_cons]
    exact ((h x List.mem_cons_self).append htail).congr (by simp)

/-- Items one after the other, commas between them, and the closing call: `first` is the slot
before the first item and `rest` the slot after every item. -/
theorem Writes.delimited {α : Type} {calls : α → List GenCall} {ok : α → Prop}
    {text : α → List Token} {first rest : List Slot} {close : GenCall} (as : List α)
    (hfirst : ∀ x ∈ as, g.Writes first rest (calls x) (ok x) (text x))
    (hrest : ∀ x ∈ as, g.Writes rest rest (calls x) (ok x) (.comma :: text x))
    (hempty : g.Writes first b [close] True [close.token])
    (hclose : g.Writes rest b [close] True [close.token]) :
    g.Writes first b (as.flatMap calls ++ [close]) (∀ x ∈ as, ok x)
      ([Token.comma].intercalate (as.map text) ++ [close.token]) := by
  cases as with
  | nil => exact hempty.congr (by simp)
  | cons x as =>
    have htail := Writes.flatMap as fun y hy => hrest y (List.mem_cons_of_mem _ hy)
    have hall := ((hfirst x List.mem_cons_self).append htail).append hclose
    rw [List.map_cons, intercalate_cons, List.flatMap_map, List.flatMap_cons]
    exact hall.congr (by simp)

end YajlGen

/-! ## What a value needs -/

section Encodable
variable (validUtf8 : Bytes → Bool) (toDouble : LongDouble → LongDouble)

def Writable (x : LongDouble) : Prop :=
  isEffectivelyInteger x = true ∨ (toDouble x).isFinite = true

def Fits (level : ℕ) (v : Value) : Prop :=
  (∀ s ∈ v.strings, validUtf8 s = true) ∧ (∀ x ∈ v.numbers, Writable toDouble x) ∧
    (v.depth = 0 ∨ v.depth + level ≤ maxDepth)

/-- Every string is valid UTF-8, every number is a finite `double` or a `long long`, and fewer
than 128 arrays and objects are open at a time. -/
structure Encodable (v : Value) : Prop where
  strings : ∀ s ∈ v.strings, validUtf8 s = true
  numbers : ∀ x ∈ v.numbers,
    isEffectivelyInteger x = true ∨ x.isFinite = true ∧ toDouble x = x
  depth : v.depth < maxDepth

variable {validUtf8 toDouble}

theorem Fits.outside {level outer : ℕ} {v : Value} (h : Fits validUtf8 toDouble level v)
    (houter : outer ≤ level) : Fits validUtf8 toDouble outer v := by
  obtain ⟨hstrings, hnumbers, hdepth⟩ := h
  refine ⟨hstrings, hnumbers, ?_⟩
  omega

theorem fits_array {level : ℕ} {es : List Value} :
    Fits validUtf8 toDouble level (.array es) ↔
      level < maxDepth ∧ ∀ e ∈ es, Fits validUtf8 toDouble (level + 1) e := by
  have hstrings : (∀ s ∈ (Value.array es).strings, validUtf8 s = true) ↔
      ∀ e ∈ es, ∀ s ∈ e.strings, validUtf8 s = true := by
    simp only [Value.strings, mem_elementStrings]
    constructor
    · intro h e he s hs
      exact h s ⟨e, he, hs⟩
    · rintro h s ⟨e, he, hs⟩
      exact h e he s hs
  have hnumbers : (∀ x ∈ (Value.array es).numbers, Writable toDouble x) ↔
      ∀ e ∈ es, ∀ x ∈ e.numbers, Writable toDouble x := by
    simp only [Value.numbers, mem_elementNumbers]
    constructor
    · intro h e he x hx
      exact h x ⟨e, he, hx⟩
    · rintro h x ⟨e, he, hx⟩
      exact h e he x hx
  have hdepth : ((Value.array es).depth = 0 ∨ (Value.array es).depth + level ≤ maxDepth) ↔
      level < maxDepth ∧ ∀ e ∈ es, e.depth = 0 ∨ e.depth + (level + 1) ≤ maxDepth := by
    rw [Value.depth]
    constructor
    · intro h
      have hlevel : level < maxDepth := by omega
      refine ⟨hlevel, fun e he => ?_⟩
      have helements := (elementsDepth_lt (n := maxDepth - level) (by omega)).mp (by omega) e he
      omega
    · rintro ⟨hlevel, h⟩
      have hroom : 0 < maxDepth - level := by omega
      have helements : elementsDepth es < maxDepth - level := by
        refine (elementsDepth_lt hroom).mpr fun e he => ?_
        have hentry := h e he
        omega
      omega
  rw [Fits, hstrings, hnumbers, hdepth]
  constructor
  · rintro ⟨hs, hx, hl, hd⟩
    exact ⟨hl, fun e he => ⟨hs e he, hx e he, hd e he⟩⟩
  · rintro ⟨hl, h⟩
    exact ⟨fun e he => (h e he).1, fun e he => (h e he).2.1, hl, fun e he => (h e he).2.2⟩

theorem fits_object {level : ℕ} {fs : Object} :
    Fits validUtf8 toDouble level (.object fs) ↔
      level < maxDepth ∧
        ∀ f ∈ fs, validUtf8 f.1 = true ∧ Fits validUtf8 toDouble (level + 1) f.2 := by
  have hstrings : (∀ s ∈ (Value.object fs).strings, validUtf8 s = true) ↔
      ∀ f ∈ fs, validUtf8 f.1 = true ∧ ∀ s ∈ f.2.strings, validUtf8 s = true := by
    simp only [Value.strings, mem_fieldStrings]
    constructor
    · intro h f hf
      exact ⟨h f.1 ⟨f, hf, .inl rfl⟩, fun s hs => h s ⟨f, hf, .inr hs⟩⟩
    · rintro h s ⟨f, hf, rfl | hs⟩
      · exact (h f hf).1
      · exact (h f hf).2 s hs
  have hnumbers : (∀ x ∈ (Value.object fs).numbers, Writable toDouble x) ↔
      ∀ f ∈ fs, ∀ x ∈ f.2.numbers, Writable toDouble x := by
    simp only [Value.numbers, mem_fieldNumbers]
    constructor
    · intro h f hf x hx
      exact h x ⟨f, hf, hx⟩
    · rintro h x ⟨f, hf, hx⟩
      exact h f hf x hx
  have hdepth : ((Value.object fs).depth = 0 ∨ (Value.object fs).depth + level ≤ maxDepth) ↔
      level < maxDepth ∧ ∀ f ∈ fs, f.2.depth = 0 ∨ f.2.depth + (level + 1) ≤ maxDepth := by
    rw [Value.depth]
    constructor
    · intro h
      have hlevel : level < maxDepth := by omega
      refine ⟨hlevel, fun f hf => ?_⟩
      have hfields := (fieldsDepth_lt (n := maxDepth - level) (by omega)).mp (by omega) f hf
      omega
    · rintro ⟨hlevel, h⟩
      have hroom : 0 < maxDepth - level := by omega
      have hfields : fieldsDepth fs < maxDepth - level := by
        refine (fieldsDepth_lt hroom).mpr fun f hf => ?_
        have hfield := h f hf
        omega
      omega
  rw [Fits, hstrings, hnumbers, hdepth]
  constructor
  · rintro ⟨hs, hx, hl, hd⟩
    exact ⟨hl, fun f hf => ⟨(hs f hf).1, (hs f hf).2, hx f hf, hd f hf⟩⟩
  · rintro ⟨hl, h⟩
    exact ⟨fun f hf => ⟨(h f hf).1, (h f hf).2.1⟩, fun f hf => (h f hf).2.2.1, hl,
      fun f hf => (h f hf).2.2.2⟩

end Encodable

/-! ## What `Serialize` writes -/

section Text
variable {g : YajlGen} {validUtf8 : Bytes → Bool} (toDouble : LongDouble → LongDouble)

theorem item_writes (hg : g.Documented validUtf8) {slot : Slot} {outer : List Slot} {c : GenCall}
    (hclose : c.closes = false) (hopen : c.opens = none) (hfits : c.fits slot = true) :
    g.Writes (slot :: outer) (slot.afterItem :: outer) [c] (c.representable validUtf8 = true)
      (slot.separator ++ [c.token]) := by
  apply YajlGen.Writes.single
  · intro hc s hs
    exact hg.item s slot outer c hs hclose hopen hfits hc
  · intro hc s _
    exact hg.unrepresentable s c (by simpa using hc)

theorem opening_writes (hg : g.Documented validUtf8) {slot inner : Slot} {outer : List Slot}
    {c : GenCall} (hopen : c.opens = some inner) (hfits : c.fits slot = true) :
    g.Writes (slot :: outer) (inner :: slot :: outer) [c] (outer.length + 1 < maxDepth)
      (slot.separator ++ [c.token]) := by
  apply YajlGen.Writes.single
  · intro hlevel s hs
    exact hg.opening s slot outer c inner hs hopen hfits hlevel
  · intro hlevel s hs
    apply hg.too_deep s c (by rw [hopen]; rfl)
    rw [hs, List.length_cons]
    omega

theorem closing_writes (hg : g.Documented validUtf8) {inner slot : Slot} {outer : List Slot}
    {c : GenCall} (hclose : c.closes = true) (hinner : inner ≠ .complete) :
    g.Writes (inner :: slot :: outer) (slot.afterItem :: outer) [c] True [c.token] := by
  apply YajlGen.Writes.single
  · intro _ s hs
    exact hg.closing s inner slot outer c hs hclose hinner
  · intro h
    exact absurd trivial h

/-- A value is written where one is expected, after the separator that is due. -/
theorem value_writes (hg : g.Documented validUtf8) (v : Value) (slot : Slot) (outer : List Slot)
    (hslot : slot.takesValue = true) :
    g.Writes (slot :: outer) (slot.afterItem :: outer) (serialize toDouble v)
      (Fits validUtf8 toDouble (outer.length + 1) v)
      (slot.separator ++ (v.doc toDouble).tokens) := by
  induction v using Value.inductionOn generalizing slot outer with
  | null =>
    exact (item_writes hg (c := .null) rfl rfl hslot).congr
      (by simp [Fits, Value.strings, Value.numbers, Value.depth, GenCall.representable])
  | boolean b =>
    exact (item_writes hg (c := .bool b) rfl rfl hslot).congr
      (by simp [Fits, Value.strings, Value.numbers, Value.depth, GenCall.representable])
  | number x =>
    have hfits : Fits validUtf8 toDouble (outer.length + 1) (.number x) ↔ Writable toDouble x := by
      simp [Fits, Value.strings, Value.numbers, Value.depth]
    rw [serialize, Value.doc]
    by_cases hi : isEffectivelyInteger x = true
    · rw [if_pos hi, if_pos hi]
      exact (item_writes hg (c := .integer (toLongLong x)) rfl rfl hslot).congr
        (by simp [hfits, Writable, hi, GenCall.representable])
    · rw [if_neg hi, if_neg hi]
      exact (item_writes hg (c := .double (toDouble x)) rfl rfl hslot).congr
        (by simp [hfits, Writable, hi, GenCall.representable])
  | string k =>
    have hstring : GenCall.fits (.string k) slot = true := by
      rw [GenCall.fits, decide_eq_true_iff]
      rintro rfl
      simp [Slot.takesValue] at hslot
    exact (item_writes hg rfl rfl hstring).congr
      (by simp [Fits, Value.strings, Value.numbers, Value.depth, GenCall.representable])
  | array es ih =>
    have hopen : g.Writes (slot :: outer) (.arrayStart :: slot :: outer) [.arrayOpen]
        (outer.length + 1 < maxDepth) (slot.separator ++ [.leftBracket]) :=
      opening_writes hg rfl hslot
    have hbody := YajlGen.Writes.delimited es
      (fun e he => ih e he .arrayStart (slot :: outer) rfl)
      (fun e he => ih e he .inArray (slot :: outer) rfl)
      (closing_writes hg (c := .arrayClose) rfl (by decide))
      (closing_writes hg (c := .arrayClose) rfl (by decide))
    have hall := (hopen.append hbody).congr fits_array.symm
    rw [serialize, Value.doc, Doc.tokens, serializeElements_eq, elementDocs_eq, elementTokens_eq,
      List.map_map]
    rw [List.append_assoc] at hall
    exact hall
  | object fs ih =>
    have hopen : g.Writes (slot :: outer) (.mapStart :: slot :: outer) [.mapOpen]
        (outer.length + 1 < maxDepth) (slot.separator ++ [.leftBrace]) :=
      opening_writes hg rfl hslot
    have hfield : ∀ f ∈ fs, ∀ before : Slot, before = .mapStart ∨ before = .mapKey →
        g.Writes (before :: slot :: outer) (.mapKey :: slot :: outer)
          (.string f.1 :: serialize toDouble f.2)
          (validUtf8 f.1 = true ∧ Fits validUtf8 toDouble ((slot :: outer).length + 1) f.2)
          (before.separator ++ .string f.1 :: .colon :: (f.2.doc toDouble).tokens) := by
      intro f hf before hbefore
      have hvalue := ih f hf .mapVal (slot :: outer) rfl
      rcases hbefore with rfl | rfl
      · exact (item_writes hg rfl rfl rfl).append hvalue
      · exact (item_writes hg rfl rfl rfl).append hvalue
    have hbody := YajlGen.Writes.delimited fs
      (fun f hf => hfield f hf .mapStart (.inl rfl))
      (fun f hf => hfield f hf .mapKey (.inr rfl))
      (closing_writes hg (c := .mapClose) rfl (by decide))
      (closing_writes hg (c := .mapClose) rfl (by decide))
    have hall := (hopen.append hbody).congr fits_object.symm
    rw [serialize, Value.doc, Doc.tokens, serializeFields_eq, fieldDocs_eq, fieldTokens_eq,
      List.map_map]
    rw [List.append_assoc] at hall
    exact hall

/-- `Value::ToString`. Nothing in it throws. -/
def Value.toString (g : YajlGen) (toDouble : LongDouble → LongDouble) (v : Value) :
    Except Exception (List Token) :=
  .ok (g.buf (g.issue g.alloc (serialize toDouble v)))

def FaithfulOrSignalled (result : Except Exception (List Token)) (v : Value) : Prop :=
  match result with
  | .ok text => Denotes text v
  | .error _ => True

theorem length_serialize_value_le (d : Doc) :
    (serialize toDouble d.value).length ≤ d.events.length := by
  induction d using Doc.inductionOn with
  | null => exact le_rfl
  | boolean b => exact le_rfl
  | integer n =>
    rw [Doc.value, serialize]
    split <;> exact le_rfl
  | double x =>
    rw [Doc.value, serialize]
    split <;> exact le_rfl
  | string s => exact le_rfl
  | array ds ih =>
    have hsum : (ds.map fun d => (serialize toDouble d.value).length).sum ≤
        (ds.map fun d => d.events.length).sum := List.sum_le_sum ih
    rw [Doc.value, serialize, Doc.events, serializeElements_eq, elementValues_eq,
      elementEvents_eq]
    simp only [List.length_cons, List.length_append, List.length_flatMap, List.map_map,
      Function.comp_def]
    simpa using hsum
  | object fs ih =>
    have hsum : (fs.map fun f => (serialize toDouble f.2.value).length + 1).sum ≤
        (fs.map fun f => f.2.events.length + 1).sum :=
      List.sum_le_sum fun f hf => Nat.succ_le_succ (ih f hf)
    have hkept := OrderedMap.sum_ofList_le
      (fun f : Bytes × Value => (serialize toDouble f.2).length + 1) (fieldValues fs)
    rw [fieldValues_eq, List.map_map] at hkept
    rw [Doc.value, serialize, Doc.events, serializeFields_eq, fieldEvents_eq, fieldValues_eq]
    simp only [List.length_cons, List.length_append, List.length_flatMap]
    have hle := hkept.trans hsum
    simpa using hle

theorem toString_of_fits (hg : g.Documented validUtf8) {v : Value}
    (hfits : Fits validUtf8 toDouble 1 v) :
    v.toString g toDouble = .ok (v.doc toDouble).tokens := by
  have hwrites := value_writes toDouble hg v .start [] rfl
  rw [Value.toString, hwrites.buf_issue hfits _ hg.alloc_slots, hg.alloc_buf]
  rfl

theorem Encodable.fits {v : Value} (h : Encodable validUtf8 toDouble v) :
    Fits validUtf8 toDouble 1 v := by
  refine ⟨h.strings, fun x hx => ?_, .inr h.depth⟩
  refine (h.numbers x hx).imp id fun hexact => ?_
  rw [hexact.2]
  exact hexact.1

/-- If the text denotes the value, then no call was rejected: each one has its lexeme. -/
theorem fits_of_denotes (hg : g.Documented validUtf8) {v : Value}
    (h : Denotes (g.buf (g.issue g.alloc (serialize toDouble v))) v) :
    Fits validUtf8 toDouble 1 v := by
  obtain ⟨d, hd, hvalue⟩ := h
  have hcount : (lexemes (g.buf (g.issue g.alloc (serialize toDouble v)))).length =
      d.events.length := by
    rw [← hd, lexemes_tokens, List.length_map]
  have hempty : (lexemes (g.buf g.alloc)).length = 0 := by
    rw [hg.alloc_buf]
    rfl
  have hlength := length_serialize_value_le toDouble d
  rw [hvalue] at hlength
  obtain ⟨hle, hall⟩ := g.lexemes_issue hg g.alloc (serialize toDouble v)
  have haccepted := hall (by omega)
  exact ((value_writes toDouble hg v .start [] rfl).accepts_iff _ hg.alloc_slots).mp haccepted

/-- The text denotes the value exactly when the value is encodable: then no call is rejected, and
otherwise one call is missing from the text or one number is another. -/
theorem toString_faithful_iff (hg : g.Documented validUtf8) (v : Value) (hv : v.Ordered) :
    FaithfulOrSignalled (v.toString g toDouble) v ↔ Encodable validUtf8 toDouble v := by
  constructor
  · intro h
    have hfits : Fits validUtf8 toDouble 1 v := fits_of_denotes toDouble hg h
    rw [toString_of_fits toDouble hg hfits] at h
    have hvalue : (v.doc toDouble).value = v := denotes_tokens.mp h
    have hexact := exact_of_value_doc toDouble v hv hvalue
    obtain ⟨hstrings, hnumbers, hdepth⟩ := hfits
    refine ⟨hstrings, fun x hx => ?_, by unfold maxDepth at *; omega⟩
    rcases hexact x hx with hi | hx'
    · exact .inl hi
    · refine (hnumbers x hx).imp id fun hfinite => ⟨?_, hx'⟩
      rw [hx'] at hfinite
      exact hfinite
  · intro henc
    rw [toString_of_fits toDouble hg henc.fits]
    refine denotes_tokens.mpr (value_doc toDouble v hv fun x hx => ?_)
    exact (henc.numbers x hx).imp id And.right

end Text

/-! ## A generator as documented -/

/-- `yajl_string_validate_utf8`, with the number of continuation bytes still to come. -/
def utf8From : ℕ → Bytes → Bool
  | 0, [] => true
  | _ + 1, [] => false
  | 0, b :: bs =>
    if b ≤ 0x7f then utf8From 0 bs
    else if b >>> 5 = 0x6 then utf8From 1 bs
    else if b >>> 4 = 0xe then utf8From 2 bs
    else if b >>> 3 = 0x1e then utf8From 3 bs
    else false
  | n + 1, b :: bs => decide (b >>> 6 = 0x2) && utf8From n bs

def validateUtf8 (s : Bytes) : Bool := utf8From 0 s

structure GenState where
  slots : List Slot
  buf : List Token

section Instance
variable (validUtf8 : Bytes → Bool)

def genCall (s : GenState) (c : GenCall) : GenState × Bool :=
  match s.slots with
  | [] => (s, false)
  | slot :: outer =>
    if c.closes then
      match outer with
      | [] => (s, false)
      | parent :: rest =>
        if slot = .complete then (s, false)
        else (⟨parent.afterItem :: rest, s.buf ++ [c.token]⟩, true)
    else if c.representable validUtf8 && c.fits slot then
      match c.opens with
      | none => (⟨slot.afterItem :: outer, s.buf ++ (slot.separator ++ [c.token])⟩, true)
      | some inner =>
        if outer.length + 1 < maxDepth then
          (⟨inner :: slot :: outer, s.buf ++ (slot.separator ++ [c.token])⟩, true)
        else (⟨slot :: outer, s.buf ++ slot.separator⟩, false)
    else (s, false)

def yajlGen : YajlGen where
  State := GenState
  alloc := ⟨[.start], []⟩
  call := genCall validUtf8
  slots := GenState.slots
  buf := GenState.buf

theorem closes_eq_false_of_opens {c : GenCall} {inner : Slot} (h : c.opens = some inner) :
    c.closes = false := by
  cases c <;> simp_all [GenCall.opens, GenCall.closes]

theorem representable_of_opens {c : GenCall} {inner : Slot} (h : c.opens = some inner) :
    c.representable validUtf8 = true := by
  cases c <;> simp_all [GenCall.opens, GenCall.representable]

theorem representable_of_closes {c : GenCall} (h : c.closes = true) :
    c.representable validUtf8 = true := by
  cases c <;> simp_all [GenCall.closes, GenCall.representable]

theorem lexemes_separator (slot : Slot) : lexemes slot.separator = [] := by
  cases slot <;> rfl

theorem lexemes_token (c : GenCall) : lexemes [c.token] = [c.token] := by
  cases c <;> rfl

theorem yajlGen_documented : (yajlGen validUtf8).Documented validUtf8 where
  alloc_slots := rfl
  alloc_buf := rfl
  item s slot outer c hs hclose hopen hfits hc := by
    change GenState.slots s = slot :: outer at hs
    have hcall : genCall validUtf8 s c =
        (⟨slot.afterItem :: outer, s.buf ++ (slot.separator ++ [c.token])⟩, true) := by
      simp [genCall, hs, hclose, hopen, hfits, hc]
    exact ⟨congrArg Prod.snd hcall, congrArg (GenState.buf ∘ Prod.fst) hcall,
      congrArg (GenState.slots ∘ Prod.fst) hcall⟩
  opening s slot outer c inner hs hopen hfits hlevel := by
    change GenState.slots s = slot :: outer at hs
    have hcall : genCall validUtf8 s c =
        (⟨inner :: slot :: outer, s.buf ++ (slot.separator ++ [c.token])⟩, true) := by
      simp [genCall, hs, closes_eq_false_of_opens hopen, hopen, hfits,
        representable_of_opens validUtf8 hopen, hlevel]
    exact ⟨congrArg Prod.snd hcall, congrArg (GenState.buf ∘ Prod.fst) hcall,
      congrArg (GenState.slots ∘ Prod.fst) hcall⟩
  closing s inner slot outer c hs hclose hinner := by
    change GenState.slots s = inner :: slot :: outer at hs
    have hcall : genCall validUtf8 s c =
        (⟨slot.afterItem :: outer, s.buf ++ [c.token]⟩, true) := by
      simp [genCall, hs, hclose, hinner]
    exact ⟨congrArg Prod.snd hcall, congrArg (GenState.buf ∘ Prod.fst) hcall,
      congrArg (GenState.slots ∘ Prod.fst) hcall⟩
  unrepresentable s c hc := by
    have hclose : c.closes = false := by
      by_contra h
      rw [representable_of_closes validUtf8 (by simpa using h)] at hc
      exact Bool.noConfusion hc
    change (genCall validUtf8 s c).2 = false
    unfold genCall
    split
    · rfl
    · simp [hclose, hc]
  too_deep s c hopen hdepth := by
    obtain ⟨inner, hinner⟩ := Option.isSome_iff_exists.mp hopen
    change maxDepth ≤ (GenState.slots s).length at hdepth
    change (genCall validUtf8 s c).2 = false
    unfold genCall
    split
    · rfl
    · rename_i slot outer hs
      rw [hs, List.length_cons] at hdepth
      have hlevel : ¬outer.length + 1 < maxDepth := by omega
      rw [closes_eq_false_of_opens hinner, hinner]
      simp only [if_neg hlevel, Bool.false_eq_true, if_false]
      split <;> rfl
  lexemes_call s c := by
    change (lexemes (genCall validUtf8 s c).1.buf).length =
      (lexemes s.buf).length + (genCall validUtf8 s c).2.toNat
    unfold genCall
    split
    · rfl
    · split
      · split
        · rfl
        · split
          · rfl
          · simp [lexemes_token]
      · split
        · split
          · simp [lexemes_token, lexemes_separator]
          · split
            · simp [lexemes_token, lexemes_separator]
            · simp [lexemes_separator]
        · rfl

end Instance

def keysNotUtf8 : Value := .object [([0xfe], .string (lit "k")), ([0xff], .string (lit "v"))]

/-- Both keys are rejected, and the values are written as a key and its value. -/
theorem toString_drops_keys :
    ¬FaithfulOrSignalled (keysNotUtf8.toString (yajlGen validateUtf8) id) keysNotUtf8 := by
  intro h
  have htext : Denotes (Doc.object [(lit "k", .string (lit "v"))]).tokens keysNotUtf8 := h
  rw [denotes_tokens] at htext
  exact absurd htext (by decide)

def nestedSample : Value :=
  .object [(lit "a", .array [.number (.finite 1), .array []]), (lit "b", .string [0xc3, 0xa9])]

theorem toString_faithful_nested :
    FaithfulOrSignalled (nestedSample.toString (yajlGen validateUtf8) id) nestedSample := by
  have hordered : nestedSample.Ordered := by
    simp only [nestedSample, Value.Ordered, OrderedFields, OrderedElements, Ascending, and_true]
    decide
  have hiff := toString_faithful_iff id (yajlGen_documented validateUtf8) nestedSample hordered
  exact hiff.mpr ⟨by decide, by decide, by decide⟩

end MetadataAgent.Json
