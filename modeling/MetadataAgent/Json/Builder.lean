import MetadataAgent.Json.Doc

/-! # The JSON builder

`JSONBuilder` turns SAX events into values with a stack of contexts: the root hands every
finished value to the user callback, an array context collects elements, an object context
collects fields under a pending name. The user callback works on a state `γ` of its own and may
throw an `ε`; what an error branch prints goes to `cerr`. `handleAll_doc` is the one fact about
the stack: in any context, the events of a document amount to adding its value. -/
namespace MetadataAgent.Json
open Lib
set_option autoImplicit false

inductive Diagnostic where
  | replacing (old new : Bytes)
  | valueWithoutField (value : Value)
  | notInArray
  | notInObject
  | newFieldOutsideObject (name : Bytes)
  deriving DecidableEq

inductive Context where
  | callback
  | array (parent : Context) (elements : List Value)
  | object (parent : Context) (fields : OrderedMap Bytes Value) (fieldName : Option Bytes)

structure JSONBuilder (γ : Type) where
  context : Context
  cerr : List Diagnostic
  user : γ

/-- What a `handle_*` function does: return 1, return 0, or let an exception through. -/
inductive Reply (ε : Type) where
  | proceed
  | cancel
  | thrown (e : ε)
  deriving DecidableEq

abbrev UserCallback (γ ε : Type) := γ → Value → γ × Option ε

section Builder
variable {γ ε : Type} (callback : UserCallback γ ε)

namespace JSONBuilder

def init (user : γ) : JSONBuilder γ := ⟨.callback, [], user⟩

def addValue (b : JSONBuilder γ) (v : Value) : JSONBuilder γ × Reply ε :=
  match b.context with
  | .callback =>
    match callback b.user v with
    | (user, none) => ({ b with user := user }, .proceed)
    | (user, some e) => ({ b with user := user }, .thrown e)
  | .array parent elements => ({ b with context := .array parent (elements ++ [v]) }, .proceed)
  | .object _ _ none => ({ b with cerr := b.cerr ++ [.valueWithoutField v] }, .proceed)
  | .object parent fields (some name) =>
    ({ b with context := .object parent (fields.emplace name v) none }, .proceed)

def pushArray (b : JSONBuilder γ) : JSONBuilder γ := { b with context := .array b.context [] }

def pushObject (b : JSONBuilder γ) : JSONBuilder γ :=
  { b with context := .object b.context .empty none }

def popArray (b : JSONBuilder γ) : JSONBuilder γ × Option (List Value) :=
  match b.context with
  | .array parent elements => ({ b with context := parent }, some elements)
  | _ => ({ b with cerr := b.cerr ++ [.notInArray] }, none)

def popObject (b : JSONBuilder γ) : JSONBuilder γ × Option (OrderedMap Bytes Value) :=
  match b.context with
  | .object parent fields _ => ({ b with context := parent }, some fields)
  | _ => ({ b with cerr := b.cerr ++ [.notInObject] }, none)

/-- `JSONBuilder::NewField` with `ObjectContext::NewField`. -/
def newField (b : JSONBuilder γ) (name : Bytes) : JSONBuilder γ × Bool :=
  match b.context with
  | .object parent fields none => ({ b with context := .object parent fields (some name) }, true)
  | .object parent fields (some old) =>
    ({ b with context := .object parent fields (some name),
              cerr := b.cerr ++ [.replacing old name] }, true)
  | _ => ({ b with cerr := b.cerr ++ [.newFieldOutsideObject name] }, false)

end JSONBuilder

/-! ## The callbacks -/

def handleNull (b : JSONBuilder γ) : JSONBuilder γ × Reply ε := b.addValue callback .null

def handleBool (b : JSONBuilder γ) (value : Bool) : JSONBuilder γ × Reply ε :=
  b.addValue callback (.boolean value)

def handleInteger (b : JSONBuilder γ) (value : Int) : JSONBuilder γ × Reply ε :=
  b.addValue callback (.number (.finite value))

def handleDouble (b : JSONBuilder γ) (value : LongDouble) : JSONBuilder γ × Reply ε :=
  b.addValue callback (.number value)

def handleString (b : JSONBuilder γ) (val : Bytes) : JSONBuilder γ × Reply ε :=
  b.addValue callback (.string val)

def handleStartArray (b : JSONBuilder γ) : JSONBuilder γ × Reply ε := (b.pushArray, .proceed)

def handleEndArray (b : JSONBuilder γ) : JSONBuilder γ × Reply ε :=
  match b.popArray with
  | (b', none) => (b', .cancel)
  | (b', some elements) => b'.addValue callback (.array elements)

def handleStartMap (b : JSONBuilder γ) : JSONBuilder γ × Reply ε := (b.pushObject, .proceed)

def handleMapKey (b : JSONBuilder γ) (key : Bytes) : JSONBuilder γ × Reply ε :=
  match b.newField key with
  | (b', true) => (b', .proceed)
  | (b', false) => (b', .cancel)

def handleEndMap (b : JSONBuilder γ) : JSONBuilder γ × Reply ε :=
  match b.popObject with
  | (b', none) => (b', .cancel)
  | (b', some fields) => b'.addValue callback (.object fields.entries)

/-- The table `callbacks`. -/
def handle (b : JSONBuilder γ) : Event → JSONBuilder γ × Reply ε
  | .null => handleNull callback b
  | .boolean value => handleBool callback b value
  | .integer value => handleInteger callback b value
  | .double value => handleDouble callback b value
  | .string val => handleString callback b val
  | .startMap => handleStartMap b
  | .mapKey key => handleMapKey b key
  | .endMap => handleEndMap callback b
  | .startArray => handleStartArray b
  | .endArray => handleEndArray callback b

/-- Events handled one after the other, up to the first that does not return 1. -/
def handleAll (b : JSONBuilder γ) : List Event → JSONBuilder γ × Reply ε
  | [] => (b, .proceed)
  | e :: es =>
    match handle callback b e with
    | (b', .proceed) => handleAll b' es
    | r => r

theorem handleAll_cons_proceed {b b' : JSONBuilder γ} {e : Event} (es : List Event)
    (h : handle callback b e = (b', .proceed)) :
    handleAll callback b (e :: es) = handleAll callback b' es := by
  simp only [handleAll, h]

theorem handleAll_append (b : JSONBuilder γ) (es fs : List Event) :
    handleAll callback b (es ++ fs) =
      match handleAll callback b es with
      | (b', .proceed) => handleAll callback b' fs
      | r => r := by
  induction es generalizing b with
  | nil => rfl
  | cons e es ih =>
    rw [List.cons_append, handleAll, handleAll]
    cases hh : handle callback b e with
    | mk b' r =>
      cases r with
      | proceed => exact ih b'
      | cancel => rfl
      | thrown x => rfl

/-! ## A document is its value -/

theorem handleAll_elements (ds : List Doc)
    (ih : ∀ d ∈ ds, ∀ b : JSONBuilder γ,
      handleAll callback b d.events = b.addValue callback d.value)
    (parent : Context) (acc : List Value) (cerr : List Diagnostic) (user : γ) :
    handleAll callback ⟨.array parent acc, cerr, user⟩ (ds.flatMap Doc.events) =
      (⟨.array parent (acc ++ ds.map Doc.value), cerr, user⟩, .proceed) := by
  induction ds generalizing acc with
  | nil => simp [handleAll]
  | cons d ds ihds =>
    rw [List.flatMap_cons, handleAll_append, ih d List.mem_cons_self]
    simp only [JSONBuilder.addValue]
    rw [ihds (fun e he => ih e (List.mem_cons_of_mem _ he))]
    simp

/-- In an object context without a pending name, the fields are emplaced one by one. -/
theorem handleAll_fields (fs : List (Bytes × Doc))
    (ih : ∀ f ∈ fs, ∀ b : JSONBuilder γ,
      handleAll callback b f.2.events = b.addValue callback f.2.value)
    (parent : Context) (m : OrderedMap Bytes Value) (cerr : List Diagnostic) (user : γ) :
    handleAll callback ⟨.object parent m none, cerr, user⟩
        (fs.flatMap fun f => .mapKey f.1 :: f.2.events) =
      (⟨.object parent ((fs.map fun f => (f.1, f.2.value)).foldl
          (fun m f => m.emplace f.1 f.2) m) none, cerr, user⟩, .proceed) := by
  induction fs generalizing m with
  | nil => rfl
  | cons f fs ihfs =>
    have hkey : handle callback ⟨.object parent m none, cerr, user⟩ (.mapKey f.1) =
        (⟨.object parent m (some f.1), cerr, user⟩, .proceed) := rfl
    rw [List.flatMap_cons, List.cons_append, handleAll_cons_proceed callback _ hkey,
      handleAll_append, ih f List.mem_cons_self]
    simp only [JSONBuilder.addValue]
    rw [ihfs (fun g hg => ih g (List.mem_cons_of_mem _ hg)), List.map_cons, List.foldl_cons]

/-- The events of a document, in whatever context, add its value to that context. -/
theorem handleAll_doc (d : Doc) (b : JSONBuilder γ) :
    handleAll callback b d.events = b.addValue callback d.value := by
  have hlast : ∀ (b : JSONBuilder γ) (e : Event),
      handleAll callback b [e] = handle callback b e := by
    intro b e
    rw [handleAll]
    cases handle callback b e with
    | mk b' r => cases r <;> rfl
  induction d using Doc.inductionOn generalizing b with
  | null => exact hlast b _
  | boolean x => exact hlast b _
  | integer n => exact hlast b _
  | double x => exact hlast b _
  | string s => exact hlast b _
  | array ds ih =>
    have hstart : handle callback b .startArray =
        (⟨.array b.context [], b.cerr, b.user⟩, .proceed) := rfl
    rw [Doc.events, handleAll_cons_proceed callback _ hstart, handleAll_append, elementEvents_eq,
      handleAll_elements callback ds ih]
    simp only [List.nil_append]
    rw [hlast, Doc.value, elementValues_eq]
    rfl
  | object fs ih =>
    have hstart : handle callback b .startMap =
        (⟨.object b.context .empty none, b.cerr, b.user⟩, .proceed) := rfl
    rw [Doc.events, handleAll_cons_proceed callback _ hstart, handleAll_append, fieldEvents_eq,
      handleAll_fields callback fs ih]
    simp only
    rw [hlast, Doc.value, fieldValues_eq]
    rfl

end Builder

/-! ## Streams of values -/

/-- A callback that keeps what it is given, as the lambda in `Parser::AllFromStream` does. -/
def collect : UserCallback (List Value) Empty := fun values v => (values ++ [v], none)

theorem handleAll_collect (ds : List Doc) (cerr : List Diagnostic) (values : List Value) :
    handleAll collect ⟨.callback, cerr, values⟩ (ds.flatMap Doc.events) =
      (⟨.callback, cerr, values ++ ds.map Doc.value⟩, .proceed) := by
  induction ds generalizing values with
  | nil => simp [handleAll]
  | cons d ds ih =>
    rw [List.flatMap_cons, handleAll_append, handleAll_doc]
    simp only [JSONBuilder.addValue, collect]
    rw [ih]
    simp

end MetadataAgent.Json
