import MetadataAgent.Bytes
import Mathlib.Algebra.Group.Int.Defs
import Mathlib.Data.Rat.Defs

/-! # JSON values

`json::Value` and its field accessors. The fields of an object are the entries of a
`std::map`; `Ordered` says that they are, at every level. A `unique_ptr` that may be null is an
`Option Value`, so a `Value` never has a null pointer among its children. -/
namespace MetadataAgent.Json
open Lib
set_option autoImplicit false

/-! ## Values -/

inductive LongDouble where
  | finite (q : ℚ)
  | negZero
  | infinity (negative : Bool)
  | nan
  deriving DecidableEq

inductive Value where
  | null
  | boolean (value : Bool)
  | number (value : LongDouble)
  | string (value : Bytes)
  | array (elements : List Value)
  | object (fields : List (Bytes × Value))

abbrev Object := List (Bytes × Value)

mutual
/-- Equality test, the basis of the decidable equality below. -/
def Value.beq : Value → Value → Bool
  | .null, .null => true
  | .boolean a, .boolean b => a == b
  | .number a, .number b => a == b
  | .string a, .string b => a == b
  | .array a, .array b => beqElements a b
  | .object a, .object b => beqFields a b
  | _, _ => false
termination_by structural v => v

def beqElements : List Value → List Value → Bool
  | [], [] => true
  | v :: vs, w :: ws => v.beq w && beqElements vs ws
  | _, _ => false
termination_by structural vs => vs

def beqFields : Object → Object → Bool
  | [], [] => true
  | (j, v) :: vs, (k, w) :: ws => j == k && v.beq w && beqFields vs ws
  | _, _ => false
termination_by structural vs => vs
end

mutual
theorem Value.beq_iff : ∀ v w : Value, v.beq w = true ↔ v = w
  | .null, w => by cases w <;> simp [Value.beq]
  | .boolean a, w => by cases w <;> simp [Value.beq]
  | .number a, w => by cases w <;> simp [Value.beq]
  | .string a, w => by cases w <;> simp [Value.beq]
  | .array a, w => by cases w <;> simp [Value.beq, beqElements_iff a]
  | .object a, w => by cases w <;> simp [Value.beq, beqFields_iff a]
termination_by structural v => v

theorem beqElements_iff : ∀ vs ws : List Value, beqElements vs ws = true ↔ vs = ws
  | [], ws => by cases ws <;> simp [beqElements]
  | v :: vs, ws => by cases ws <;> simp [beqElements, v.beq_iff, beqElements_iff vs]
termination_by structural vs => vs

theorem beqFields_iff : ∀ vs ws : Object, beqFields vs ws = true ↔ vs = ws
  | [], ws => by cases ws <;> simp [beqFields]
  | (j, v) :: vs, ws => by
    cases ws <;> simp [beqFields, v.beq_iff, beqFields_iff vs, Prod.ext_iff]
termination_by structural vs => vs
end

instance : DecidableEq Value := fun v w => decidable_of_iff _ (v.beq_iff w)

mutual
/-- Every object is the entry list of a map: keys strictly ascending. -/
def Value.Ordered : Value → Prop
  | .array elements => OrderedElements elements
  | .object fields => Ascending fields ∧ OrderedFields fields
  | _ => True
termination_by structural v => v

def OrderedElements : List Value → Prop
  | [] => True
  | v :: vs => v.Ordered ∧ OrderedElements vs
termination_by structural vs => vs

def OrderedFields : Object → Prop
  | [] => True
  | (_, v) :: fs => v.Ordered ∧ OrderedFields fs
termination_by structural fs => fs
end

theorem orderedElements_iff (vs : List Value) : OrderedElements vs ↔ ∀ v ∈ vs, v.Ordered := by
  induction vs with
  | nil => simp [OrderedElements]
  | cons v vs ih => simp [OrderedElements, ih]

theorem orderedFields_iff (fs : Object) : OrderedFields fs ↔ ∀ f ∈ fs, f.2.Ordered := by
  induction fs with
  | nil => simp [OrderedFields]
  | cons f fs ih => simp [OrderedFields, ih]

/-- Induction over a value with the hypothesis at every child. -/
@[elab_as_elim]
theorem Value.inductionOn {P : Value → Prop} (v : Value) (null : P .null)
    (boolean : ∀ b, P (.boolean b)) (number : ∀ x, P (.number x)) (string : ∀ s, P (.string s))
    (array : ∀ es : List Value, (∀ e ∈ es, P e) → P (.array es))
    (object : ∀ fs : Object, (∀ f ∈ fs, P f.2) → P (.object fs)) : P v := by
  refine Value.rec (motive_1 := P) (motive_2 := fun es => ∀ e ∈ es, P e)
    (motive_3 := fun fs => ∀ f ∈ fs, P f.2) (motive_4 := fun f => P f.2)
    null boolean number string array object ?_ ?_ ?_ ?_ ?_ v
  · intro e he
    cases he
  · intro e es he hes a ha
    rcases List.mem_cons.mp ha with rfl | ha
    · exact he
    · exact hes a ha
  · intro f hf
    cases hf
  · intro f fs hf hfs a ha
    rcases List.mem_cons.mp ha with rfl | ha
    · exact hf
    · exact hfs a ha
  · intro k v hv
    exact hv

/-! ## Factories -/

/-- `json::object`: fields in initializer order, null pointers discarded, the first field of a
name kept. -/
def object (fields : List (Bytes × Option Value)) : Value :=
  .object (OrderedMap.ofList (fields.filterMap fun f => f.2.map (Prod.mk f.1))).entries

/-- `json::array`: null pointers discarded. -/
def array (elements : List (Option Value)) : Value := .array (elements.filterMap id)

/-! ## Exceptions -/

inductive JsonType where
  | null | boolean | number | string | array | object
  deriving DecidableEq

def JsonType.name : JsonType → Bytes
  | .null => lit "null"
  | .boolean => lit "boolean"
  | .number => lit "number"
  | .string => lit "string"
  | .array => lit "array"
  | .object => lit "object"

/-- `ArticleHelper<F>::value`, chosen by the first letter. -/
def article (name : Bytes) : Bytes :=
  if name.head? ∈ (lit "aeiou").map some then lit "an" else lit "a"

/-- `json::Exception`, by what its text is made of. -/
inductive Exception where
  | noField (field : Bytes) (object : Object)
  | fieldType (field : Bytes) (value : Value) (type : JsonType)
  | valueType (value : Value) (type : JsonType)
  | text (what : Bytes)
  deriving DecidableEq

def Exception.what (toString : Value → Bytes) : Exception → Bytes
  | .noField field object =>
    lit "There is no " ++ field ++ lit " in " ++ toString (.object object)
  | .fieldType field value type =>
    field ++ lit " " ++ toString value ++ lit " is not " ++ article type.name ++ lit " " ++
      type.name
  | .valueType value type =>
    toString value ++ lit " is not " ++ article type.name ++ lit " " ++ type.name
  | .text what => what

/-! ## Accessors -/

def Value.asBoolean? : Value → Option Bool
  | .boolean b => some b
  | _ => none

def Value.asNumber? : Value → Option LongDouble
  | .number x => some x
  | _ => none

def Value.asString? : Value → Option Bytes
  | .string s => some s
  | _ => none

def Value.asArray? : Value → Option (List Value)
  | .array elements => some elements
  | _ => none

def Value.asObject? : Value → Option Object
  | .object fields => some fields
  | _ => none

section Accessors
variable {α : Type}

/-- `Value::As<T>`, with the view of `T` and its type tag. -/
def as (view : Value → Option α) (type : JsonType) (v : Value) : Except Exception α :=
  match view v with
  | some a => .ok a
  | none => .error (.valueType v type)

/-- `Object::Get<T>`. -/
def get (view : Value → Option α) (type : JsonType) (o : Object) (field : Bytes) :
    Except Exception α :=
  match lookup field o with
  | none => .error (.noField field o)
  | some v =>
    match view v with
    | some a => .ok a
    | none => .error (.fieldType field v type)

theorem as_eq_ok {view : Value → Option α} {type : JsonType} {v : Value} {a : α} :
    as view type v = .ok a ↔ view v = some a := by
  unfold as
  cases view v <;> simp

theorem get_eq_ok {view : Value → Option α} {type : JsonType} {o : Object} {field : Bytes}
    {a : α} : get view type o field = .ok a ↔ (lookup field o).bind view = some a := by
  unfold get
  cases lookup field o with
  | none => simp
  | some v => cases hv : view v <;> simp [hv]

end Accessors

def asObject : Value → Except Exception Object := as Value.asObject? .object

/-- `Object::Has`. -/
def has (o : Object) (field : Bytes) : Bool := (lookup field o).isSome

def getBoolean : Object → Bytes → Except Exception Bool := get Value.asBoolean? .boolean
def getNumber : Object → Bytes → Except Exception LongDouble := get Value.asNumber? .number
def getString : Object → Bytes → Except Exception Bytes := get Value.asString? .string
def getArray : Object → Bytes → Except Exception (List Value) := get Value.asArray? .array
def getObject : Object → Bytes → Except Exception Object := get Value.asObject? .object

theorem asObject_eq_ok {v : Value} {o : Object} : asObject v = .ok o ↔ v = .object o := by
  rw [asObject, as_eq_ok]
  cases v <;> simp [Value.asObject?]

theorem getObject_eq_ok {o p : Object} {field : Bytes} :
    getObject o field = .ok p ↔ lookup field o = some (.object p) := by
  rw [getObject, get_eq_ok, Option.bind_eq_some_iff]
  constructor
  · rintro ⟨v, hv, hp⟩
    cases v <;> simp [Value.asObject?] at hp
    rw [hv, hp]
  · intro h
    exact ⟨_, h, rfl⟩

theorem getString_eq_ok {o : Object} {field s : Bytes} :
    getString o field = .ok s ↔ lookup field o = some (.string s) := by
  rw [getString, get_eq_ok, Option.bind_eq_some_iff]
  constructor
  · rintro ⟨v, hv, hs⟩
    cases v <;> simp [Value.asString?] at hs
    rw [hv, hs]
  · intro h
    exact ⟨_, h, rfl⟩

end MetadataAgent.Json
