import MetadataAgent.Json.Doc

/-! # Serialization

`Serialize` issues one `yajl_gen_*` call for every event of the value, fields in map order.
`toDouble` is the conversion of a `long double` to `double`. `Value.doc` is the document whose
events are issued; on an ordered value with exact numbers it denotes the value itself. -/
namespace MetadataAgent.Json
open Lib
set_option autoImplicit false

inductive GenCall where
  | null
  | bool (b : Bool)
  | integer (n : Int)
  | double (d : LongDouble)
  | string (s : Bytes)
  | mapOpen
  | mapClose
  | arrayOpen
  | arrayClose
  deriving DecidableEq

/-- The generator call that writes what an event reports; a key is written as a string. -/
def Event.genCall : Event → GenCall
  | .null => .null
  | .boolean b => .bool b
  | .integer n => .integer n
  | .double d => .double d
  | .string s => .string s
  | .startMap => .mapOpen
  | .mapKey key => .string key
  | .endMap => .mapClose
  | .startArray => .arrayOpen
  | .endArray => .arrayClose

/-- `IsEffectivelyInteger<long long>`. -/
def isEffectivelyInteger : LongDouble → Bool
  | .finite q => decide (q.den = 1) && decide (-2 ^ 63 ≤ q.num) && decide (q.num ≤ 2 ^ 63 - 1)
  | _ => false

def toLongLong : LongDouble → Int
  | .finite q => q.num
  | _ => 0

theorem finite_toLongLong {x : LongDouble} (h : isEffectivelyInteger x = true) :
    .finite (toLongLong x : ℚ) = x := by
  cases x with
  | finite q =>
    simp only [isEffectivelyInteger, Bool.and_eq_true, decide_eq_true_eq] at h
    rw [toLongLong, LongDouble.finite.injEq]
    exact Rat.den_eq_one_iff q |>.mp h.1.1
  | negZero => simp [isEffectivelyInteger] at h
  | infinity b => simp [isEffectivelyInteger] at h
  | nan => simp [isEffectivelyInteger] at h

section Serialize
variable (toDouble : LongDouble → LongDouble)

mutual
def serialize : Value → List GenCall
  | .null => [.null]
  | .boolean value => [.bool value]
  | .number value =>
    if isEffectivelyInteger value then [.integer (toLongLong value)]
    else [.double (toDouble value)]
  | .string value => [.string value]
  | .array elements => .arrayOpen :: (serializeElements elements ++ [.arrayClose])
  | .object fields => .mapOpen :: (serializeFields fields ++ [.mapClose])
termination_by structural v => v

def serializeElements : List Value → List GenCall
  | [] => []
  | v :: vs => serialize v ++ serializeElements vs
termination_by structural vs => vs

def serializeFields : Object → List GenCall
  | [] => []
  | (k, v) :: fs => .string k :: (serialize v ++ serializeFields fs)
termination_by structural fs => fs
end

mutual
/-- The document that `Serialize` writes. -/
def Value.doc : Value → Doc
  | .null => .null
  | .boolean value => .boolean value
  | .number value =>
    if isEffectivelyInteger value then .integer (toLongLong value) else .double (toDouble value)
  | .string value => .string value
  | .array elements => .array (elementDocs elements)
  | .object fields => .object (fieldDocs fields)
termination_by structural v => v

def elementDocs : List Value → List Doc
  | [] => []
  | v :: vs => v.doc :: elementDocs vs
termination_by structural vs => vs

def fieldDocs : Object → List (Bytes × Doc)
  | [] => []
  | (k, v) :: fs => (k, v.doc) :: fieldDocs fs
termination_by structural fs => fs
end

theorem serializeElements_eq (vs : List Value) :
    serializeElements toDouble vs = vs.flatMap (serialize toDouble) := by
  induction vs with
  | nil => rfl
  | cons v vs ih => rw [serializeElements, ih, List.flatMap_cons]

theorem serializeFields_eq (fs : Object) :
    serializeFields toDouble fs = fs.flatMap fun f => .string f.1 :: serialize toDouble f.2 := by
  induction fs with
  | nil => rfl
  | cons f fs ih => rw [serializeFields, ih, List.flatMap_cons, List.cons_append]

theorem elementDocs_eq (vs : List Value) :
    elementDocs toDouble vs = vs.map (Value.doc toDouble) := by
  induction vs with
  | nil => rfl
  | cons v vs ih => rw [elementDocs, ih, List.map_cons]

theorem fieldDocs_eq (fs : Object) :
    fieldDocs toDouble fs = fs.map fun f => (f.1, f.2.doc toDouble) := by
  induction fs with
  | nil => rfl
  | cons f fs ih => rw [fieldDocs, ih, List.map_cons]

/-- The calls are the events of the document, in the order of its fields. -/
theorem serialize_eq_events (v : Value) :
    serialize toDouble v = (v.doc toDouble).events.map Event.genCall := by
  induction v using Value.inductionOn with
  | null => rfl
  | boolean b => rfl
  | number x =>
    rw [serialize, Value.doc]
    split <;> rfl
  | string s => rfl
  | array es ih =>
    have hbody : es.flatMap (serialize toDouble) =
        ((es.map (Value.doc toDouble)).flatMap Doc.events).map Event.genCall := by
      rw [List.flatMap_map, List.map_flatMap]
      exact List.flatMap_congr ih
    rw [serialize, Value.doc, Doc.events, serializeElements_eq, elementDocs_eq, elementEvents_eq,
      List.map_cons, List.map_append, ← hbody]
    rfl
  | object fs ih =>
    have hbody : (fs.flatMap fun f => .string f.1 :: serialize toDouble f.2) =
        ((fs.map fun f => (f.1, f.2.doc toDouble)).flatMap
          fun f => .mapKey f.1 :: f.2.events).map Event.genCall := by
      rw [List.flatMap_map, List.map_flatMap]
      apply List.flatMap_congr
      intro f hf
      rw [List.map_cons, ih f hf]
      rfl
    rw [serialize, Value.doc, Doc.events, serializeFields_eq, fieldDocs_eq, fieldEvents_eq,
      List.map_cons, List.map_append, ← hbody]
    rfl

end Serialize

/-! ## What a value contains -/

mutual
def Value.numbers : Value → List LongDouble
  | .number value => [value]
  | .array elements => elementNumbers elements
  | .object fields => fieldNumbers fields
  | _ => []
termination_by structural v => v

def elementNumbers : List Value → List LongDouble
  | [] => []
  | v :: vs => v.numbers ++ elementNumbers vs
termination_by structural vs => vs

def fieldNumbers : Object → List LongDouble
  | [] => []
  | (_, v) :: fs => v.numbers ++ fieldNumbers fs
termination_by structural fs => fs
end

mutual
def Value.strings : Value → List Bytes
  | .string value => [value]
  | .array elements => elementStrings elements
  | .object fields => fieldStrings fields
  | _ => []
termination_by structural v => v

def elementStrings : List Value → List Bytes
  | [] => []
  | v :: vs => v.strings ++ elementStrings vs
termination_by structural vs => vs

def fieldStrings : Object → List Bytes
  | [] => []
  | (k, v) :: fs => k :: (v.strings ++ fieldStrings fs)
termination_by structural fs => fs
end

mutual
def Value.depth : Value → ℕ
  | .array elements => elementsDepth elements + 1
  | .object fields => fieldsDepth fields + 1
  | _ => 0
termination_by structural v => v

def elementsDepth : List Value → ℕ
  | [] => 0
  | v :: vs => max v.depth (elementsDepth vs)
termination_by structural vs => vs

def fieldsDepth : Object → ℕ
  | [] => 0
  | (_, v) :: fs => max v.depth (fieldsDepth fs)
termination_by structural fs => fs
end

theorem mem_elementNumbers {x : LongDouble} {vs : List Value} :
    x ∈ elementNumbers vs ↔ ∃ v ∈ vs, x ∈ v.numbers := by
  induction vs with
  | nil => simp [elementNumbers]
  | cons v vs ih => simp [elementNumbers, ih]

theorem mem_fieldNumbers {x : LongDouble} {fs : Object} :
    x ∈ fieldNumbers fs ↔ ∃ f ∈ fs, x ∈ f.2.numbers := by
  induction fs with
  | nil => simp [fieldNumbers]
  | cons f fs ih => simp [fieldNumbers, ih]

theorem mem_elementStrings {s : Bytes} {vs : List Value} :
    s ∈ elementStrings vs ↔ ∃ v ∈ vs, s ∈ v.strings := by
  induction vs with
  | nil => simp [elementStrings]
  | cons v vs ih => simp [elementStrings, ih]

theorem mem_fieldStrings {s : Bytes} {fs : Object} :
    s ∈ fieldStrings fs ↔ ∃ f ∈ fs, s = f.1 ∨ s ∈ f.2.strings := by
  induction fs with
  | nil => simp [fieldStrings]
  | cons f fs ih => simp [fieldStrings, ih, or_assoc]

theorem elementsDepth_lt {n : ℕ} (hn : 0 < n) {vs : List Value} :
    elementsDepth vs < n ↔ ∀ v ∈ vs, v.depth < n := by
  induction vs with
  | nil => simpa [elementsDepth] using hn
  | cons v vs ih => simp [elementsDepth, ih]

theorem fieldsDepth_lt {n : ℕ} (hn : 0 < n) {fs : Object} :
    fieldsDepth fs < n ↔ ∀ f ∈ fs, f.2.depth < n := by
  induction fs with
  | nil => simpa [fieldsDepth] using hn
  | cons f fs ih => simp [fieldsDepth, ih]

/-- A number that the parser can have produced: a `long long` or a `double`. -/
def Exact (toDouble : LongDouble → LongDouble) (x : LongDouble) : Prop :=
  isEffectivelyInteger x = true ∨ toDouble x = x

/-- An ordered value with exact numbers is the value of its document. -/
theorem value_doc (toDouble : LongDouble → LongDouble) (v : Value) (hv : v.Ordered)
    (hx : ∀ x ∈ v.numbers, Exact toDouble x) : (v.doc toDouble).value = v := by
  induction v using Value.inductionOn with
  | null => rfl
  | boolean b => rfl
  | number x =>
    rw [Value.doc]
    by_cases hi : isEffectivelyInteger x = true
    · rw [if_pos hi, Doc.value, finite_toLongLong hi]
    · have hd := (hx x (by simp [Value.numbers])).resolve_left hi
      rw [if_neg hi, Doc.value, hd]
  | string s => rfl
  | array es ih =>
    rw [Value.Ordered, orderedElements_iff] at hv
    have hes : es.map (fun e => (e.doc toDouble).value) = es := by
      conv_rhs => rw [← List.map_id es]
      apply List.map_congr_left
      intro e he
      exact ih e he (hv e he) fun x hxe => hx x (mem_elementNumbers.mpr ⟨e, he, hxe⟩)
    rw [Value.doc, Doc.value, elementValues_eq, elementDocs_eq, List.map_map]
    exact congrArg Value.array hes
  | object fs ih =>
    rw [Value.Ordered, orderedFields_iff] at hv
    have hfs : fs.map (fun f => (f.1, (f.2.doc toDouble).value)) = fs := by
      conv_rhs => rw [← List.map_id fs]
      apply List.map_congr_left
      intro f hf
      rw [ih f hf (hv.2 f hf) fun x hxf => hx x (mem_fieldNumbers.mpr ⟨f, hf, hxf⟩)]
      rfl
    have hvalues : fieldValues (fieldDocs toDouble fs) = fs := by
      rw [fieldValues_eq, fieldDocs_eq, List.map_map]
      exact hfs
    rw [Value.doc, Doc.value, hvalues, OrderedMap.entries_ofList hv.1]

theorem exact_of_value_doc (toDouble : LongDouble → LongDouble) (v : Value) (hv : v.Ordered)
    (h : (v.doc toDouble).value = v) : ∀ x ∈ v.numbers, Exact toDouble x := by
  induction v using Value.inductionOn with
  | null => simp [Value.numbers]
  | boolean b => simp [Value.numbers]
  | number x =>
    intro y hy
    rw [Value.numbers, List.mem_singleton] at hy
    subst hy
    rw [Value.doc] at h
    by_cases hi : isEffectivelyInteger y = true
    · exact .inl hi
    · rw [if_neg hi, Doc.value, Value.number.injEq] at h
      exact .inr h
  | string s => simp [Value.numbers]
  | array es ih =>
    rw [Value.Ordered, orderedElements_iff] at hv
    rw [Value.doc, Doc.value, elementValues_eq, elementDocs_eq, List.map_map,
      Value.array.injEq] at h
    have hes : ∀ e ∈ es, (e.doc toDouble).value = e :=
      List.map_eq_map_iff.mp (h.trans (List.map_id es).symm)
    intro x hx
    obtain ⟨e, he, hxe⟩ := mem_elementNumbers.mp hx
    exact ih e he (hv e he) (hes e he) x hxe
  | object fs ih =>
    rw [Value.Ordered, orderedFields_iff] at hv
    have hascending : Ascending (fs.map fun f => (f.1, (f.2.doc toDouble).value)) :=
      hv.1.map fun _ w => (w.doc toDouble).value
    rw [Value.doc, Doc.value, fieldValues_eq, fieldDocs_eq, List.map_map, Value.object.injEq] at h
    have hfs : ∀ f ∈ fs, (f.1, (f.2.doc toDouble).value) = f :=
      List.map_eq_map_iff.mp
        (((OrderedMap.entries_ofList hascending).symm.trans h).trans (List.map_id fs).symm)
    intro x hx
    obtain ⟨f, hf, hxf⟩ := mem_fieldNumbers.mp hx
    exact ih f hf (hv.2 f hf) (congrArg Prod.snd (hfs f hf)) x hxf

end MetadataAgent.Json
