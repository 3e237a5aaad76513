import MetadataAgent.Json.Builder
import MetadataAgent.Json.Serializer

/-! # Building what was serialized

The builder, fed the events of any documents in any segmentation, delivers their values one by
one from an otherwise idle state; and the calls of `Serialize` are the events of a document with
ascending keys whose value is the value serialized. -/
namespace MetadataAgent.Json
open Lib
set_option autoImplicit false

section Segments
variable {γ ε : Type} (callback : UserCallback γ ε)

/-- Successive `ParseStream` calls: the builder lives on between them. -/
def handleSegments (b : JSONBuilder γ) : List (List Event) → JSONBuilder γ × Reply ε
  | [] => (b, .proceed)
  | segment :: segments =>
    match handleAll callback b segment with
    | (b', .proceed) => handleSegments b' segments
    | r => r

theorem handleSegments_eq (b : JSONBuilder γ) (segments : List (List Event)) :
    handleSegments callback b segments = handleAll callback b segments.flatten := by
  induction segments generalizing b with
  | nil => rfl
  | cons segment segments ih =>
    rw [handleSegments, List.flatten_cons, handleAll_append]
    cases handleAll callback b segment with
    | mk b' r =>
      cases r with
      | proceed => exact ih b'
      | cancel => rfl
      | thrown e => rfl

end Segments

mutual
def Doc.KeysAscending : Doc → Prop
  | .array ds => ElementKeysAscending ds
  | .object fs => Ascending fs ∧ FieldKeysAscending fs
  | _ => True
termination_by structural d => d

def ElementKeysAscending : List Doc → Prop
  | [] => True
  | d :: ds => d.KeysAscending ∧ ElementKeysAscending ds
termination_by structural ds => ds

def FieldKeysAscending : List (Bytes × Doc) → Prop
  | [] => True
  | (_, d) :: fs => d.KeysAscending ∧ FieldKeysAscending fs
termination_by structural fs => fs
end

theorem elementKeysAscending_map {toDouble : LongDouble → LongDouble} {vs : List Value}
    (h : ∀ v ∈ vs, (v.doc toDouble).KeysAscending) :
    ElementKeysAscending (vs.map (Value.doc toDouble)) := by
  induction vs with
  | nil => trivial
  | cons v vs ih => exact ⟨h v List.mem_cons_self, ih fun w hw => h w (List.mem_cons_of_mem _ hw)⟩

theorem fieldKeysAscending_map {toDouble : LongDouble → LongDouble} {fs : Object}
    (h : ∀ f ∈ fs, (f.2.doc toDouble).KeysAscending) :
    FieldKeysAscending (fs.map fun f => (f.1, f.2.doc toDouble)) := by
  induction fs with
  | nil => trivial
  | cons f fs ih => exact ⟨h f List.mem_cons_self, ih fun g hg => h g (List.mem_cons_of_mem _ hg)⟩

theorem keysAscending_doc (toDouble : LongDouble → LongDouble) (v : Value) (hv : v.Ordered) :
    (v.doc toDouble).KeysAscending := by
  induction v using Value.inductionOn with
  | null => trivial
  | boolean b => trivial
  | number x =>
    rw [Value.doc]
    split <;> trivial
  | string s => trivial
  | array es ih =>
    rw [Value.Ordered, orderedElements_iff] at hv
    rw [Value.doc, elementDocs_eq]
    exact elementKeysAscending_map fun e he => ih e he (hv e he)
  | object fs ih =>
    rw [Value.Ordered, orderedFields_iff] at hv
    rw [Value.doc, fieldDocs_eq]
    exact ⟨hv.1.map fun _ v => v.doc toDouble,
      fieldKeysAscending_map fun f hf => ih f hf (hv.2 f hf)⟩

theorem handleSegments_docs (docs : List Doc) (segments : List (List Event))
    (h : segments.flatten = docs.flatMap Doc.events) :
    handleSegments collect (JSONBuilder.init []) segments =
      (⟨.callback, [], docs.map Doc.value⟩, .proceed) := by
  rw [handleSegments_eq, h]
  exact handleAll_collect docs [] []

/-- The builder inverts the event streams of documents, and in particular those that
`Serialize` issues. -/
theorem builder_inverts_events (toDouble : LongDouble → LongDouble) :
    (∀ (docs : List Doc) (segments : List (List Event)),
      segments.flatten = docs.flatMap Doc.events →
      handleSegments collect (JSONBuilder.init []) segments =
        (⟨.callback, [], docs.map Doc.value⟩, .proceed) ∧
      ∀ n, handleAll collect (JSONBuilder.init []) ((docs.take n).flatMap Doc.events) =
        (⟨.callback, [], (docs.take n).map Doc.value⟩, .proceed)) ∧
    (∀ (fields : List (Bytes × Doc)) (kept : Object), (Doc.object fields).value = .object kept →
      Ascending kept ∧ ∀ k, lookup k kept = lookup k (fields.map fun f => (f.1, f.2.value))) ∧
    (∀ v : Value, serialize toDouble v = (v.doc toDouble).events.map Event.genCall) ∧
    (∀ v : Value, v.Ordered → (v.doc toDouble).KeysAscending) ∧
    (∀ v : Value, v.Ordered → (∀ x ∈ v.numbers, Exact toDouble x) →
      ∀ segments : List (List Event), segments.flatten = (v.doc toDouble).events →
        handleSegments collect (JSONBuilder.init []) segments =
          (⟨.callback, [], [v]⟩, .proceed)) := by
  refine ⟨?_, ?_, ?_, ?_, ?_⟩
  · intro docs segments h
    exact ⟨handleSegments_docs docs segments h, fun n => handleAll_collect (docs.take n) [] []⟩
  · intro fields kept h
    rw [Doc.value, Value.object.injEq] at h
    subst h
    exact ⟨OrderedMap.ascending _, lookup_value_object fields⟩
  · exact serialize_eq_events toDouble
  · exact keysAscending_doc toDouble
  · intro v hv hx segments h
    have hdoc : segments.flatten = [v.doc toDouble].flatMap Doc.events := by
      rw [List.flatMap_singleton]
      exact h
    rw [handleSegments_docs _ _ hdoc, List.map_singleton, value_doc toDouble v hv hx]

/-- The instance `{"a":[null],"a":1}` cut in the middle of the array: the first `a` is kept. -/
theorem builder_inverts_events_repeated_key :
    handleSegments collect (JSONBuilder.init [])
        [[.startMap, .mapKey (lit "a"), .startArray],
          [.null, .endArray, .mapKey (lit "a"), .integer 1, .endMap]] =
      (⟨.callback, [], [.object [(lit "a", .array [.null])]]⟩, .proceed) ∧
    handleSegments collect (JSONBuilder.init []) [[.startArray], [.boolean true, .endArray]] =
      (⟨.callback, [], [.array [.boolean true]]⟩, .proceed) := by
  refine ⟨?_, ?_⟩
  · exact ((builder_inverts_events id).1
      [.object [(lit "a", .array [.null]), (lit "a", .integer 1)]] _ rfl).1
  · exact (builder_inverts_events id).2.2.2.2 (.array [.boolean true])
      ((orderedElements_iff _).mpr (by simp [Value.Ordered]))
      (by simp [Value.numbers, elementNumbers]) _ rfl

end MetadataAgent.Json
