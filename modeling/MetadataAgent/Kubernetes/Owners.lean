import MetadataAgent.Environment
import MetadataAgent.Http
import MetadataAgent.Lib.Failing
import MetadataAgent.Lib.Iteration

/-! # Owners and top-level controllers

The reader asks the Kubernetes master for the owner of an object and keeps the answers in two
caches. The master answers each query from its number and its path. `GetOwner` and
`FindTopLevelController` declare `QueryException` and `json::Exception`; `KindPath` throws a
string for a kind that the API list does not have, and nothing catches it. -/
namespace MetadataAgent.KubernetesReader
open Lib Json
set_option autoImplicit false

/-! ## Queries -/

/-- `QueryException`, and whether it is a `NonRetriableError`. -/
structure QueryException where
  what : Bytes
  nonRetriable : Bool
  deriving DecidableEq

inductive Thrown where
  | json (e : Exception)
  | query (e : QueryException)
  | string (s : Bytes)
  deriving DecidableEq

/-- `throw(QueryException, json::Exception)`. -/
def Thrown.declared : Thrown → Prop
  | .json _ => True
  | .query _ => True
  | .string _ => False

/-- The master's answer with its parsed body, or a `system_error`. -/
inductive Response where
  | answer (status : ℤ) (statusMessage : Bytes) (body : Except Exception Value)
  | failure (what : Bytes)

/-- The mutable members that queries use, and the number of queries made. -/
structure ReaderState where
  versionToKindToName : OrderedMap Bytes (OrderedMap Bytes Bytes)
  owners : OrderedMap Bytes Value
  queries : ℕ

abbrev Master := ℕ → Bytes → Response

section Owners
variable (config : Configuration) (master : Master)

def queryMaster (path : Bytes) (w : ReaderState) : Except Thrown Value × ReaderState :=
  let endpoint := config.kubernetesEndpointHost ++ path
  let next := { w with queries := w.queries + 1 }
  match master w.queries path with
  | .answer status statusMessage body =>
    if 400 ≤ status ∧ status ≤ 403 then
      (.error (.query ⟨serverResponded status statusMessage, true⟩), next)
    else if 300 ≤ status then
      (.error (.query ⟨endpoint ++ lit " -> " ++ serverResponded status statusMessage ++
        lit ": Transport endpoint is not connected", false⟩), next)
    else (body.mapError .json, next)
  | .failure what => (.error (.query ⟨endpoint ++ lit " -> " ++ what, false⟩), next)

theorem queryMaster_declared {path : Bytes} {w : ReaderState} {e : Thrown}
    (h : (queryMaster config master path w).1 = .error e) : e.declared := by
  unfold queryMaster at h
  split at h
  · rename_i status statusMessage body _
    split at h
    · rw [← Except.error.inj h]
      trivial
    · split at h
      · rw [← Except.error.inj h]
        trivial
      · cases body with
        | ok v => cases h
        | error x =>
          rw [← Except.error.inj h]
          trivial
  · rw [← Except.error.inj h]
    trivial

/-! ## Kinds -/

/-- `/api/v1`, or `/apis/` for a version with a group. -/
def apiPath (version : Bytes) : Bytes :=
  (if 0x2f ∈ version then lit "/apis" else lit "/api") ++ lit "/" ++ version

/-- What an element of an API list adds: nothing if its name has a slash. -/
def kindEntry (element : Value) : Except Exception (Option (Bytes × Bytes)) := do
  let resource ← asObject element
  let resourceName ← getString resource (lit "name")
  if 0x2f ∈ resourceName then return none
  let resourceKind ← getString resource (lit "kind")
  return some (resourceKind, resourceName)

/-- The loop over the API list; a malformed element ends it, and what was added stays. -/
def collectKinds (kindToName : OrderedMap Bytes Bytes) : List Value → OrderedMap Bytes Bytes
  | [] => kindToName
  | element :: rest =>
    match kindEntry element with
    | .error _ => kindToName
    | .ok none => collectKinds kindToName rest
    | .ok (some (kind, name)) => collectKinds (kindToName.emplace kind name) rest

def apiKinds (response : Value) : OrderedMap Bytes Bytes :=
  match asObject response with
  | .error _ => .empty
  | .ok list =>
    match getArray list (lit "resources") with
    | .error _ => .empty
    | .ok elements => collectKinds .empty elements

/-- The first half of `KindPath`: a version that is new gets its slot, and the answer of the
master goes into it. All exceptions are caught. -/
def loadKinds (version : Bytes) (w : ReaderState) : ReaderState :=
  match w.versionToKindToName.find version with
  | some _ => w
  | none =>
    let opened :=
      { w with versionToKindToName := w.versionToKindToName.emplace version .empty }
    match queryMaster config master (apiPath version) opened with
    | (.error _, w) => w
    | (.ok response, w) =>
      { w with
        versionToKindToName := w.versionToKindToName.assign version (apiKinds response) }

def ReaderState.kindName (w : ReaderState) (version kind : Bytes) : Option Bytes :=
  (w.versionToKindToName.find version).bind fun kindToName => kindToName.find kind

def kindPath (version kind : Bytes) (w : ReaderState) :
    Except Thrown (Bytes × Bytes) × ReaderState :=
  let w := loadKinds config master version w
  match w.kindName version kind with
  | none => (.error (.string (lit "Unknown kind: " ++ kind)), w)
  | some name => (.ok (apiPath version, name), w)

/-! ## Owners -/

structure OwnerRef where
  apiVersion : Bytes
  kind : Bytes
  name : Bytes
  uid : Bytes

def ownerRef (o : Object) : Except Exception OwnerRef := do
  let apiVersion ← getString o (lit "apiVersion")
  let kind ← getString o (lit "kind")
  let name ← getString o (lit "name")
  let uid ← getString o (lit "uid")
  return ⟨apiVersion, kind, name, uid⟩

def OwnerRef.encoded (ref : OwnerRef) : Bytes :=
  [0x2f].intercalate [ref.apiVersion, ref.kind, ref.uid]

def ownerPath (path ns kindName name : Bytes) : Bytes :=
  path ++ lit "/namespaces/" ++ ns ++ lit "/" ++ kindName ++ lit "/" ++ name

def objectUid (owner : Value) : Except Exception Bytes := do
  let ownerObj ← asObject owner
  let metadata ← getObject ownerObj (lit "metadata")
  getString metadata (lit "uid")

def getOwner (ns : Bytes) (ownerRefObject : Object) (w : ReaderState) :
    Except Thrown Value × ReaderState :=
  match ownerRef ownerRefObject with
  | .error e => (.error (.json e), w)
  | .ok ref =>
    match w.owners.find ref.encoded with
    | some owner => (.ok owner, w)
    | none =>
      match kindPath config master ref.apiVersion ref.kind w with
      | (.error e, w) => (.error e, w)
      | (.ok (path, kindName), w) =>
        match queryMaster config master (ownerPath path ns kindName ref.name) w with
        | (.error e, w) => (.error e, w)
        | (.ok owner, w) =>
          match objectUid owner with
          | .error e => (.error (.json e), w)
          | .ok ownerUid =>
            if ownerUid = ref.uid then
              (.ok owner, { w with owners := w.owners.emplace ref.encoded owner })
            else
              (.error (.query ⟨lit "Owner " ++ ref.kind ++ lit " " ++ ref.name ++ lit " (id " ++
                ref.uid ++ lit ") disappeared", false⟩), w)

/-! ## Controllers -/

def firstController : List Value → Except Exception (Option Object)
  | [] => return none
  | ref :: rest => do
    let refObj ← asObject ref
    if has refObj (lit "controller") then
      let controller ← getBoolean refObj (lit "controller")
      if controller then return some refObj else firstController rest
    else firstController rest

def controllerRef (object : Value) : Except Exception (Option Object) := do
  let obj ← asObject object
  let metadata ← getObject obj (lit "metadata")
  if !has metadata (lit "ownerReferences") then return none
  let refs ← getArray metadata (lit "ownerReferences")
  firstController refs

/-- `none` when `fuel` owners have been followed without an end. -/
def findTopLevelController (fuel : ℕ) (ns : Bytes) (object : Value) (w : ReaderState) :
    Option (Except Thrown Value × ReaderState) :=
  match fuel with
  | 0 => none
  | fuel + 1 =>
    match controllerRef object with
    | .error e => some (.error (.json e), w)
    | .ok none => some (.ok object, w)
    | .ok (some ref) =>
      match getOwner config master ns ref w with
      | (.error e, w) => some (.error e, w)
      | (.ok owner, w) => findTopLevelController fuel ns owner w

/-! ## What `GetOwner` finds, and what it throws -/

/-- The reference is in the owners cache, or the master serves the owner it names: its kind has a
name, the answer is a success, and the object still has the uid. -/
inductive OwnerFound (ns : Bytes) (w : ReaderState) (o : Object) : ReaderState → Value → Prop
  | cached {ref : OwnerRef} {owner : Value} (href : ownerRef o = .ok ref)
      (hcached : w.owners.find ref.encoded = some owner) : OwnerFound ns w o w owner
  | served {ref : OwnerRef} {kindName : Bytes} {w' : ReaderState} {owner : Value}
      (href : ownerRef o = .ok ref) (huncached : w.owners.find ref.encoded = none)
      (hkind : (loadKinds config master ref.apiVersion w).kindName ref.apiVersion ref.kind =
        some kindName)
      (hanswer : queryMaster config master (ownerPath (apiPath ref.apiVersion) ns kindName ref.name)
        (loadKinds config master ref.apiVersion w) = (.ok owner, w'))
      (huid : objectUid owner = .ok ref.uid) :
      OwnerFound ns w o { w' with owners := w'.owners.emplace ref.encoded owner } owner

/-- The API list of a version: the cached one, or the one that the master returns now. -/
def apiList (version : Bytes) (w : ReaderState) : OrderedMap Bytes Bytes :=
  match w.versionToKindToName.find version with
  | some kindToName => kindToName
  | none =>
    match (queryMaster config master (apiPath version) w).1 with
    | .ok response => apiKinds response
    | .error _ => .empty

/-- The kind of a well-formed reference that is not in the owners cache is in the API list of its
version. -/
def KindKnown (w : ReaderState) (o : Object) : Prop :=
  ∀ ref, ownerRef o = .ok ref → w.owners.find ref.encoded = none →
    ((apiList config master ref.apiVersion w).find ref.kind).isSome = true

/-- A query changes nothing but the number of queries, and its answer depends on nothing else. -/
theorem queryMaster_eq (path : Bytes) (w w' : ReaderState) (h : w.queries = w'.queries) :
    queryMaster config master path w =
      ((queryMaster config master path w').1, { w with queries := w.queries + 1 }) := by
  unfold queryMaster
  rw [h]
  cases master w'.queries path with
  | answer status statusMessage body =>
    simp only
    split
    · rfl
    · split <;> rfl
  | failure what => rfl

/-- After the first half of `KindPath`, the slot of the version has its API list. -/
theorem find_loadKinds (version v : Bytes) (w : ReaderState) :
    (loadKinds config master version w).versionToKindToName.find v =
      if v = version then some (apiList config master version w)
      else w.versionToKindToName.find v := by
  unfold loadKinds apiList
  cases hslot : w.versionToKindToName.find version with
  | some kindToName =>
    by_cases hv : v = version
    · rw [if_pos hv, hv, hslot]
    · rw [if_neg hv]
  | none =>
    have hquery := queryMaster_eq config master (apiPath version)
      { w with versionToKindToName := w.versionToKindToName.emplace version .empty } w rfl
    cases hanswer : (queryMaster config master (apiPath version) w).1 with
    | error e =>
      simp only [hquery, hanswer]
      rw [OrderedMap.find_emplace, hslot, Option.getD_none]
      by_cases hv : v = version
      · rw [if_pos hv, if_pos hv]
      · rw [if_neg hv, if_neg hv]
    | ok response =>
      simp only [hquery, hanswer]
      rw [OrderedMap.find_assign, OrderedMap.find_emplace]
      by_cases hv : v = version
      · rw [if_pos hv, if_pos hv]
      · rw [if_neg hv, if_neg hv, if_neg hv]

theorem kindName_loadKinds (version kind : Bytes) (w : ReaderState) :
    (loadKinds config master version w).kindName version kind =
      (apiList config master version w).find kind := by
  rw [ReaderState.kindName, find_loadKinds, if_pos rfl, Option.bind_some]

theorem getOwner_eq_ok {ns : Bytes} {o : Object} {w w' : ReaderState} {owner : Value} :
    getOwner config master ns o w = (.ok owner, w') ↔ OwnerFound config master ns w o w' owner := by
  constructor
  · intro h
    unfold getOwner at h
    split at h
    · cases h
    · rename_i ref href
      split at h
      · rename_i owner' hcached
        obtain ⟨rfl, rfl⟩ : owner' = owner ∧ w = w' := by simpa using h
        exact .cached href hcached
      · rename_i huncached
        rw [kindPath] at h
        cases hkind : (loadKinds config master ref.apiVersion w).kindName ref.apiVersion
            ref.kind with
        | none => simp [hkind] at h
        | some kindName =>
          simp only [hkind] at h
          split at h
          · cases h
          · rename_i owner' w₂ hanswer
            split at h
            · cases h
            · rename_i ownerUid huid
              split at h
              · rename_i hsame
                obtain ⟨rfl, rfl⟩ : owner' = owner ∧
                    { w₂ with owners := w₂.owners.emplace ref.encoded owner' } = w' := by
                  simpa using h
                exact .served href huncached hkind hanswer (hsame ▸ huid)
              · cases h
  · intro h
    cases h with
    | cached href hcached => simp [getOwner, href, hcached]
    | served href huncached hkind hanswer huid =>
      simp [getOwner, kindPath, href, huncached, hkind, hanswer, huid]

/-- `GetOwner` keeps to its exceptions exactly when the kind is known. -/
theorem getOwner_declared_iff (ns : Bytes) (o : Object) (w : ReaderState) :
    (∀ e w', getOwner config master ns o w = (.error e, w') → e.declared) ↔
      KindKnown config master w o := by
  constructor
  · intro h ref href huncached
    by_contra hkind
    rw [Bool.not_eq_true, Option.isSome_eq_false_iff, Option.isNone_iff_eq_none,
      ← kindName_loadKinds] at hkind
    have hthrown : getOwner config master ns o w =
        (.error (.string (lit "Unknown kind: " ++ ref.kind)),
          loadKinds config master ref.apiVersion w) := by
      simp [getOwner, kindPath, href, huncached, hkind]
    exact h _ _ hthrown
  · intro hknown e w' h
    unfold getOwner at h
    split at h
    · rw [Prod.mk.injEq, Except.error.injEq] at h
      rw [← h.1]
      trivial
    · rename_i ref href
      split at h
      · cases h
      · rename_i huncached
        obtain ⟨kindName, hkind⟩ := Option.isSome_iff_exists.mp (hknown ref href huncached)
        rw [← kindName_loadKinds] at hkind
        rw [kindPath] at h
        simp only [hkind] at h
        split at h
        · rename_i e' w₂ hanswer
          rw [Prod.mk.injEq, Except.error.injEq] at h
          rw [← h.1]
          exact queryMaster_declared config master (congrArg Prod.fst hanswer)
        · split at h
          · rw [Prod.mk.injEq, Except.error.injEq] at h
            rw [← h.1]
            trivial
          · split at h
            · cases h
            · rw [Prod.mk.injEq, Except.error.injEq] at h
              rw [← h.1]
              trivial

/-! ## The chain of controllers -/

/-- `t` is the controller of `s`, each with the state of the caches when it is looked at. -/
def Controls (ns : Bytes) (s t : Value × ReaderState) : Prop :=
  ∃ ref, controllerRef s.1 = .ok (some ref) ∧ OwnerFound config master ns s.2 ref t.2 t.1

/-- No controller reference met on the way up has an unknown kind. -/
def KindsKnown (ns : Bytes) (s : Value × ReaderState) : Prop :=
  ∀ t, Relation.ReflTransGen (Controls config master ns) s t →
    ∀ ref, controllerRef t.1 = .ok (some ref) → KindKnown config master t.2 ref

def ChainEnds (ns : Bytes) (s : Value × ReaderState) : Prop :=
  Acc (fun t u => Controls config master ns u t) s

/-- One level of `FindTopLevelController`. -/
def controllerStep (ns : Bytes) (s : Value × ReaderState) :
    (Except Thrown Value × ReaderState) ⊕ (Value × ReaderState) :=
  match controllerRef s.1 with
  | .error e => .inl (.error (.json e), s.2)
  | .ok none => .inl (.ok s.1, s.2)
  | .ok (some ref) =>
    match getOwner config master ns ref s.2 with
    | (.error e, w) => .inl (.error e, w)
    | (.ok owner, w) => .inr (owner, w)

theorem findTopLevelController_eq_iterate (fuel : ℕ) (ns : Bytes) (object : Value)
    (w : ReaderState) :
    findTopLevelController config master fuel ns object w =
      iterate (controllerStep config master ns) fuel (object, w) := by
  induction fuel generalizing object w with
  | zero => rfl
  | succ fuel ih =>
    rw [findTopLevelController, iterate, controllerStep]
    cases controllerRef object with
    | error e => rfl
    | ok r =>
      cases r with
      | none => rfl
      | some ref =>
        simp only
        cases hget : getOwner config master ns ref w with
        | mk result w' =>
          cases result with
          | error e => rfl
          | ok owner => exact ih owner w'

theorem goesTo_iff (ns : Bytes) (s t : Value × ReaderState) :
    GoesTo (controllerStep config master ns) s t ↔ Controls config master ns s t := by
  unfold GoesTo controllerStep Controls
  cases controllerRef s.1 with
  | error e => simp
  | ok r =>
    cases r with
    | none => simp
    | some ref =>
      simp only [Except.ok.injEq, Option.some.injEq, exists_eq_left']
      rw [← getOwner_eq_ok]
      cases hget : getOwner config master ns ref s.2 with
      | mk result w =>
        cases result with
        | error e => simp
        | ok owner => simp [Prod.ext_iff]

theorem controllerStep_declared_iff (ns : Bytes) (s : Value × ReaderState) :
    (∀ e w, controllerStep config master ns s = .inl (.error e, w) → e.declared) ↔
      ∀ ref, controllerRef s.1 = .ok (some ref) → KindKnown config master s.2 ref := by
  unfold controllerStep
  cases controllerRef s.1 with
  | error e =>
    simp only [Sum.inl.injEq, Prod.mk.injEq, Except.error.injEq, reduceCtorEq, false_implies,
      implies_true, iff_true]
    rintro e' w ⟨rfl, _⟩
    trivial
  | ok r =>
    cases r with
    | none => simp
    | some ref =>
      simp only [Except.ok.injEq, Option.some.injEq, forall_eq']
      rw [← getOwner_declared_iff config master ns]
      cases hget : getOwner config master ns ref s.2 with
      | mk result w =>
        cases result with
        | error e => simp
        | ok owner => simp

theorem reflTransGen_goesTo (ns : Bytes) :
    Relation.ReflTransGen (GoesTo (controllerStep config master ns)) =
      Relation.ReflTransGen (Controls config master ns) := by
  have hrel : GoesTo (controllerStep config master ns) = Controls config master ns := by
    funext s t
    exact propext (goesTo_iff config master ns s t)
  rw [hrel]

theorem findTopLevelController_declared_iff (ns : Bytes) (object : Value) (w : ReaderState) :
    (∀ fuel e w', findTopLevelController config master fuel ns object w = some (.error e, w') →
      e.declared) ↔ KindsKnown config master ns (object, w) := by
  simp only [findTopLevelController_eq_iterate]
  constructor
  · intro h t ht
    rw [← reflTransGen_goesTo] at ht
    rw [← controllerStep_declared_iff config master ns]
    intro e w' hstep
    obtain ⟨fuel, hfuel⟩ := iterate_of_reached ht hstep
    exact h fuel e w' hfuel
  · intro h fuel e w' hfuel
    obtain ⟨t, ht, hstep⟩ := reached_of_iterate hfuel
    rw [reflTransGen_goesTo] at ht
    exact (controllerStep_declared_iff config master ns t).mpr (h t ht) e w' hstep

theorem findTopLevelController_ends_iff (ns : Bytes) (object : Value) (w : ReaderState) :
    (∃ fuel r, findTopLevelController config master fuel ns object w = some r) ↔
      ChainEnds config master ns (object, w) := by
  simp only [findTopLevelController_eq_iterate]
  rw [iterate_isSome_iff_acc, ChainEnds]
  simp only [goesTo_iff]

theorem findTopLevelController_unique {m n : ℕ} {ns : Bytes} {object : Value} {w : ReaderState}
    {r r' : Except Thrown Value × ReaderState}
    (h : findTopLevelController config master m ns object w = some r)
    (h' : findTopLevelController config master n ns object w = some r') : r = r' := by
  rw [findTopLevelController_eq_iterate] at h h'
  exact iterate_unique h h'

end Owners

end MetadataAgent.KubernetesReader
