import MetadataAgent.Kubernetes.Traversal

/-! # The owner caches are transparent

The top-level controller of an object is found without any cache by following its controller
reference to the object that the master serves under that name, and so on. While the objects do
not change, the traversal with caches goes in step with that walk, whatever was looked up before. -/
namespace MetadataAgent.KubernetesReader
open Lib Json
set_option autoImplicit false

section Transparency
variable (config : Configuration) (master : Master)

/-! ## The walk without caches -/

def served (path : Bytes) : Except Thrown Value := (queryMaster config master path .initial).1

def servedKinds (version : Bytes) : OrderedMap Bytes Bytes :=
  match served config master (apiPath version) with
  | .ok response => apiKinds response
  | .error _ => .empty

/-- The object that an owner reference names. -/
def namedObject (ns : Bytes) (o : Object) : Option Value := do
  let ref ← (ownerRef o).toOption
  let kindName ← (servedKinds config master ref.apiVersion).find ref.kind
  let owner ← (served config master
    (ownerPath (apiPath ref.apiVersion) ns kindName ref.name)).toOption
  if objectUid owner = .ok ref.uid then some owner else none

/-- From the object, the first controller reference is followed to the object that it names,
until there is none; `none` when `fuel` objects have been passed. -/
def topLevelObject (fuel : ℕ) (ns : Bytes) (object : Value) : Option Value :=
  match fuel with
  | 0 => none
  | fuel + 1 =>
    match controllerRef object with
    | .error _ => none
    | .ok none => some object
    | .ok (some ref) => (namedObject config master ns ref).bind (topLevelObject fuel ns)

/-- `t` is the object that the first controller reference of `s` names. -/
def Follows (ns : Bytes) (s t : Value) : Prop :=
  ∃ ref, controllerRef s = .ok (some ref) ∧ namedObject config master ns ref = some t

/-- The references that are followed have no slash in their uid. -/
def ControllerSlashFree (object : Value) : Prop :=
  ∀ ref, controllerRef object = .ok (some ref) → UidSlashFree ref

/-- A master whose objects never change, each uid naming one of them, and a set of objects whose
controllers are served. -/
structure Steady (ns : Bytes) (objects : Set Value) : Prop where
  unchanging : ∀ m n path, master m path = master n path
  uidNames : ∀ path path' v v' uid, served config master path = .ok v →
    served config master path' = .ok v' → objectUid v = .ok uid → objectUid v' = .ok uid → v = v'
  slashFree : ∀ path v, served config master path = .ok v → ControllerSlashFree v
  slashFreeObjects : ∀ v ∈ objects, ControllerSlashFree v
  controllers : ∀ v ∈ objects, controllerRef v = .ok none ∨
    ∃ t ∈ objects, Follows config master ns v t

/-! ## States that earlier lookups leave -/

inductive Earlier : ReaderState → Prop
  | initial : Earlier .initial
  | kindPath {w : ReaderState} (version kind : Bytes) (hw : Earlier w) :
      Earlier (kindPath config master version kind w).2
  | getOwner {w : ReaderState} (ns : Bytes) (o : Object) (hslash : UidSlashFree o)
      (hw : Earlier w) : Earlier (getOwner config master ns o w).2
  | topLevel {w w' : ReaderState} {fuel : ℕ} {ns : Bytes} {object : Value}
      {r : Except Thrown Value} (hslash : ControllerSlashFree object) (hw : Earlier w)
      (h : findTopLevelController config master fuel ns object w = some (r, w')) : Earlier w'

/-- The caches hold what the master serves. -/
structure Consistent (w : ReaderState) : Prop where
  kinds : ∀ version kinds, w.versionToKindToName.find version = some kinds →
    kinds = servedKinds config master version
  keyed : KeyedByUid w
  owners : ∀ key owner, w.owners.find key = some owner →
    ∃ path, served config master path = .ok owner

theorem consistent_initial : Consistent config master .initial := by
  refine ⟨?_, ?_, ?_⟩
  · intro version kinds h
    cases h
  · intro key owner h
    cases h
  · intro key owner h
    cases h

variable {config master} (hunchanging : ∀ m n path, master m path = master n path)
include hunchanging

theorem queryMaster_served (path : Bytes) (w : ReaderState) :
    (queryMaster config master path w).1 = served config master path := by
  unfold served queryMaster
  rw [hunchanging w.queries ReaderState.initial.queries]
  cases master ReaderState.initial.queries path with
  | answer status statusMessage body =>
    simp only
    split
    · rfl
    · split <;> rfl
  | failure what => rfl

theorem apiList_of_consistent {w : ReaderState} (hw : Consistent config master w)
    (version : Bytes) : apiList config master version w = servedKinds config master version := by
  rw [apiList]
  cases hslot : w.versionToKindToName.find version with
  | some kinds => exact hw.kinds version kinds hslot
  | none =>
    simp only
    rw [queryMaster_served hunchanging]
    rfl

theorem Consistent.loadKinds {w : ReaderState} (hw : Consistent config master w)
    (version : Bytes) : Consistent config master (loadKinds config master version w) := by
  have howners := loadKinds_owners config master version w
  refine ⟨?_, ?_, ?_⟩
  · intro v kinds h
    rw [find_loadKinds] at h
    split at h
    · rename_i hv
      rw [Option.some.injEq, apiList_of_consistent hunchanging hw] at h
      rw [hv, h]
    · exact hw.kinds v kinds h
  · intro key owner h
    rw [howners] at h
    exact hw.keyed key owner h
  · intro key owner h
    rw [howners] at h
    exact hw.owners key owner h

theorem Consistent.getOwner {w : ReaderState} (hw : Consistent config master w) (ns : Bytes)
    {o : Object} (hslash : UidSlashFree o) :
    Consistent config master (getOwner config master ns o w).2 := by
  rcases getOwner_state config master ns o w with
    ⟨hstate, _⟩ | ⟨ref, href, huncached, hslots, howners⟩
  · rw [hstate]
    exact hw
  · have hcall : (Lookup.getOwner ns o).SlashFree := hslash
    refine ⟨?_, hw.keyed.lookUp config master hcall, ?_⟩
    · rw [hslots]
      exact (hw.loadKinds hunchanging ref.apiVersion).kinds
    · intro key v hv
      rcases howners with howners | ⟨owner, hok, _, howners⟩
      · rw [howners] at hv
        exact hw.owners key v hv
      · rw [howners, OrderedMap.find_emplace, huncached, Option.getD_none] at hv
        split at hv
        · rw [Option.some.injEq] at hv
          subst hv
          obtain ⟨w', hget⟩ : ∃ w', KubernetesReader.getOwner config master ns o w =
            (.ok owner, w') := ⟨_, Prod.ext hok rfl⟩
          cases (getOwner_eq_ok config master).mp hget with
          | cached href' hcached =>
            rw [href, Except.ok.injEq] at href'
            rw [← href', huncached] at hcached
            cases hcached
          | served _ _ _ hanswer _ =>
            have hserved := congrArg Prod.fst hanswer
            rw [queryMaster_served hunchanging] at hserved
            exact ⟨_, hserved⟩
        · exact hw.owners key v hv

/-- Whatever the reference named, the owner that was found is served by the master. -/
theorem served_of_getOwner {w w' : ReaderState} (hw : Consistent config master w) {ns : Bytes}
    {o : Object} (hslash : UidSlashFree o) {owner : Value}
    (h : getOwner config master ns o w = (.ok owner, w')) :
    ∃ path, served config master path = .ok owner := by
  have hw' := hw.getOwner hunchanging ns hslash
  rw [h] at hw'
  obtain ⟨ref, _, hcached⟩ := ((getOwner_eq_ok config master).mp h).caches config master
  exact hw'.owners _ _ hcached

theorem Consistent.findTopLevelController
    (hslashFree : ∀ path v, served config master path = .ok v → ControllerSlashFree v)
    {fuel : ℕ} {ns : Bytes} {object : Value} (hobject : ControllerSlashFree object)
    {w w' : ReaderState} (hw : Consistent config master w) {r : Except Thrown Value}
    (h : findTopLevelController config master fuel ns object w = some (r, w')) :
    Consistent config master w' := by
  induction fuel generalizing object w with
  | zero => cases h
  | succ fuel ih =>
    rw [KubernetesReader.findTopLevelController] at h
    split at h
    · cases h
      exact hw
    · cases h
      exact hw
    · rename_i ref href
      have hnext := hw.getOwner hunchanging ns (hobject ref href)
      cases hget : KubernetesReader.getOwner config master ns ref w with
      | mk result w₁ =>
        rw [hget] at h hnext
        cases result with
        | error e =>
          cases h
          exact hnext
        | ok owner =>
          obtain ⟨path, hserved⟩ := served_of_getOwner hunchanging hw (hobject ref href) hget
          exact ih (hslashFree path owner hserved) hnext h

theorem Earlier.consistent
    (hslashFree : ∀ path v, served config master path = .ok v → ControllerSlashFree v)
    {w : ReaderState} (hw : Earlier config master w) : Consistent config master w := by
  induction hw with
  | initial => exact consistent_initial config master
  | kindPath version kind _ ih =>
    rw [kindPath_state]
    exact ih.loadKinds hunchanging version
  | getOwner ns o hslash _ ih => exact ih.getOwner hunchanging ns hslash
  | topLevel hslash _ h ih =>
    exact ih.findTopLevelController hunchanging hslashFree hslash h

/-! ## In step -/

/-- With consistent caches, `GetOwner` finds the object that the reference names. -/
theorem getOwner_named
    (huid : ∀ path path' v v' uid, served config master path = .ok v →
      served config master path' = .ok v' → objectUid v = .ok uid → objectUid v' = .ok uid →
        v = v')
    {w : ReaderState} (hw : Consistent config master w) {ns : Bytes} {o : Object}
    (hslash : UidSlashFree o) {owner : Value} (h : namedObject config master ns o = some owner) :
    (getOwner config master ns o w).1 = .ok owner := by
  simp only [namedObject, Option.bind_eq_bind, Option.bind_eq_some_iff, toOption_eq_some,
    Option.ite_none_right_eq_some, Option.some.injEq] at h
  obtain ⟨ref, href, kindName, hkind, found, hfound, howner, rfl⟩ := h
  cases hcached : w.owners.find ref.encoded with
  | some v =>
    have hv : objectUid v = .ok ref.uid :=
      hw.keyed.uid (hslash _ (uid_of_ownerRef href)) hcached
    obtain ⟨path, hserved⟩ := hw.owners _ _ hcached
    obtain rfl := huid _ _ _ _ _ hserved hfound hv howner
    rw [(getOwner_eq_ok config master).mpr (.cached href hcached)]
  | none =>
    have hname : (loadKinds config master ref.apiVersion w).kindName ref.apiVersion ref.kind =
        some kindName := by
      rw [kindName_loadKinds, apiList_of_consistent hunchanging hw, hkind]
    have hanswer : (queryMaster config master
        (ownerPath (apiPath ref.apiVersion) ns kindName ref.name)
        (loadKinds config master ref.apiVersion w)).1 = .ok found := by
      rw [queryMaster_served hunchanging, hfound]
    rw [(getOwner_eq_ok config master).mpr
      (.served href hcached hname (Prod.ext hanswer rfl) howner)]

end Transparency

section Steady
variable {config : Configuration} {master : Master}

theorem findTopLevelController_in_step {ns : Bytes} {objects : Set Value}
    (hsteady : Steady config master ns objects) (fuel : ℕ) {object : Value}
    (hobject : object ∈ objects) {w : ReaderState} (hw : Consistent config master w) :
    (findTopLevelController config master fuel ns object w).map Prod.fst =
      (topLevelObject config master fuel ns object).map .ok := by
  induction fuel generalizing object w with
  | zero => rfl
  | succ fuel ih =>
    rw [findTopLevelController, topLevelObject]
    rcases hsteady.controllers object hobject with hnone | ⟨owner, howner, ref, href, hnamed⟩
    · rw [hnone]
      rfl
    · have hslash := hsteady.slashFreeObjects object hobject ref href
      have hget := getOwner_named hsteady.unchanging hsteady.uidNames hw hslash hnamed
      have hnext := hw.getOwner hsteady.unchanging ns hslash
      rw [href]
      simp only
      cases hresult : getOwner config master ns ref w with
      | mk result w₁ =>
        rw [hresult] at hget hnext
        simp only at hget
        subst hget
        rw [hnamed, Option.bind_some]
        exact ih howner hnext

/-- The walk without caches ends where the controllers are finitely many and without a cycle. -/
theorem topLevelObject_ends {ns : Bytes} {objects : Set Value}
    (hsteady : Steady config master ns objects) (hfinite : objects.Finite)
    (hacyclic : ∀ v ∈ objects, ¬ Relation.TransGen (Follows config master ns) v v)
    {object : Value} (hobject : object ∈ objects) :
    ∃ fuel top, topLevelObject config master fuel ns object = some top := by
  have hclosed : ∀ t, Relation.ReflTransGen (Follows config master ns) object t → t ∈ objects := by
    intro t ht
    induction ht with
    | refl => exact hobject
    | tail _ hstep ih =>
      obtain ⟨ref, href, hnamed⟩ := hstep
      rcases hsteady.controllers _ ih with hnone | ⟨owner, howner, ref', href', hnamed'⟩
      · rw [hnone] at href
        cases href
      · rw [href, Except.ok.injEq, Option.some.injEq] at href'
        rw [href', hnamed', Option.some.injEq] at hnamed
        exact hnamed ▸ howner
  have hacc : Acc (fun t u => Follows config master ns u t) object := by
    refine acc_of_finite id hfinite hclosed ?_
    intro t u ht hu hsame
    have hcycle : u = t := hsame
    rw [hcycle] at hu
    exact hacyclic t (hclosed t ht) hu
  clear hclosed
  induction hacc with
  | intro object _ ih =>
    rcases hsteady.controllers object hobject with hnone | ⟨owner, howner, hfollows⟩
    · refine ⟨1, object, ?_⟩
      rw [topLevelObject, hnone]
    · obtain ⟨fuel, top, htop⟩ := ih owner hfollows howner
      obtain ⟨ref, href, hnamed⟩ := hfollows
      refine ⟨fuel + 1, top, ?_⟩
      rw [topLevelObject, href]
      simp only
      rw [hnamed, Option.bind_some, htop]

/-- Whatever was looked up earlier, the traversal goes in step with the walk without caches, and
ends with its object. -/
theorem caches_transparent {ns : Bytes} {objects : Set Value}
    (hsteady : Steady config master ns objects) {object : Value} (hobject : object ∈ objects)
    {w : ReaderState} (hw : Earlier config master w) :
    (∀ fuel, (findTopLevelController config master fuel ns object w).map Prod.fst =
      (topLevelObject config master fuel ns object).map .ok) ∧
    (objects.Finite → (∀ v ∈ objects, ¬ Relation.TransGen (Follows config master ns) v v) →
      ∃ fuel top w', topLevelObject config master fuel ns object = some top ∧
        findTopLevelController config master fuel ns object w = some (.ok top, w')) := by
  have hin := fun fuel => findTopLevelController_in_step hsteady fuel hobject
    (hw.consistent hsteady.unchanging hsteady.slashFree)
  refine ⟨hin, ?_⟩
  intro hfinite hacyclic
  obtain ⟨fuel, top, htop⟩ := topLevelObject_ends hsteady hfinite hacyclic hobject
  have hfound := hin fuel
  rw [htop, Option.map_some, Option.map_eq_some_iff] at hfound
  obtain ⟨⟨r, w'⟩, hfind, hr⟩ := hfound
  simp only at hr
  subst hr
  exact ⟨fuel, top, w', htop, hfind⟩

end Steady

/-! ## A pod and its replica set -/

def webControllerRef : Object :=
  [(lit "apiVersion", .string (lit "apps/v1")), (lit "controller", .boolean true),
    (lit "kind", .string (lit "ReplicaSet")), (lit "name", .string (lit "web")),
    (lit "uid", .string (lit "r1"))]

def webPod : Value :=
  .object [(lit "metadata", .object [
    (lit "name", .string (lit "web-1")),
    (lit "ownerReferences", .array [.object webControllerRef]),
    (lit "uid", .string (lit "p1"))])]

def webReplicaSet : Value :=
  .object [(lit "metadata", .object [
    (lit "name", .string (lit "web")), (lit "uid", .string (lit "r1"))])]

def replicaSetList : Value :=
  .object [(lit "resources", .array [.object [
    (lit "kind", .string (lit "ReplicaSet")), (lit "name", .string (lit "replicasets"))]])]

def webMaster : Master := fun _ path =>
  if path = lit "/apis/apps/v1" then .answer 200 (lit "OK") (.ok replicaSetList)
  else if path = lit "/apis/apps/v1/namespaces/default/replicasets/web" then
    .answer 200 (lit "OK") (.ok webReplicaSet)
  else .failure (lit "Connection refused")

theorem served_webMaster {path : Bytes} {v : Value}
    (h : served lookupConfig webMaster path = .ok v) : v = replicaSetList ∨ v = webReplicaSet := by
  obtain ⟨n, path', status, statusMessage, hanswer⟩ :=
    served_of_queryMaster lookupConfig webMaster (Prod.ext h rfl)
  unfold webMaster at hanswer
  split at hanswer
  · rw [Response.answer.injEq, Except.ok.injEq] at hanswer
    exact Or.inl hanswer.2.2.symm
  · split at hanswer
    · rw [Response.answer.injEq, Except.ok.injEq] at hanswer
      exact Or.inr hanswer.2.2.symm
    · cases hanswer

theorem objectUid_replicaSetList (uid : Bytes) : objectUid replicaSetList ≠ .ok uid := by
  intro h
  cases h

theorem controllerSlashFree_of_served {v : Value} (h : v = replicaSetList ∨ v = webReplicaSet) :
    ControllerSlashFree v := by
  intro ref href
  rcases h with rfl | rfl
  · cases href
  · cases href

theorem webPod_follows : Follows lookupConfig webMaster (lit "default") webPod webReplicaSet :=
  ⟨webControllerRef, by decide +kernel, by decide +kernel⟩

theorem steady_webMaster :
    Steady lookupConfig webMaster (lit "default") {webPod, webReplicaSet} := by
  refine ⟨fun _ _ _ => rfl, ?_, fun path v h => controllerSlashFree_of_served (served_webMaster h),
    ?_, ?_⟩
  · intro path path' v v' uid hv hv' huid huid'
    rcases served_webMaster hv with rfl | rfl
    · exact absurd huid (objectUid_replicaSetList uid)
    · rcases served_webMaster hv' with rfl | rfl
      · exact absurd huid' (objectUid_replicaSetList uid)
      · rfl
  · rintro v (rfl | rfl)
    · intro ref href uid huid
      have huid' : getString webControllerRef (lit "uid") = .ok (lit "r1") := getString_eq_ok.mpr rfl
      cases href
      rw [huid', Except.ok.injEq] at huid
      rw [← huid]
      decide
    · exact controllerSlashFree_of_served (Or.inr rfl)
  · rintro v (rfl | rfl)
    · exact Or.inr ⟨webReplicaSet, Or.inr rfl, webPod_follows⟩
    · exact Or.inl rfl

theorem webMaster_acyclic :
    ∀ v ∈ ({webPod, webReplicaSet} : Set Value),
      ¬ Relation.TransGen (Follows lookupConfig webMaster (lit "default")) v v := by
  have hlast : ∀ t, ¬ Follows lookupConfig webMaster (lit "default") webReplicaSet t := by
    rintro t ⟨ref, href, _⟩
    cases href
  have hnext : ∀ t, Follows lookupConfig webMaster (lit "default") webPod t → t = webReplicaSet := by
    rintro t ⟨ref, href, hnamed⟩
    obtain ⟨ref', href', hnamed'⟩ := webPod_follows
    rw [href, Except.ok.injEq, Option.some.injEq] at href'
    rw [href', hnamed', Option.some.injEq] at hnamed
    exact hnamed.symm
  rintro v (rfl | rfl) hcycle
  · obtain ⟨t, hstep, hrest⟩ := Relation.TransGen.head'_iff.mp hcycle
    obtain rfl := hnext t hstep
    rcases Relation.ReflTransGen.cases_head hrest with heq | ⟨u, hstep', _⟩
    · exact absurd heq (by decide +kernel)
    · exact hlast u hstep'
  · obtain ⟨t, hstep, _⟩ := Relation.TransGen.head'_iff.mp hcycle
    exact hlast t hstep

/-- After the pod was looked up once, its controller is found in the cache. -/
theorem webPod_controller_found :
    ∃ fuel top w', topLevelObject lookupConfig webMaster fuel (lit "default") webPod = some top ∧
      findTopLevelController lookupConfig webMaster fuel (lit "default") webPod
        (getOwner lookupConfig webMaster (lit "default") webControllerRef .initial).2 =
          some (.ok top, w') := by
  have hslash : UidSlashFree webControllerRef :=
    steady_webMaster.slashFreeObjects webPod (Or.inl rfl) webControllerRef (by decide +kernel)
  exact (caches_transparent steady_webMaster (Or.inl rfl)
    (.getOwner (lit "default") webControllerRef hslash .initial)).2
    (Set.toFinite {webPod, webReplicaSet}) webMaster_acyclic

end MetadataAgent.KubernetesReader
