import MetadataAgent.Kubernetes.Lookups
import MetadataAgent.Lib.Cycles

/-! # Termination of the owner traversal

`FindTopLevelController` keeps no record of the objects it has seen. An owner that was found is
cached for good, so an object met a second time has the controllers it had before, and the walk
goes round for ever. With finitely many objects that is the only way not to end. -/
namespace MetadataAgent.KubernetesReader
open Lib Json
set_option autoImplicit false

section Traversal
variable (config : Configuration) (master : Master)

/-! ## Owners stay cached -/

theorem owners_of_served {version path : Bytes} {w w' : ReaderState} {owner : Value}
    (hanswer : queryMaster config master path (loadKinds config master version w) =
      (.ok owner, w')) : w'.owners = w.owners := by
  have hquery := queryMaster_owners config master path (loadKinds config master version w)
  rw [hanswer, loadKinds_owners] at hquery
  exact hquery

/-- `t` is cached as the controller of `s`. -/
def CachedController (w : ReaderState) (s t : Value) : Prop :=
  ∃ o ref, controllerRef s = .ok (some o) ∧ ownerRef o = .ok ref ∧
    w.owners.find ref.encoded = some t

theorem OwnerFound.grows {ns : Bytes} {w w' : ReaderState} {o : Object} {owner : Value}
    (h : OwnerFound config master ns w o w' owner) {key : Bytes} {v : Value}
    (hv : w.owners.find key = some v) : w'.owners.find key = some v := by
  cases h with
  | cached _ _ => exact hv
  | served href huncached hkind hanswer huid =>
    rename_i ref kindName w₂
    have howners := owners_of_served config master hanswer
    simp only
    rw [OrderedMap.find_emplace, howners, hv]
    by_cases hkey : key = ref.encoded
    · rw [hkey, huncached] at hv
      cases hv
    · rw [if_neg hkey]

theorem OwnerFound.caches {ns : Bytes} {w w' : ReaderState} {o : Object} {owner : Value}
    (h : OwnerFound config master ns w o w' owner) :
    ∃ ref, ownerRef o = .ok ref ∧ w'.owners.find ref.encoded = some owner := by
  cases h with
  | cached href hcached => exact ⟨_, href, hcached⟩
  | served href huncached hkind hanswer huid =>
    rename_i ref kindName w₂
    refine ⟨ref, href, ?_⟩
    simp only
    rw [OrderedMap.find_emplace, if_pos rfl, owners_of_served config master hanswer, huncached]
    rfl

theorem CachedController.grows {ns : Bytes} {s t : Value × ReaderState} {u v : Value}
    (hcontrols : Controls config master ns s t) (h : CachedController s.2 u v) :
    CachedController t.2 u v := by
  obtain ⟨o, ref, ho, href, hfind⟩ := h
  obtain ⟨_, _, hfound⟩ := hcontrols
  exact ⟨o, ref, ho, href, hfound.grows config master hfind⟩

theorem Controls.caches {ns : Bytes} {s t : Value × ReaderState}
    (h : Controls config master ns s t) : CachedController t.2 s.1 t.1 := by
  obtain ⟨o, ho, hfound⟩ := h
  obtain ⟨ref, href, hfind⟩ := hfound.caches config master
  exact ⟨o, ref, ho, href, hfind⟩

/-- Everything met on a walk is cached at its end. -/
theorem transGen_cached {ns : Bytes} {s t : Value × ReaderState}
    (h : Relation.TransGen (Controls config master ns) s t) :
    Relation.TransGen (CachedController t.2) s.1 t.1 := by
  induction h with
  | single hstep => exact Relation.TransGen.single (hstep.caches config master)
  | tail _ hstep ih =>
    refine Relation.TransGen.tail ?_ (hstep.caches config master)
    have hgrows : CachedController _ ≤ CachedController _ :=
      fun u v h => CachedController.grows config master hstep h
    exact Relation.TransGen.mono hgrows _ _ ih

theorem CachedController.controls (ns : Bytes) {w : ReaderState} {s t : Value}
    (h : CachedController w s t) : Controls config master ns (s, w) (t, w) := by
  obtain ⟨o, ref, ho, href, hfind⟩ := h
  exact ⟨o, ho, .cached href hfind⟩

/-- An object met again is its own controller, now through the cache alone. -/
theorem cycle_of_revisit {ns : Bytes} {s t : Value × ReaderState}
    (h : Relation.TransGen (Controls config master ns) s t) (hsame : t.1 = s.1) :
    Relation.TransGen (Controls config master ns) t t := by
  have hcached := transGen_cached config master h
  rw [← hsame] at hcached
  exact Relation.TransGen.lift (fun v => (v, t.2))
    (fun u v h => CachedController.controls config master ns h) _ _ hcached

/-! ## The objects that can be met -/

/-- The values that the master answers queries with. -/
def servedValues (master : Master) : Set Value :=
  {v | ∃ n path status statusMessage, master n path = .answer status statusMessage (.ok v)}

/-- The starting object, the owners cached already, and what the master serves. -/
def meetable (master : Master) (object : Value) (w : ReaderState) : Set Value :=
  {object} ∪ {v | ∃ key, w.owners.find key = some v} ∪ servedValues master

theorem finite_cached (w : ReaderState) : {v | ∃ key, w.owners.find key = some v}.Finite := by
  refine (List.finite_toSet (w.owners.entries.map Prod.snd)).subset ?_
  rintro v ⟨key, hkey⟩
  exact List.mem_map.mpr ⟨(key, v), OrderedMap.mem_entries.mpr hkey, rfl⟩

theorem finite_meetable (hserved : (servedValues master).Finite) (object : Value)
    (w : ReaderState) : (meetable master object w).Finite :=
  ((Set.finite_singleton object).union (finite_cached w)).union hserved

theorem served_of_queryMaster {path : Bytes} {w w' : ReaderState} {v : Value}
    (h : queryMaster config master path w = (.ok v, w')) : v ∈ servedValues master := by
  unfold queryMaster at h
  split at h
  · rename_i status statusMessage body hanswer
    simp only at h
    split at h
    · cases h
    · split at h
      · cases h
      · cases body with
        | error e => cases h
        | ok body =>
          rw [Prod.mk.injEq] at h
          cases h.1
          exact ⟨_, _, _, _, hanswer⟩
  · cases h

theorem meetable_of_reached {ns : Bytes} {object : Value} {w : ReaderState}
    {t : Value × ReaderState}
    (h : Relation.ReflTransGen (Controls config master ns) (object, w) t) :
    t.1 ∈ meetable master object w ∧
      ∀ key v, t.2.owners.find key = some v → v ∈ meetable master object w := by
  induction h with
  | refl =>
    refine ⟨Or.inl (Or.inl rfl), ?_⟩
    intro key v hv
    exact Or.inl (Or.inr ⟨key, hv⟩)
  | @tail t u _ hstep ih =>
    obtain ⟨o, _, hfound⟩ := hstep
    obtain ⟨u, w'⟩ := u
    simp only at hfound ⊢
    cases hfound with
    | cached _ hcached => exact ⟨ih.2 _ _ hcached, ih.2⟩
    | served _ _ _ hanswer _ =>
      have hserved : u ∈ meetable master object w :=
        Or.inr (served_of_queryMaster config master hanswer)
      refine ⟨hserved, ?_⟩
      intro key v hv
      simp only at hv
      rw [OrderedMap.find_emplace, owners_of_served config master hanswer] at hv
      split at hv
      · cases hcached : t.2.owners.find _ with
        | none =>
          rw [hcached, Option.getD_none, Option.some.injEq] at hv
          exact hv ▸ hserved
        | some old =>
          rw [hcached, Option.getD_some, Option.some.injEq] at hv
          exact hv ▸ ih.2 _ _ hcached
      · exact ih.2 _ _ hv

/-! ## Termination -/

/-- On the way up from the object, no object is its own controller, directly or through others. -/
def Acyclic (ns : Bytes) (s : Value × ReaderState) : Prop :=
  ∀ t u, Relation.ReflTransGen (Controls config master ns) s t →
    Relation.TransGen (Controls config master ns) t u → u.1 ≠ t.1

theorem chainEnds_iff_acyclic (hserved : (servedValues master).Finite) (ns : Bytes)
    (object : Value) (w : ReaderState) :
    ChainEnds config master ns (object, w) ↔ Acyclic config master ns (object, w) := by
  constructor
  · intro hends t u ht hu hsame
    have hu' := acc_of_reflTransGen hends (ht.trans hu.to_reflTransGen)
    exact not_acc_of_cycle (cycle_of_revisit config master hu hsame) hu'
  · intro hacyclic
    exact acc_of_finite Prod.fst (finite_meetable master hserved object w)
      (fun t ht => (meetable_of_reached config master ht).1) hacyclic

/-- The traversal ends with an object or a declared exception exactly when no object on the way is
its own controller and every kind on the way is known. -/
theorem findTopLevelController_returns_iff (hserved : (servedValues master).Finite) (ns : Bytes)
    (object : Value) (w : ReaderState) :
    (∃ fuel r w', findTopLevelController config master fuel ns object w = some (r, w') ∧
      ∀ e, r = .error e → e.declared) ↔
    Acyclic config master ns (object, w) ∧ KindsKnown config master ns (object, w) := by
  rw [← chainEnds_iff_acyclic config master hserved, ← findTopLevelController_ends_iff,
    ← findTopLevelController_declared_iff]
  constructor
  · rintro ⟨fuel, r, w', hr, hdeclared⟩
    refine ⟨⟨fuel, _, hr⟩, ?_⟩
    intro fuel' e w'' he
    have hsame := findTopLevelController_unique config master hr he
    rw [Prod.mk.injEq] at hsame
    exact hdeclared e hsame.1
  · rintro ⟨⟨fuel, ⟨r, w'⟩, hr⟩, hdeclared⟩
    refine ⟨fuel, r, w', hr, ?_⟩
    rintro e rfl
    exact hdeclared fuel e w' hr

end Traversal

def selfReference : Object :=
  [(lit "apiVersion", .string (lit "v1")), (lit "controller", .boolean true),
    (lit "kind", .string (lit "ConfigMap")), (lit "name", .string (lit "settings")),
    (lit "uid", .string (lit "c1"))]

/-- A config map that names itself as its controller. -/
def selfControlled : Value :=
  .object [(lit "metadata", .object [
    (lit "name", .string (lit "settings")),
    (lit "ownerReferences", .array [.object selfReference]),
    (lit "uid", .string (lit "c1"))])]

def configMapList : Value :=
  .object [(lit "resources", .array [.object [
    (lit "kind", .string (lit "ConfigMap")), (lit "name", .string (lit "configmaps"))]])]

def selfControlledMaster : Master := fun _ path =>
  .answer 200 (lit "OK") (.ok (if path = lit "/api/v1" then configMapList else selfControlled))

theorem finite_selfControlledMaster : (servedValues selfControlledMaster).Finite := by
  refine (List.finite_toSet [configMapList, selfControlled]).subset ?_
  rintro v ⟨n, path, status, statusMessage, h⟩
  rw [selfControlledMaster, Response.answer.injEq, Except.ok.injEq] at h
  obtain ⟨_, _, rfl⟩ := h
  split
  · exact List.mem_cons_self
  · exact List.mem_cons_of_mem _ List.mem_cons_self

theorem selfControlled_returns_iff :
    (∃ fuel r w', findTopLevelController lookupConfig selfControlledMaster fuel (lit "default")
      selfControlled .initial = some (r, w') ∧ ∀ e, r = .error e → e.declared) ↔
    Acyclic lookupConfig selfControlledMaster (lit "default") (selfControlled, .initial) ∧
      KindsKnown lookupConfig selfControlledMaster (lit "default") (selfControlled, .initial) :=
  findTopLevelController_returns_iff lookupConfig selfControlledMaster
    finite_selfControlledMaster (lit "default") selfControlled .initial

theorem selfControlled_controls :
    ∃ w, Controls lookupConfig selfControlledMaster (lit "default") (selfControlled, .initial)
      (selfControlled, w) := by
  have hget : (getOwner lookupConfig selfControlledMaster (lit "default") selfReference
      .initial).1 = .ok selfControlled := by
    decide +kernel
  exact ⟨_, selfReference, by decide +kernel, (getOwner_eq_ok _ _).mp (Prod.ext hget rfl)⟩

/-- Finitely many objects are served, and the traversal has no end. -/
theorem selfControlled_never_returns :
    (servedValues selfControlledMaster).Finite ∧
      ¬ ∃ fuel r w', findTopLevelController lookupConfig selfControlledMaster fuel
        (lit "default") selfControlled .initial = some (r, w') ∧ ∀ e, r = .error e → e.declared := by
  refine ⟨finite_selfControlledMaster, ?_⟩
  rintro ⟨fuel, r, w', hr, _⟩
  have hends := (findTopLevelController_ends_iff lookupConfig selfControlledMaster
    (lit "default") selfControlled .initial).mp ⟨fuel, _, hr⟩
  rw [chainEnds_iff_acyclic lookupConfig selfControlledMaster finite_selfControlledMaster] at hends
  obtain ⟨w, hstep⟩ := selfControlled_controls
  exact hends _ _ Relation.ReflTransGen.refl (Relation.TransGen.single hstep) rfl

end MetadataAgent.KubernetesReader
