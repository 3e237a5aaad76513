import MetadataAgent.Kubernetes.Owners
import MetadataAgent.Lib.Histories
import MetadataAgent.Lib.Delimited

/-! # Runs of lookups

Calls of `KindPath` and `GetOwner` one after the other, from the empty caches. `KindPath` opens
the slot of a version before it asks the master, so that a version is asked for once, whatever the
answer; `GetOwner` caches an owner only after all its checks, so that the uid at the end of a key
is that of the owner. -/
namespace MetadataAgent.KubernetesReader
open Lib Json
set_option autoImplicit false

inductive Lookup where
  | kindPath (version kind : Bytes)
  | getOwner (ns : Bytes) (ownerRef : Object)

def ReaderState.initial : ReaderState := ⟨.empty, .empty, 0⟩

section Lookups
variable (config : Configuration) (master : Master)

/-- The state that a call leaves, whether it returns or throws. -/
def lookUp (w : ReaderState) : Lookup → ReaderState
  | .kindPath version kind => (kindPath config master version kind w).2
  | .getOwner ns ownerRef => (getOwner config master ns ownerRef w).2

def afterLookups (calls : List Lookup) : ReaderState :=
  calls.foldl (lookUp config master) .initial

/-! ## What `GetOwner` leaves unchanged -/

theorem queryMaster_slots (path : Bytes) (w : ReaderState) :
    (queryMaster config master path w).2.versionToKindToName = w.versionToKindToName := by
  rw [queryMaster_eq config master path w w rfl]

theorem queryMaster_owners (path : Bytes) (w : ReaderState) :
    (queryMaster config master path w).2.owners = w.owners := by
  rw [queryMaster_eq config master path w w rfl]

theorem loadKinds_owners (version : Bytes) (w : ReaderState) :
    (loadKinds config master version w).owners = w.owners := by
  unfold loadKinds
  split
  · rfl
  · simp only
    have howners := queryMaster_owners config master (apiPath version)
      { w with versionToKindToName := w.versionToKindToName.emplace version .empty }
    split
    · rename_i hquery
      rw [hquery] at howners
      exact howners
    · rename_i hquery
      rw [hquery] at howners
      exact howners

theorem kindPath_state (version kind : Bytes) (w : ReaderState) :
    (kindPath config master version kind w).2 = loadKinds config master version w := by
  unfold kindPath
  simp only
  split <;> rfl

/-- What a call of `GetOwner` does to the state: nothing, or `KindPath` loads the kinds, a query
may follow, and an owner that passes the checks is cached. -/
theorem getOwner_state (ns : Bytes) (o : Object) (w : ReaderState) :
    (getOwner config master ns o w).2 = w ∧
        (∀ ref, ownerRef o = .ok ref → (w.owners.find ref.encoded).isSome = true) ∨
      ∃ ref, ownerRef o = .ok ref ∧ w.owners.find ref.encoded = none ∧
        (getOwner config master ns o w).2.versionToKindToName =
          (loadKinds config master ref.apiVersion w).versionToKindToName ∧
        ((getOwner config master ns o w).2.owners = w.owners ∨
          ∃ owner, (getOwner config master ns o w).1 = .ok owner ∧
            objectUid owner = .ok ref.uid ∧
            (getOwner config master ns o w).2.owners = w.owners.emplace ref.encoded owner) := by
  unfold getOwner
  cases href : ownerRef o with
  | error e =>
    left
    refine ⟨rfl, ?_⟩
    intro ref h
    cases h
  | ok ref =>
    simp only
    cases hcached : w.owners.find ref.encoded with
    | some owner =>
      left
      refine ⟨rfl, ?_⟩
      rintro ref' ⟨⟩
      rw [hcached]
      rfl
    | none =>
      right
      refine ⟨ref, rfl, hcached, ?_⟩
      have hkinds := kindPath_state config master ref.apiVersion ref.kind w
      cases hpath : kindPath config master ref.apiVersion ref.kind w with
      | mk result w₁ =>
        rw [hpath] at hkinds
        have howners := loadKinds_owners config master ref.apiVersion w
        rw [← hkinds] at howners ⊢
        cases result with
        | error e => exact ⟨rfl, Or.inl howners⟩
        | ok p =>
          obtain ⟨path, kindName⟩ := p
          simp only
          have hslots₂ := queryMaster_slots config master (ownerPath path ns kindName ref.name) w₁
          have howners₂ :=
            queryMaster_owners config master (ownerPath path ns kindName ref.name) w₁
          cases hquery : queryMaster config master (ownerPath path ns kindName ref.name) w₁ with
          | mk answer w₂ =>
            rw [hquery] at hslots₂ howners₂
            cases answer with
            | error e => exact ⟨hslots₂, Or.inl (howners₂.trans howners)⟩
            | ok owner =>
              simp only
              cases huid : objectUid owner with
              | error e => exact ⟨hslots₂, Or.inl (howners₂.trans howners)⟩
              | ok uid =>
                simp only
                by_cases hsame : uid = ref.uid
                · rw [if_pos hsame]
                  refine ⟨hslots₂, Or.inr ⟨owner, rfl, ?_, ?_⟩⟩
                  · rw [huid, hsame]
                  · exact congrArg (fun m => m.emplace ref.encoded owner)
                      (howners₂.trans howners)
                · rw [if_neg hsame]
                  exact ⟨hslots₂, Or.inl (howners₂.trans howners)⟩

/-! ## API-list queries -/

/-- The version whose kinds a call looks at. -/
def Lookup.version (w : ReaderState) : Lookup → Option Bytes
  | .kindPath version _ => some version
  | .getOwner _ o =>
    match ownerRef o with
    | .error _ => none
    | .ok ref => if (w.owners.find ref.encoded).isSome then none else some ref.apiVersion

/-- The version whose API list a call asks the master for. -/
def Lookup.asksFor (w : ReaderState) (call : Lookup) : Option Bytes :=
  (call.version w).filter fun version => (w.versionToKindToName.find version).isNone

/-- The API-list queries of a run, each with its version and its answer. -/
def listQueries (w : ReaderState) : List Lookup → List (Bytes × Except Thrown Value)
  | [] => []
  | call :: calls =>
    ((call.asksFor w).map fun version =>
      (version, (queryMaster config master (apiPath version) w).1)).toList ++
    listQueries (lookUp config master w call) calls

/-- The elements of an API list that was answered. -/
def apiElements (answer : Except Thrown Value) : Option (List Value) :=
  match answer with
  | .error _ => none
  | .ok response => (asObject response).toOption.bind fun list =>
      (getArray list (lit "resources")).toOption

/-- The query was answered, and no element of the list is malformed. -/
def ReadToEnd (answer : Except Thrown Value) : Prop :=
  ∃ elements, apiElements answer = some elements ∧
    ∀ element ∈ elements, ∃ entry, kindEntry element = .ok entry

def Lists (answer : Except Thrown Value) (kind : Bytes) : Prop :=
  ∃ elements, apiElements answer = some elements ∧
    ∃ element ∈ elements, ∃ name, kindEntry element = .ok (some (kind, name))

theorem lookUp_slots (w : ReaderState) (call : Lookup) :
    (lookUp config master w call).versionToKindToName =
      ((call.version w).elim w fun version =>
        loadKinds config master version w).versionToKindToName := by
  cases call with
  | kindPath version kind =>
    rw [lookUp, kindPath_state]
    rfl
  | getOwner ns o =>
    rw [lookUp, Lookup.version]
    rcases getOwner_state config master ns o w with
      ⟨hstate, hcached⟩ | ⟨ref, href, huncached, hslots, _⟩
    · rw [hstate]
      cases href : ownerRef o with
      | error e => rfl
      | ok ref =>
        simp only
        rw [if_pos (hcached ref href)]
        rfl
    · rw [hslots, href]
      simp only
      rw [huncached]
      rfl

theorem loadKinds_of_slot {version : Bytes} {w : ReaderState} {kinds : OrderedMap Bytes Bytes}
    (h : w.versionToKindToName.find version = some kinds) :
    loadKinds config master version w = w := by
  rw [loadKinds, h]

/-- One call opens the slot of the version that it asks for, and no other. -/
theorem slot_lookUp (w : ReaderState) (call : Lookup) (v : Bytes) :
    ((lookUp config master w call).versionToKindToName.find v).isSome = true ↔
      (w.versionToKindToName.find v).isSome = true ∨ call.asksFor w = some v := by
  rw [lookUp_slots, Lookup.asksFor]
  cases call.version w with
  | none => simp
  | some version =>
    simp only [Option.elim_some]
    cases hslot : w.versionToKindToName.find version with
    | some kinds =>
      rw [loadKinds_of_slot config master hslot]
      simp [Option.filter, hslot]
    | none =>
      rw [find_loadKinds]
      by_cases hv : v = version
      · subst hv
        simp [Option.filter, hslot]
      · rw [if_neg hv]
        simp [Option.filter, hslot, Ne.symm hv]

/-- A version has a slot after a run exactly when it had one before or was asked for. -/
theorem slot_foldl (w : ReaderState) (calls : List Lookup) (v : Bytes) :
    ((calls.foldl (lookUp config master) w).versionToKindToName.find v).isSome = true ↔
      (w.versionToKindToName.find v).isSome = true ∨
        ∃ answer, (v, answer) ∈ listQueries config master w calls := by
  induction calls generalizing w with
  | nil => simp [listQueries]
  | cons call calls ih =>
    rw [List.foldl_cons, ih, slot_lookUp, listQueries]
    cases call.asksFor w with
    | none => simp
    | some version =>
      simp only [Option.some.injEq, Option.map_some, Option.toList_some, List.singleton_append,
        List.mem_cons, Prod.mk.injEq, exists_or, exists_and_left, exists_eq,
        and_true, or_assoc]
      rw [eq_comm (a := version)]

theorem slot_eq_none_of_asksFor {w : ReaderState} {call : Lookup} {v : Bytes}
    (h : call.asksFor w = some v) : w.versionToKindToName.find v = none := by
  rw [Lookup.asksFor, Option.filter_eq_some_iff] at h
  exact Option.isNone_iff_eq_none.mp h.2

theorem slot_eq_none_of_mem (w : ReaderState) (calls : List Lookup) {v : Bytes}
    {answer : Except Thrown Value} (h : (v, answer) ∈ listQueries config master w calls) :
    w.versionToKindToName.find v = none := by
  induction calls generalizing w with
  | nil => cases h
  | cons call calls ih =>
    rw [listQueries, List.mem_append] at h
    rcases h with h | h
    · rw [Option.mem_toList, Option.map_eq_some_iff] at h
      obtain ⟨version, hasks, heq⟩ := h
      rw [Prod.mk.injEq] at heq
      rw [← heq.1]
      exact slot_eq_none_of_asksFor hasks
    · by_contra hslot
      have hnext := (slot_lookUp config master w call v).mpr
        (Or.inl (Option.isSome_iff_ne_none.mpr hslot))
      rw [ih _ h] at hnext
      cases hnext

/-- No version is asked for twice. -/
theorem listQueries_unique (w : ReaderState) (calls : List Lookup) {v : Bytes}
    {answer answer' : Except Thrown Value} (h : (v, answer) ∈ listQueries config master w calls)
    (h' : (v, answer') ∈ listQueries config master w calls) : answer = answer' := by
  induction calls generalizing w with
  | nil => cases h
  | cons call calls ih =>
    have hopened : call.asksFor w = some v →
        ∀ b, (v, b) ∉ listQueries config master (lookUp config master w call) calls := by
      intro hasks b hb
      have hslot := (slot_lookUp config master w call v).mpr (Or.inr hasks)
      rw [slot_eq_none_of_mem config master _ calls hb] at hslot
      cases hslot
    rw [listQueries, List.mem_append, Option.mem_toList, Option.map_eq_some_iff] at h h'
    rcases h with ⟨version, hasks, heq⟩ | h
    · rw [Prod.mk.injEq] at heq
      rcases h' with ⟨version', hasks', heq'⟩ | h'
      · rw [Prod.mk.injEq] at heq'
        rw [← heq.2, ← heq'.2, heq.1, heq'.1]
      · exact absurd h' (hopened (heq.1 ▸ hasks) answer')
    · rcases h' with ⟨version', hasks', heq'⟩ | h'
      · rw [Prod.mk.injEq] at heq'
        exact absurd h (hopened (heq'.1 ▸ hasks') answer)
      · exact ih _ h h'

/-! ## Failures of API-list queries -/

/-- A failed API-list query is not remembered: a slot holds a list that was read to its end, and
where no list of a version could be read, the next one is asked for. -/
structure FailuresForgotten (calls : List Lookup) : Prop where
  slots : ∀ version,
    ((afterLookups config master calls).versionToKindToName.find version).isSome = true →
    ∃ answer, (version, answer) ∈ listQueries config master .initial calls ∧ ReadToEnd answer
  asksAgain : ∀ version kind,
    (∀ answer, (version, answer) ∈ listQueries config master .initial calls →
      ¬ ReadToEnd answer) →
    ReadToEnd (queryMaster config master (apiPath version)
      (afterLookups config master calls)).1 →
    Lists (queryMaster config master (apiPath version) (afterLookups config master calls)).1
      kind →
    ∃ path, (kindPath config master version kind (afterLookups config master calls)).1 = .ok path

theorem find_collectKinds {elements : List Value} (kinds : OrderedMap Bytes Bytes) {kind : Bytes}
    (hread : ∀ element ∈ elements, ∃ entry, kindEntry element = .ok entry)
    (h : (kinds.find kind).isSome = true ∨
      ∃ element ∈ elements, ∃ name, kindEntry element = .ok (some (kind, name))) :
    ((collectKinds kinds elements).find kind).isSome = true := by
  induction elements generalizing kinds with
  | nil => simpa [collectKinds] using h
  | cons element elements ih =>
    obtain ⟨entry, hentry⟩ := hread element List.mem_cons_self
    have hread' : ∀ e ∈ elements, ∃ entry, kindEntry e = .ok entry :=
      fun e he => hread e (List.mem_cons_of_mem _ he)
    rw [collectKinds, hentry]
    cases entry with
    | none =>
      refine ih kinds hread' ?_
      simpa [hentry] using h
    | some p =>
      obtain ⟨k, name⟩ := p
      refine ih _ hread' ?_
      rw [OrderedMap.find_emplace]
      by_cases hk : kind = k
      · left
        rw [if_pos hk]
        rfl
      · rw [if_neg hk]
        simpa [hentry, Ne.symm hk] using h

theorem find_apiList_of_lists {version kind : Bytes} {w : ReaderState}
    (hslot : w.versionToKindToName.find version = none)
    (hread : ReadToEnd (queryMaster config master (apiPath version) w).1)
    (hlists : Lists (queryMaster config master (apiPath version) w).1 kind) :
    ((apiList config master version w).find kind).isSome = true := by
  obtain ⟨elements, helements, hentries⟩ := hread
  obtain ⟨elements', helements', hlisted⟩ := hlists
  rw [helements, Option.some.injEq] at helements'
  subst helements'
  rw [apiList, hslot]
  cases hanswer : (queryMaster config master (apiPath version) w).1 with
  | error e =>
    rw [hanswer] at helements
    cases helements
  | ok response =>
    rw [hanswer, apiElements, Option.bind_eq_some_iff] at helements
    obtain ⟨list, hlist, harray⟩ := helements
    rw [toOption_eq_some] at hlist harray
    simp only [apiKinds, hlist, harray]
    exact find_collectKinds .empty hentries (Or.inr hlisted)

theorem kindPath_eq_ok {version kind : Bytes} {w : ReaderState}
    (h : ((apiList config master version w).find kind).isSome = true) :
    ∃ path, (kindPath config master version kind w).1 = .ok path := by
  obtain ⟨name, hname⟩ := Option.isSome_iff_exists.mp h
  refine ⟨(apiPath version, name), ?_⟩
  rw [kindPath]
  simp only [kindName_loadKinds, hname]

/-- Failures are forgotten exactly in the runs that have none. -/
theorem failuresForgotten_iff (calls : List Lookup) :
    FailuresForgotten config master calls ↔
      ∀ query ∈ listQueries config master .initial calls, ReadToEnd query.2 := by
  constructor
  · rintro ⟨hslots, _⟩ ⟨version, answer⟩ hquery
    have hslot := (slot_foldl config master .initial calls version).mpr (Or.inr ⟨answer, hquery⟩)
    obtain ⟨answer', hquery', hread⟩ := hslots version hslot
    rw [listQueries_unique config master .initial calls hquery hquery']
    exact hread
  · intro hall
    refine ⟨?_, ?_⟩
    · intro version hslot
      rcases (slot_foldl config master .initial calls version).mp hslot with hinit | hasked
      · cases hinit
      · obtain ⟨answer, hquery⟩ := hasked
        exact ⟨answer, hquery, hall _ hquery⟩
    · intro version kind hfailed hread hlists
      have hslot : (afterLookups config master calls).versionToKindToName.find version = none := by
        by_contra hsome
        rw [← Ne, ← Option.isSome_iff_ne_none, afterLookups, slot_foldl] at hsome
        rcases hsome with hinit | ⟨answer, hquery⟩
        · cases hinit
        · exact hfailed answer hquery (hall _ hquery)
      exact kindPath_eq_ok config master
        (find_apiList_of_lists config master hslot hread hlists)

/-! ## Owners and their uids -/

/-- Every key of the owners cache ends in the uid of its owner. -/
def KeyedByUid (w : ReaderState) : Prop :=
  ∀ key owner, w.owners.find key = some owner →
    ∃ front uid, key = front ++ 0x2f :: uid ∧ 0x2f ∉ uid ∧ objectUid owner = .ok uid

def UidSlashFree (o : Object) : Prop := ∀ uid, getString o (lit "uid") = .ok uid → 0x2f ∉ uid

def Lookup.SlashFree : Lookup → Prop
  | .kindPath _ _ => True
  | .getOwner _ o => UidSlashFree o

theorem OwnerRef.encoded_eq (ref : OwnerRef) :
    ref.encoded = (ref.apiVersion ++ 0x2f :: ref.kind) ++ 0x2f :: ref.uid := by
  rw [OwnerRef.encoded, intercalate_cons]
  simp

theorem uid_of_ownerRef {o : Object} {ref : OwnerRef} (h : ownerRef o = .ok ref) :
    getString o (lit "uid") = .ok ref.uid := by
  simp only [ownerRef, bind_eq_ok, pure_eq_ok] at h
  obtain ⟨apiVersion, _, kind, _, name, _, uid, huid, heq⟩ := h
  rw [huid, ← heq]

/-- What is cached under the key of a reference has the uid of the reference, even where the
version or the kind has slashes. -/
theorem KeyedByUid.uid {w : ReaderState} (hkeyed : KeyedByUid w) {ref : OwnerRef} {owner : Value}
    (hslash : 0x2f ∉ ref.uid) (h : w.owners.find ref.encoded = some owner) :
    objectUid owner = .ok ref.uid := by
  obtain ⟨front, uid, hkey, huid, howner⟩ := hkeyed ref.encoded owner h
  rw [OwnerRef.encoded_eq] at hkey
  rw [howner, (last_split_unique hslash huid hkey).2]

theorem KeyedByUid.emplace {w w' : ReaderState} (hkeyed : KeyedByUid w) {ref : OwnerRef}
    {owner : Value} (hslash : 0x2f ∉ ref.uid) (howner : objectUid owner = .ok ref.uid)
    (hnew : w.owners.find ref.encoded = none)
    (howners : w'.owners = w.owners.emplace ref.encoded owner) : KeyedByUid w' := by
  intro key value h
  rw [howners, OrderedMap.find_emplace, hnew, Option.getD_none] at h
  by_cases hkey : key = ref.encoded
  · rw [if_pos hkey, Option.some.injEq] at h
    refine ⟨ref.apiVersion ++ 0x2f :: ref.kind, ref.uid, ?_, hslash, h ▸ howner⟩
    rw [hkey, OwnerRef.encoded_eq]
  · rw [if_neg hkey] at h
    exact hkeyed key value h

theorem KeyedByUid.lookUp {w : ReaderState} (hkeyed : KeyedByUid w) {call : Lookup}
    (hslash : call.SlashFree) : KeyedByUid (lookUp config master w call) := by
  cases call with
  | kindPath version kind =>
    intro key owner h
    rw [KubernetesReader.lookUp, kindPath_state, loadKinds_owners] at h
    exact hkeyed key owner h
  | getOwner ns o =>
    rw [KubernetesReader.lookUp]
    rcases getOwner_state config master ns o w with
      ⟨hstate, _⟩ | ⟨ref, href, huncached, _, howners | ⟨owner, _, huid, howners⟩⟩
    · rw [hstate]
      exact hkeyed
    · intro key owner h
      rw [howners] at h
      exact hkeyed key owner h
    · exact hkeyed.emplace (hslash ref.uid (uid_of_ownerRef href)) huid huncached howners

theorem keyedByUid_afterLookups (calls : List Lookup) (hslash : ∀ call ∈ calls, call.SlashFree) :
    KeyedByUid (afterLookups config master calls) := by
  rw [afterLookups]
  induction calls using List.reverseRecOn with
  | nil =>
    intro key owner h
    cases h
  | append_singleton calls call ih =>
    rw [List.foldl_append, List.foldl_cons, List.foldl_nil]
    refine (ih fun c hc => hslash c (List.mem_append_left _ hc)).lookUp config master ?_
    exact hslash call (List.mem_append_right _ List.mem_cons_self)

/-- An owner is never confused with another object of its name. -/
theorem getOwner_uid (calls : List Lookup) (hcalls : ∀ call ∈ calls, call.SlashFree)
    (ns : Bytes) (o : Object) (ho : UidSlashFree o) :
    let w := afterLookups config master calls
    (∀ owner, (getOwner config master ns o w).1 = .ok owner →
      ∃ uid, getString o (lit "uid") = .ok uid ∧ objectUid owner = .ok uid) ∧
    (∀ e, (getOwner config master ns o w).1 = .error e →
      (getOwner config master ns o w).2.owners = w.owners) := by
  intro w
  have hkeyed : KeyedByUid w := keyedByUid_afterLookups config master calls hcalls
  clear_value w
  refine ⟨?_, ?_⟩
  · intro owner h
    obtain ⟨w', hget⟩ : ∃ w', getOwner config master ns o w = (.ok owner, w') :=
      ⟨_, Prod.ext h rfl⟩
    cases (getOwner_eq_ok config master).mp hget with
    | cached href hcached =>
      have huid := uid_of_ownerRef href
      exact ⟨_, huid, hkeyed.uid (ho _ huid) hcached⟩
    | served href _ _ _ howner => exact ⟨_, uid_of_ownerRef href, howner⟩
  · intro e h
    rcases getOwner_state config master ns o w with
      ⟨hstate, _⟩ | ⟨_, _, _, _, howners | ⟨owner, hok, _⟩⟩
    · rw [hstate]
    · exact howners
    · rw [hok] at h
      cases h

end Lookups

/-- A master that cannot be reached at first, and then lists the kind `Pod`. -/
def recoveringMaster : Master := fun n _ =>
  if n = 0 then .failure (lit "Connection refused")
  else .answer 200 (lit "OK") (.ok (.object [(lit "resources", .array [
    .object [(lit "kind", .string (lit "Pod")), (lit "name", .string (lit "pods"))]])]))

def lookupConfig : Configuration := ⟨lit "https://kubernetes.default.svc", lit "0.1", lit "."⟩

theorem failure_remembered :
    ¬ FailuresForgotten lookupConfig recoveringMaster [.kindPath (lit "v1") (lit "Pod")] := by
  intro h
  obtain ⟨answer, hquery, elements, helements, _⟩ := h.slots (lit "v1") (by decide +kernel)
  have hfailed : listQueries lookupConfig recoveringMaster .initial
      [.kindPath (lit "v1") (lit "Pod")] = [(lit "v1", .error (.query ⟨
        lit "https://kubernetes.default.svc/api/v1 -> Connection refused", false⟩))] := by
    decide +kernel
  rw [hfailed, List.mem_singleton, Prod.mk.injEq] at hquery
  rw [hquery.2] at helements
  cases helements

/-- The same kind is unknown after that, though the master lists it now. -/
example : (kindPath lookupConfig recoveringMaster (lit "v1") (lit "Pod")
    (afterLookups lookupConfig recoveringMaster [.kindPath (lit "v1") (lit "Pod")])).1 =
      .error (.string (lit "Unknown kind: Pod")) := by
  decide +kernel

/-- A replica set that was created again under its name with another uid. -/
def recreatingMaster : Master := fun n path =>
  if path = lit "/apis/apps/v1" then
    .answer 200 (lit "OK") (.ok (.object [(lit "resources", .array [
      .object [(lit "kind", .string (lit "ReplicaSet")), (lit "name", .string (lit "replicasets"))]])]))
  else .answer 200 (lit "OK") (.ok (.object [(lit "metadata", .object [
    (lit "name", .string (lit "web")),
    (lit "uid", .string (if n < 3 then lit "r1" else lit "r2"))])]))

def webOwnerRef (uid : Bytes) : Object :=
  [(lit "apiVersion", .string (lit "apps/v1")), (lit "kind", .string (lit "ReplicaSet")),
    (lit "name", .string (lit "web")), (lit "uid", .string uid)]

theorem uidSlashFree_webOwnerRef {uid : Bytes} (h : 0x2f ∉ uid) :
    UidSlashFree (webOwnerRef uid) := by
  intro uid' huid
  have hget : getString (webOwnerRef uid) (lit "uid") = .ok uid := getString_eq_ok.mpr rfl
  rw [hget, Except.ok.injEq] at huid
  exact huid ▸ h

theorem recreated_owner_has_uid :
    let w := afterLookups lookupConfig recreatingMaster
      [.getOwner (lit "default") (webOwnerRef (lit "r1")),
        .getOwner (lit "default") (webOwnerRef (lit "r2"))]
    (∀ owner, (getOwner lookupConfig recreatingMaster (lit "default")
        (webOwnerRef (lit "r2")) w).1 = .ok owner →
      ∃ uid, getString (webOwnerRef (lit "r2")) (lit "uid") = .ok uid ∧
        objectUid owner = .ok uid) ∧
    (∀ e, (getOwner lookupConfig recreatingMaster (lit "default")
        (webOwnerRef (lit "r2")) w).1 = .error e →
      (getOwner lookupConfig recreatingMaster (lit "default")
        (webOwnerRef (lit "r2")) w).2.owners = w.owners) := by
  refine getOwner_uid lookupConfig recreatingMaster _ ?_ _ _
    (uidSlashFree_webOwnerRef (by decide))
  intro call hcall
  simp only [List.mem_cons, List.not_mem_nil, or_false] at hcall
  rcases hcall with rfl | rfl
  · exact uidSlashFree_webOwnerRef (by decide)
  · exact uidSlashFree_webOwnerRef (by decide)

/-- The second object of the name is refused while the first one is served, and found later. -/
example :
    let run := fun calls => afterLookups lookupConfig recreatingMaster
      (calls.map fun uid => .getOwner (lit "default") (webOwnerRef uid))
    (run [lit "r1", lit "r2"]).owners.entries.map Prod.fst = [lit "apps/v1/ReplicaSet/r1"] ∧
    (run [lit "r1", lit "r2", lit "r2"]).owners.entries.map Prod.fst =
      [lit "apps/v1/ReplicaSet/r1", lit "apps/v1/ReplicaSet/r2"] := by
  decide +kernel

end MetadataAgent.KubernetesReader
