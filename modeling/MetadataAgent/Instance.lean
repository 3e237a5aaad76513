import MetadataAgent.Docker

/-! # Instance metadata and what escapes a poll

The instance reader reports the machine itself. `InstanceResource` throws `std::out_of_range` when
the machine does not know its id or its zone, and `substr` throws it for an empty container name;
the readers catch neither, and nothing above them on the polling thread does. -/
namespace MetadataAgent.InstanceReader
open Lib Json
open KubernetesReader (ResourceMetadata)
set_option autoImplicit false

/-- `none` is `std::out_of_range`. -/
def metadataQuery (environment : Environment) : Option (List ResourceMetadata) :=
  environment.instanceResource.map fun instanceResource =>
    [⟨[[], environment.instanceId], instanceResource, .ignored⟩]

theorem instanceResource_eq_none {environment : Environment} :
    environment.instanceResource = none ↔
      environment.instanceId = [] ∨ environment.instanceZone = [] := by
  rw [Environment.instanceResource]
  split
  · rename_i h
    simpa using h
  · rename_i h
    simpa using h

theorem metadataQuery_returns_iff (environment : Environment) :
    (∃ results, metadataQuery environment = some results) ↔
      environment.instanceId ≠ [] ∧ environment.instanceZone ≠ [] := by
  rw [← Option.isSome_iff_exists, metadataQuery, Option.isSome_map, Option.isSome_iff_ne_none, Ne,
    instanceResource_eq_none, not_or]

end MetadataAgent.InstanceReader

namespace MetadataAgent.DockerReader
open Lib Json
open KubernetesReader (ResourceMetadata)

section Escapes
variable (config : DockerConfiguration) (environment : Environment)
variable (fromString : Bytes → Timestamp) (daemon : Daemon)

/-- The list element has an id, and the daemon describes it with all the fields that are read. -/
def Described (rawContainer : Value) (name : Bytes) : Prop :=
  ∃ element id description state created dead, rawContainer = .object element ∧
    getString element (lit "Id") = .ok id ∧
    queryDocker config daemon (inspectPath id) = .ok (.object description) ∧
    getString description (lit "Name") = .ok name ∧
    getString description (lit "Created") = .ok created ∧
    getObject description (lit "State") = .ok state ∧
    getBoolean state (lit "Dead") = .ok dead

def Listed (rawContainer : Value) : Prop :=
  ∃ containerList, queryDocker config daemon (listPath config) = .ok (.array containerList) ∧
    rawContainer ∈ containerList

theorem processContainer_ne_query (collectedAt : Timestamp) (rawContainer : Value)
    (q : KubernetesReader.QueryException) :
    processContainer config environment fromString daemon collectedAt rawContainer ≠
      .error (.query q) := by
  unfold processContainer getContainerMetadata
  intro h
  cases hobject : asObject rawContainer with
  | error e => simp [hobject, Except.mapError, bind, Except.bind] at h
  | ok element =>
    cases hid : getString element (lit "Id") with
    | error e => simp [hobject, hid, Except.mapError, bind, Except.bind] at h
    | ok id =>
      simp only [hobject, hid, Except.mapError, bind, Except.bind] at h
      split at h
      · cases h
      · rename_i hother
        exact hother q h

theorem queryDocker_ne_outOfRange (path : Bytes) :
    queryDocker config daemon path ≠ .error .outOfRange := by
  unfold queryDocker
  intro h
  cases hanswer : daemon path with
  | failure what =>
    rw [hanswer] at h
    cases h
  | answer status statusMessage body =>
    rw [hanswer] at h
    simp only at h
    split at h
    · cases h
    · split at h
      · cases h
      · rw [mapError_eq_error] at h
        obtain ⟨e, _, he⟩ := h
        cases he

theorem dropSlash_outOfRange_iff {name : Bytes} :
    dropSlash name = .error .outOfRange ↔ name = [] := by
  cases name <;> simp [dropSlash]

theorem inspectContainer_outOfRange_iff (id : Bytes) (collectedAt : Timestamp) :
    inspectContainer config environment fromString daemon id collectedAt = .error .outOfRange ↔
      ∃ description name state created dead,
        queryDocker config daemon (inspectPath id) = .ok (.object description) ∧
        getString description (lit "Name") = .ok name ∧
        getString description (lit "Created") = .ok created ∧
        getObject description (lit "State") = .ok state ∧
        getBoolean state (lit "Dead") = .ok dead ∧
        (environment.instanceResource = none ∨ name = []) := by
  have hnone : environment.instanceResource.elim (.error .outOfRange)
      (Except.ok (ε := Thrown)) = .error .outOfRange ↔ environment.instanceResource = none := by
    cases environment.instanceResource <;> simp
  have hsome : ∀ r, environment.instanceResource.elim (.error .outOfRange)
      (Except.ok (ε := Thrown)) = .ok r ↔ environment.instanceResource = some r := by
    intro r
    cases environment.instanceResource <;> simp
  have hlast : ∀ name : Bytes, (environment.instanceResource = none ∨
      ∃ r, environment.instanceResource = some r ∧ name = []) ↔
        environment.instanceResource = none ∨ name = [] := by
    intro name
    cases environment.instanceResource <;> simp
  simp only [inspectContainer, bind_eq_error, mapError_eq_ok, mapError_eq_error, hnone, hsome,
    queryDocker_ne_outOfRange, dropSlash_outOfRange_iff, asObject_eq_ok, pure, Except.pure,
    reduceCtorEq, and_false, exists_false, false_or, or_false, hlast]
  constructor
  · rintro ⟨_, hquery, description, rfl, name, hname, created, hcreated, state, hstate, dead, hdead,
      hescape⟩
    exact ⟨description, name, state, created, dead, hquery, hname, hcreated, hstate, hdead, hescape⟩
  · rintro ⟨description, name, state, created, dead, hquery, hname, hcreated, hstate, hdead,
      hescape⟩
    exact ⟨_, hquery, description, rfl, name, hname, created, hcreated, state, hstate, dead, hdead,
      hescape⟩

theorem getContainerMetadata_outOfRange_iff (container : Object) (collectedAt : Timestamp) :
    getContainerMetadata config environment fromString daemon container collectedAt =
        .error .outOfRange ↔
      ∃ id, getString container (lit "Id") = .ok id ∧
        inspectContainer config environment fromString daemon id collectedAt =
          .error .outOfRange := by
  unfold getContainerMetadata
  rw [bind_eq_error, mapError_eq_error]
  simp only [mapError_eq_ok, reduceCtorEq, and_false, exists_false, false_or]
  refine exists_congr fun id => and_congr_right fun _ => ?_
  split
  · rename_i what heq
    simp [heq]
  · rfl

/-- A container ends the poll exactly when it is described and there is no instance information,
or its name is empty. -/
theorem processContainer_outOfRange_iff (collectedAt : Timestamp) (rawContainer : Value) :
    processContainer config environment fromString daemon collectedAt rawContainer =
        .error .outOfRange ↔
      ∃ name, Described config daemon rawContainer name ∧
        (environment.instanceResource = none ∨ name = []) := by
  simp only [processContainer, bind_eq_error, mapError_eq_ok, mapError_eq_error, asObject_eq_ok,
    getContainerMetadata_outOfRange_iff, inspectContainer_outOfRange_iff, reduceCtorEq, and_false,
    exists_false, false_or]
  constructor
  · rintro ⟨element, rfl, id, hid, description, name, state, created, dead, hquery, hname, hcreated,
      hstate, hdead, hescape⟩
    exact ⟨name, ⟨element, id, description, state, created, dead, rfl, hid, hquery, hname, hcreated,
      hstate, hdead⟩, hescape⟩
  · rintro ⟨name, ⟨element, id, description, state, created, dead, rfl, hid, hquery, hname,
      hcreated, hstate, hdead⟩, hescape⟩
    exact ⟨element, rfl, id, hid, description, name, state, created, dead, hquery, hname, hcreated,
      hstate, hdead, hescape⟩

theorem containerLoop_returns_iff (collectedAt : Timestamp) (result : List ResourceMetadata)
    (containerList : List Value) :
    (∃ results, containerLoop config environment fromString daemon collectedAt result
      containerList = .ok results) ↔
    ∀ rawContainer ∈ containerList,
      processContainer config environment fromString daemon collectedAt rawContainer ≠
        .error .outOfRange := by
  induction containerList generalizing result with
  | nil => simp [containerLoop]
  | cons rawContainer rest ih =>
    rw [List.forall_mem_cons, containerLoop]
    cases h : processContainer config environment fromString daemon collectedAt rawContainer with
    | ok metadata => simpa using ih (result ++ [metadata])
    | error e =>
      cases e with
      | json e => simpa using ih result
      | query what =>
        exact absurd h (processContainer_ne_query config environment fromString daemon collectedAt
          rawContainer what)
      | outOfRange => simp

/-- The Docker reader returns exactly when no described container meets missing instance
information or has an empty name. -/
theorem metadataQuery_returns_iff (collectedAt : Timestamp) :
    (∃ results, metadataQuery config environment fromString daemon collectedAt = .ok results) ↔
      ∀ rawContainer name, Listed config daemon rawContainer →
        Described config daemon rawContainer name →
          environment.instanceResource ≠ none ∧ name ≠ [] := by
  have hescape : ∀ rawContainer,
      processContainer config environment fromString daemon collectedAt rawContainer ≠
        .error .outOfRange ↔
      ∀ name, Described config daemon rawContainer name →
        environment.instanceResource ≠ none ∧ name ≠ [] := by
    intro rawContainer
    rw [Ne, processContainer_outOfRange_iff]
    simp [not_or]
  unfold metadataQuery Listed
  cases hlist : queryDocker config daemon (listPath config) with
  | error e => simp
  | ok parsedList =>
    cases parsedList with
    | array containerList =>
      simp only [as, Value.asArray?, containerLoop_returns_iff, hescape]
      constructor
      · rintro h rawContainer name ⟨_, ⟨⟩, hmem⟩ hdescribed
        exact h rawContainer hmem name hdescribed
      · intro h rawContainer hmem name hdescribed
        exact h rawContainer name ⟨_, rfl, hmem⟩ hdescribed
    | _ => simp [as, Value.asArray?]

/-- No exception leaves the queries of the two polling readers. -/
def NothingEscapes (collectedAt : Timestamp) : Prop :=
  (∃ results, metadataQuery config environment fromString daemon collectedAt = .ok results) ∧
    ∃ results, InstanceReader.metadataQuery environment = some results

/-- Nothing escapes exactly when the machine knows its id and its zone and no described container
has an empty name. -/
theorem nothingEscapes_iff (collectedAt : Timestamp) :
    NothingEscapes config environment fromString daemon collectedAt ↔
      environment.instanceId ≠ [] ∧ environment.instanceZone ≠ [] ∧
        ∀ rawContainer name, Listed config daemon rawContainer →
          Described config daemon rawContainer name → name ≠ [] := by
  rw [NothingEscapes, metadataQuery_returns_iff, InstanceReader.metadataQuery_returns_iff]
  constructor
  · rintro ⟨hdocker, hid, hzone⟩
    exact ⟨hid, hzone, fun rawContainer name hlisted hdescribed =>
      (hdocker rawContainer name hlisted hdescribed).2⟩
  · rintro ⟨hid, hzone, hnames⟩
    refine ⟨?_, hid, hzone⟩
    intro rawContainer name hlisted hdescribed
    refine ⟨?_, hnames rawContainer name hlisted hdescribed⟩
    rw [Ne, InstanceReader.instanceResource_eq_none, not_or]
    exact ⟨hid, hzone⟩

end Escapes

/-- A machine that could not be told its id and its zone. -/
def unknownMachine : Environment :=
  ⟨lit "cluster", lit "us-central1-a", lit "gce_instance", [], []⟩

theorem unknown_machine_escapes :
    ¬ NothingEscapes dockerConfig unknownMachine (fun _ => 0) (oneContainer ⟨lit "c1", lit "web"⟩)
      0 := by
  rintro ⟨_, results, h⟩
  cases h

/-- The first container that can be inspected ends the Docker reader on that machine, too. -/
example : (metadataQuery dockerConfig unknownMachine (fun _ => 0)
    (oneContainer ⟨lit "c1", lit "web"⟩) 0).isOk = false := by
  decide +kernel

end MetadataAgent.DockerReader
