import MetadataAgent.Kubernetes.Owners
import MetadataAgent.Kubernetes.Services
import MetadataAgent.Store

/-! # Pods

A pod is reported as one resource for each of its containers and one for itself, all with the
associations of the pod: its instance, its top-level controller and its node. The callers handle
`json::Exception` and nothing else. -/
namespace MetadataAgent.KubernetesReader
open Lib Json
set_option autoImplicit false

/-! ## The functions of one pod -/

/-- `MetadataUpdater::ResourceMetadata`. -/
structure ResourceMetadata where
  ids : List Bytes
  resource : MonitoredResource
  metadata : Metadata
  deriving DecidableEq

/-- An object under `raw`, with its version. -/
def versioned (version : Bytes) (raw : Value) : Value :=
  object [(lit "version", some (.string version)), (lit "raw", some raw)]

def containerResource (clusterName namespaceName podName containerName location : Bytes) :
    MonitoredResource :=
  .ofLabels (lit "k8s_container") [
    (lit "cluster_name", clusterName),
    (lit "namespace_name", namespaceName),
    (lit "pod_name", podName),
    (lit "container_name", containerName),
    (lit "location", location)]

def dockerIdPrefix : Bytes := lit "docker://"

def stripDockerPrefix (dockerId : Bytes) : Bytes :=
  if dockerId.take dockerIdPrefix.length ≠ dockerIdPrefix then dockerId
  else dockerId.drop dockerIdPrefix.length

section Description
variable (config : Configuration) (environment : Environment)
/- `time::rfc3339::FromString`, which depends on the time zone of the machine. -/
variable (fromString : Bytes → Timestamp)

/-- A local id: the kind of resource and the parts of its name. -/
def localResourceId (parts : List Bytes) : Bytes :=
  config.metadataApiResourceTypeSeparator.intercalate parts

def getPodMetadata (pod : Object) (associations : Option Value) (collectedAt : Timestamp)
    (isDeleted : Bool) : Except Exception ResourceMetadata := do
  let metadata ← getObject pod (lit "metadata")
  let namespaceName ← getString metadata (lit "namespace")
  let podName ← getString metadata (lit "name")
  let podId ← getString metadata (lit "uid")
  let createdStr ← getString metadata (lit "creationTimestamp")
  let podRawMetadata := object [
    (lit "blobs", some (object [
      (lit "association", associations),
      (lit "api", some (versioned kubernetesApiVersion (.object pod)))]))]
  return {
    ids := [
      localResourceId config [lit "k8s_pod", podId],
      localResourceId config [lit "k8s_pod", namespaceName, podName]]
    resource := podResource environment.kubernetesClusterName namespaceName podName
      environment.kubernetesClusterLocation
    metadata := ⟨config.metadataIngestionRawContentVersion, isDeleted, fromString createdStr,
      collectedAt, podRawMetadata, false⟩ }

def containerIds (containerStatus : Option Object) : Except Exception (List Bytes) :=
  match containerStatus with
  | none => return []
  | some status =>
    if has status (lit "containerID") then do
      let dockerId ← getString status (lit "containerID")
      return [localResourceId config [lit "k8s_container", stripDockerPrefix dockerId]]
    else return []

def podLabels (metadata : Object) : Except Exception (Option Object) :=
  if has metadata (lit "labels") then do
    let labels ← getObject metadata (lit "labels")
    return some labels
  else return none

def getContainerMetadata (pod containerSpec : Object) (containerStatus : Option Object)
    (associations : Option Value) (collectedAt : Timestamp) (isDeleted : Bool) :
    Except Exception ResourceMetadata := do
  let metadata ← getObject pod (lit "metadata")
  let namespaceName ← getString metadata (lit "namespace")
  let podName ← getString metadata (lit "name")
  let podId ← getString metadata (lit "uid")
  let createdStr ← getString metadata (lit "creationTimestamp")
  let labels ← podLabels metadata
  let containerName ← getString containerSpec (lit "name")
  let containerRawMetadata := object [
    (lit "blobs", some (object [
      (lit "association", associations),
      (lit "spec", some (versioned kubernetesApiVersion (.object containerSpec))),
      (lit "status", containerStatus.map fun s => versioned kubernetesApiVersion (.object s)),
      (lit "labels", labels.map fun l => versioned kubernetesApiVersion (.object l))]))]
  let idsOfStatus ← containerIds config containerStatus
  return {
    ids := [
      localResourceId config [lit "k8s_container", podId, containerName],
      localResourceId config [lit "k8s_container", namespaceName, podName, containerName]] ++
        idsOfStatus
    resource := containerResource environment.kubernetesClusterName namespaceName podName
      containerName environment.kubernetesClusterLocation
    metadata := ⟨kubernetesApiVersion, isDeleted, fromString createdStr, collectedAt,
      containerRawMetadata, false⟩ }

/-- One turn of the loop that fills `container_status_by_name`. -/
def addContainerStatus (byName : OrderedMap Bytes Object) (cStatus : Value) :
    Except Exception (OrderedMap Bytes Object) := do
  let containerStatus ← asObject cStatus
  let name ← getString containerStatus (lit "name")
  return byName.emplace name containerStatus

def containerStatusByName (status : Object) : Except Exception (OrderedMap Bytes Object) :=
  if has status (lit "containerStatuses") then do
    let containerStatuses ← getArray status (lit "containerStatuses")
    containerStatuses.foldlM addContainerStatus .empty
  else return .empty

/-- `GetPodAndContainerMetadata` after the associations: the containers in order, then the pod. -/
def podAndContainers (pod : Object) (collectedAt : Timestamp) (isDeleted : Bool)
    (associations : Option Value) : Except Exception (List ResourceMetadata) := do
  let metadata ← getObject pod (lit "metadata")
  let _podName ← getString metadata (lit "name")
  let _podId ← getString metadata (lit "uid")
  let spec ← getObject pod (lit "spec")
  let status ← getObject pod (lit "status")
  let containerSpecs ← getArray spec (lit "containers")
  let statusByName ← containerStatusByName status
  let containers ← containerSpecs.mapM fun cSpec => do
    let containerSpec ← asObject cSpec
    let name ← getString containerSpec (lit "name")
    getContainerMetadata config environment fromString pod containerSpec (statusByName.find name)
      associations collectedAt isDeleted
  let podMetadata ← getPodMetadata config environment fromString pod associations collectedAt
    isDeleted
  return containers ++ [podMetadata]

/-! ## Associations -/

def podNamespace (pod : Object) : Except Exception (Object × Bytes) := do
  let metadata ← getObject pod (lit "metadata")
  let namespaceName ← getString metadata (lit "namespace")
  return (metadata, namespaceName)

/-- The kind of a top-level controller. An object without one is the pod; its uid is read for the
log. -/
def controllerKind (topLevelController topLevelMetadata : Object) : Except Exception Bytes :=
  if has topLevelController (lit "kind") then getString topLevelController (lit "kind")
  else do
    let _topLevelUid ← getString topLevelMetadata (lit "uid")
    return lit "Pod"

def controllersOf (metadata : Object) (topLevel : Value) : Except Exception Value := do
  let topLevelController ← asObject topLevel
  let topLevelMetadata ← getObject topLevelController (lit "metadata")
  let topLevelName ← getString topLevelMetadata (lit "name")
  let _podId ← getString metadata (lit "uid")
  let topLevelKind ← controllerKind topLevelController topLevelMetadata
  return object [
    (lit "topLevelControllerType", some (.string topLevelKind)),
    (lit "topLevelControllerName", some (.string topLevelName))]

/-- The `try` block around the controllers. The handler of `QueryException` reads the name of the
pod for the log. -/
def podControllers (metadata : Object) (topLevel : Except Thrown Value) :
    Except Thrown (Option Value) :=
  match topLevel with
  | .ok topLevel => ((controllersOf metadata topLevel).map some).mapError .json
  | .error (.query _) => ((getString metadata (lit "name")).map fun _ => none).mapError .json
  | .error (.json e) => .error (.json e)
  | .error (.string s) => .error (.string s)

def podNodeName (pod : Object) : Except Exception (Option Value) := do
  let spec ← getObject pod (lit "spec")
  if has spec (lit "nodeName") then
    let nodeName ← getString spec (lit "nodeName")
    return some (.string nodeName)
  else return none

/-- The associations of a pod, `none` if there is nothing in them. -/
def rawAssociations (controllers nodeName : Option Value) : Option Value :=
  let raw := object [
    (lit "infrastructureResource", environment.instanceResource.map MonitoredResource.toJSON),
    (lit "controllers", controllers),
    (lit "nodeName", nodeName)]
  if raw = .object [] then none
  else some (versioned config.metadataIngestionRawContentVersion raw)

/-- `ComputePodAssociations` after the search for the top-level controller. -/
def associationsFrom (pod metadata : Object) (topLevel : Except Thrown Value) :
    Except Thrown (Option Value) := do
  let controllers ← podControllers metadata topLevel
  let nodeName ← (podNodeName pod).mapError .json
  return rawAssociations config environment controllers nodeName

end Description

section Pods
variable (config : Configuration) (environment : Environment) (fromString : Bytes → Timestamp)
variable (master : Master)

def computePodAssociations (fuel : ℕ) (pod : Object) (w : ReaderState) :
    Option (Except Thrown (Option Value) × ReaderState) :=
  match podNamespace pod with
  | .error e => some (.error (.json e), w)
  | .ok (metadata, namespaceName) =>
    (findTopLevelController config master fuel namespaceName (.object pod) w).map
      fun found => (associationsFrom config environment pod metadata found.1, found.2)

def getPodAndContainerMetadata (fuel : ℕ) (pod : Object) (collectedAt : Timestamp)
    (isDeleted : Bool) (w : ReaderState) :
    Option (Except Thrown (List ResourceMetadata) × ReaderState) :=
  (computePodAssociations config environment master fuel pod w).map fun computed =>
    (computed.1.bind fun associations =>
      (podAndContainers config environment fromString pod collectedAt isDeleted
        associations).mapError .json, computed.2)

/-! ## What the callers handle -/

/-- `throw(json::Exception)`. -/
def Thrown.isJson : Thrown → Prop
  | .json _ => True
  | .query _ => False
  | .string _ => False

/-- The call comes to an end, with a value or a `json::Exception`. -/
def Handled {α : Type} (call : ℕ → Option (Except Thrown α × ReaderState)) : Prop :=
  ∃ fuel r, call fuel = some r ∧ ∀ e, r.1 = .error e → e.isJson

def PodResolves (pod : Object) (w : ReaderState) : Prop :=
  ∀ metadata namespaceName, podNamespace pod = .ok (metadata, namespaceName) →
    ChainEnds config master namespaceName (.object pod, w) ∧
      KindsKnown config master namespaceName (.object pod, w)

theorem isJson_of_mapError {α : Type} {x : Except Exception α} {e : Thrown}
    (h : x.mapError Thrown.json = .error e) : e.isJson := by
  cases x with
  | ok a => cases h
  | error x =>
    rw [← Except.error.inj h]
    trivial

theorem bind_mapError_isJson_iff {α β : Type} (x : Except Thrown α) (f : α → Except Exception β) :
    (∀ e, (x.bind fun a => (f a).mapError Thrown.json) = .error e → e.isJson) ↔
      ∀ e, x = .error e → e.isJson := by
  cases x with
  | error x =>
    constructor
    · intro h e he
      cases he
      exact h x rfl
    · intro h e he
      cases he
      exact h x rfl
  | ok a =>
    constructor
    · intro _ e he
      cases he
    · intro _ e he
      exact isJson_of_mapError he

theorem podControllers_isJson_iff (metadata : Object) (topLevel : Except Thrown Value) :
    (∀ e, podControllers metadata topLevel = .error e → e.isJson) ↔
      ∀ e, topLevel = .error e → e.declared := by
  cases topLevel with
  | ok v =>
    constructor
    · intro _ e he
      cases he
    · intro _ e he
      exact isJson_of_mapError he
  | error x =>
    cases x with
    | json x => simp [podControllers, Thrown.isJson, Thrown.declared]
    | query x =>
      constructor
      · intro _ e he
        cases he
        trivial
      · intro _ e he
        exact isJson_of_mapError he
    | string s => simp [podControllers, Thrown.isJson, Thrown.declared]

/-- A `QueryException` of the search is handled; only an undeclared exception goes through. -/
theorem associationsFrom_isJson_iff (pod metadata : Object) (topLevel : Except Thrown Value) :
    (∀ e, associationsFrom config environment pod metadata topLevel = .error e → e.isJson) ↔
      ∀ e, topLevel = .error e → e.declared := by
  rw [← podControllers_isJson_iff metadata topLevel]
  have heq : associationsFrom config environment pod metadata topLevel =
      (podControllers metadata topLevel).bind fun controllers =>
        ((podNodeName pod).map
          (rawAssociations config environment controllers)).mapError .json := by
    rw [associationsFrom]
    cases podControllers metadata topLevel with
    | error e => rfl
    | ok controllers =>
      cases podNodeName pod with
      | error e => rfl
      | ok nodeName => rfl
  rw [heq]
  exact bind_mapError_isJson_iff _ _

theorem findTopLevelController_settles_iff (ns : Bytes) (object : Value) (w : ReaderState) :
    (∃ fuel r, findTopLevelController config master fuel ns object w = some r ∧
      ∀ e, r.1 = .error e → e.declared) ↔
      ChainEnds config master ns (object, w) ∧ KindsKnown config master ns (object, w) := by
  rw [← findTopLevelController_ends_iff, ← findTopLevelController_declared_iff]
  constructor
  · rintro ⟨fuel, r, hr, hdeclared⟩
    refine ⟨⟨fuel, r, hr⟩, fun fuel' e w' h => hdeclared e ?_⟩
    rw [findTopLevelController_unique config master hr h]
  · rintro ⟨⟨fuel, r, hr⟩, hdeclared⟩
    exact ⟨fuel, r, hr, fun e he => hdeclared fuel e r.2 (by rw [hr, ← he])⟩

theorem computePodAssociations_handled_iff (pod : Object) (w : ReaderState) :
    Handled (fun fuel => computePodAssociations config environment master fuel pod w) ↔
      PodResolves config master pod w := by
  unfold Handled PodResolves computePodAssociations
  cases hpod : podNamespace pod with
  | error e =>
    constructor
    · rintro _ metadata namespaceName h
      cases h
    · rintro _
      refine ⟨0, _, rfl, fun e' he' => ?_⟩
      rw [← Except.error.inj he']
      trivial
  | ok found =>
    obtain ⟨metadata, namespaceName⟩ := found
    simp only [Option.map_eq_some_iff]
    constructor
    · rintro ⟨fuel, _, ⟨found, hfound, rfl⟩, hjson⟩ metadata' namespaceName' hpod'
      obtain ⟨rfl, rfl⟩ : metadata = metadata' ∧ namespaceName = namespaceName' := by
        simpa using hpod'
      rw [← findTopLevelController_settles_iff]
      exact ⟨fuel, found, hfound,
        (associationsFrom_isJson_iff config environment pod metadata _).mp hjson⟩
    · intro h
      obtain ⟨fuel, found, hfound, hdeclared⟩ :=
        (findTopLevelController_settles_iff config master namespaceName (.object pod) w).mpr
          (h metadata namespaceName rfl)
      exact ⟨fuel, _, ⟨found, hfound, rfl⟩,
        (associationsFrom_isJson_iff config environment pod metadata _).mpr hdeclared⟩

theorem getPodAndContainerMetadata_handled_iff (pod : Object) (collectedAt : Timestamp)
    (isDeleted : Bool) (w : ReaderState) :
    Handled (fun fuel => getPodAndContainerMetadata config environment fromString master fuel pod
      collectedAt isDeleted w) ↔
      Handled (fun fuel => computePodAssociations config environment master fuel pod w) := by
  unfold Handled getPodAndContainerMetadata
  simp only [Option.map_eq_some_iff]
  constructor
  · rintro ⟨fuel, _, ⟨computed, hcomputed, rfl⟩, hjson⟩
    exact ⟨fuel, computed, hcomputed, (bind_mapError_isJson_iff _ _).mp hjson⟩
  · rintro ⟨fuel, computed, hcomputed, hjson⟩
    exact ⟨fuel, _, ⟨computed, hcomputed, rfl⟩, (bind_mapError_isJson_iff _ _).mpr hjson⟩

/-- `GetOwner` and `FindTopLevelController` keep to their declared exceptions exactly when no kind
they meet is unknown, and a pod is processed, or fails with a `json::Exception`, exactly when that
holds all the way up from it and the way ends. -/
theorem exceptions_handled_iff (w : ReaderState) :
    (∀ ns ref, (∀ e w', getOwner config master ns ref w = (.error e, w') → e.declared) ↔
      KindKnown config master w ref) ∧
    (∀ ns object, (∀ fuel e w',
      findTopLevelController config master fuel ns object w = some (.error e, w') → e.declared) ↔
      KindsKnown config master ns (object, w)) ∧
    (∀ pod, Handled (fun fuel => computePodAssociations config environment master fuel pod w) ↔
      PodResolves config master pod w) ∧
    (∀ pod collectedAt isDeleted,
      Handled (fun fuel => getPodAndContainerMetadata config environment fromString master fuel pod
        collectedAt isDeleted w) ↔ PodResolves config master pod w) := by
  refine ⟨fun ns ref => getOwner_declared_iff config master ns ref w,
    fun ns object => findTopLevelController_declared_iff config master ns object w,
    fun pod => computePodAssociations_handled_iff config environment master pod w,
    fun pod collectedAt isDeleted => ?_⟩
  rw [getPodAndContainerMetadata_handled_iff]
  exact computePodAssociations_handled_iff config environment master pod w

end Pods

/-! ## An unreachable master -/

def unreachable : Master := fun _ _ => .failure (lit "Connection refused")

def masterConfig : Configuration := ⟨lit "https://kubernetes.default.svc", lit "0.1", lit "."⟩

def clusterNode : Environment :=
  ⟨lit "cluster", lit "us-central1-a", lit "gce_instance", lit "42", lit "us-central1-a"⟩

def noQueries : ReaderState := ⟨.empty, .empty, 0⟩

def replicaSetRef : Object := [
  (lit "apiVersion", .string (lit "apps/v1")),
  (lit "controller", .boolean true),
  (lit "kind", .string (lit "ReplicaSet")),
  (lit "name", .string (lit "web")),
  (lit "uid", .string (lit "r1"))]

def replicaSetPod : Object := [
  (lit "metadata", .object [
    (lit "name", .string (lit "web-1")),
    (lit "namespace", .string (lit "default")),
    (lit "ownerReferences", .array [.object replicaSetRef]),
    (lit "uid", .string (lit "p1"))]),
  (lit "spec", .object [(lit "nodeName", .string (lit "node-1"))])]

theorem replicaSetPod_throws :
    ∃ w, findTopLevelController masterConfig unreachable 1 (lit "default") (.object replicaSetPod)
      noQueries = some (.error (.string (lit "Unknown kind: ReplicaSet")), w) :=
  ⟨_, rfl⟩

/-- With the master out of reach the API list of a new version stays empty, and the first pod
with a controller of that version ends in the string that nothing handles. -/
theorem unknown_kind_unhandled :
    (¬ ∀ e w', getOwner masterConfig unreachable (lit "default") replicaSetRef noQueries =
      (.error e, w') → e.declared) ∧
    (¬ ∀ fuel e w', findTopLevelController masterConfig unreachable fuel (lit "default")
      (.object replicaSetPod) noQueries = some (.error e, w') → e.declared) ∧
    (¬ Handled fun fuel =>
      computePodAssociations masterConfig clusterNode unreachable fuel replicaSetPod noQueries) ∧
    (¬ Handled fun fuel => getPodAndContainerMetadata masterConfig clusterNode (fun _ => 0)
      unreachable fuel replicaSetPod 0 false noQueries) := by
  obtain ⟨w, hthrows⟩ := replicaSetPod_throws
  have hfind : ¬ ∀ fuel e w', findTopLevelController masterConfig unreachable fuel (lit "default")
      (.object replicaSetPod) noQueries = some (.error e, w') → e.declared :=
    fun h => h 1 _ w hthrows
  have hcompute : ¬ Handled fun fuel =>
      computePodAssociations masterConfig clusterNode unreachable fuel replicaSetPod noQueries := by
    rw [computePodAssociations_handled_iff]
    intro h
    obtain ⟨metadata, hmetadata⟩ : ∃ metadata,
        podNamespace replicaSetPod = .ok (metadata, lit "default") := ⟨_, rfl⟩
    exact hfind ((findTopLevelController_declared_iff _ _ _ _ _).mpr (h _ _ hmetadata).2)
  refine ⟨fun h => h _ _ rfl, hfind, hcompute, ?_⟩
  rw [getPodAndContainerMetadata_handled_iff]
  exact hcompute

end MetadataAgent.KubernetesReader
