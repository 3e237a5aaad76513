import MetadataAgent.Kubernetes.Pods
import Mathlib.Data.List.Forall2

/-! # The expansion of a pod

`GetPodAndContainerMetadata` joins the container specs of a pod with its container statuses by
name. Each spec becomes one result, with the first status of its name, and the pod itself is the
last result; all of them carry the associations of the pod. -/
namespace MetadataAgent.KubernetesReader
open Lib Json
set_option autoImplicit false

/-! ## Fields of built objects -/

theorem field_object (fields : List (Bytes × Option Value)) (k : Bytes) :
    (object fields).asObject?.bind (Lib.lookup k) =
      fields.foldr (fun f rest => (if k = f.1 then f.2 else none).or rest) none := by
  have hlookup : (object fields).asObject?.bind (Lib.lookup k) =
      Lib.lookup k (fields.filterMap fun f => f.2.map (Prod.mk f.1)) := by
    rw [← OrderedMap.find_ofList]
    rfl
  rw [hlookup]
  clear hlookup
  induction fields with
  | nil => rfl
  | cons f fields ih =>
    obtain ⟨name, value⟩ := f
    rw [List.foldr_cons, ← ih]
    cases value with
    | none => simp
    | some v => by_cases hk : k = name <;> simp [Lib.lookup, hk]

/-- A blob of a result. -/
def blob (m : Metadata) (field : Bytes) : Option Value :=
  (m.metadata.asObject?.bind (Lib.lookup (lit "blobs"))).bind fun blobs =>
    blobs.asObject?.bind (Lib.lookup field)

theorem blob_object (m : Metadata) (blobs : List (Bytes × Option Value)) (field : Bytes)
    (h : m.metadata = object [(lit "blobs", some (object blobs))]) :
    blob m field =
      blobs.foldr (fun f rest => (if field = f.1 then f.2 else none).or rest) none := by
  rw [blob, h, field_object, List.foldr_cons, List.foldr_nil, if_pos rfl, Option.or_none,
    Option.bind_some, field_object]

/-! ## Statuses by name -/

/-- The first status of a container. -/
def firstStatus (statuses : List Object) (name : Bytes) : Option Object :=
  statuses.find? fun status => decide (Lib.lookup (lit "name") status = some (.string name))

theorem addContainerStatus_eq_ok {byName byName' : OrderedMap Bytes Object} {cStatus : Value} :
    addContainerStatus byName cStatus = .ok byName' ↔
      ∃ status name, cStatus = .object status ∧
        Lib.lookup (lit "name") status = some (.string name) ∧
        byName' = byName.emplace name status := by
  simp only [addContainerStatus, bind_eq_ok, pure_eq_ok, asObject_eq_ok, getString_eq_ok]
  constructor
  · rintro ⟨status, hstatus, name, hname, heq⟩
    exact ⟨status, name, hstatus, hname, heq.symm⟩
  · rintro ⟨status, name, hstatus, hname, heq⟩
    exact ⟨status, hstatus, name, hname, heq.symm⟩

/-- The map holds the first status of every name. -/
theorem find_foldlM_addContainerStatus {cStatuses : List Value}
    {byName byName' : OrderedMap Bytes Object}
    (h : cStatuses.foldlM addContainerStatus byName = .ok byName') :
    ∃ statuses, cStatuses = statuses.map .object ∧
      ∀ name, byName'.find name = (byName.find name).or (firstStatus statuses name) := by
  induction cStatuses generalizing byName with
  | nil =>
    rw [List.foldlM_nil, pure_eq_ok] at h
    refine ⟨[], rfl, ?_⟩
    intro name
    rw [← h]
    exact (Option.or_none).symm
  | cons cStatus cStatuses ih =>
    rw [List.foldlM_cons, bind_eq_ok] at h
    obtain ⟨mid, hadd, hrest⟩ := h
    obtain ⟨status, statusName, rfl, hname, rfl⟩ := addContainerStatus_eq_ok.mp hadd
    obtain ⟨statuses, rfl, hfind⟩ := ih hrest
    refine ⟨status :: statuses, rfl, ?_⟩
    intro name
    rw [hfind, OrderedMap.find_emplace, firstStatus, firstStatus, List.find?_cons, hname]
    by_cases hk : name = statusName
    · subst hk
      cases byName.find name <;> simp
    · rw [if_neg hk]
      have hne : decide (some (Value.string statusName) = some (.string name)) = false := by
        simpa using Ne.symm hk
      rw [hne]

/-! ## One result -/

section Results
variable (config : Configuration) (environment : Environment) (fromString : Bytes → Timestamp)

/-- The identity of a pod, from its metadata. -/
structure PodIdentity where
  namespaceName : Bytes
  podName : Bytes
  created : Bytes

/-- The metadata of the pod has the identity. -/
def PodIdentity.Of (identity : PodIdentity) (pod : Object) : Prop :=
  ∃ metadata, getObject pod (lit "metadata") = .ok metadata ∧
    getString metadata (lit "namespace") = .ok identity.namespaceName ∧
    getString metadata (lit "name") = .ok identity.podName ∧
    getString metadata (lit "creationTimestamp") = .ok identity.created

/-- What is the same in all results of a pod. -/
structure SharedFields (created : Bytes) (collectedAt : Timestamp) (isDeleted : Bool)
    (associations : Option Value) (r : ResourceMetadata) : Prop where
  createdAt : r.metadata.createdAt = fromString created
  collectedAt : r.metadata.collectedAt = collectedAt
  isDeleted : r.metadata.isDeleted = isDeleted
  association : blob r.metadata (lit "association") = associations

/-- The result for a container with the status found for it. -/
structure ContainerResult (identity : PodIdentity) (containerSpec : Object) (containerName : Bytes)
    (containerStatus : Option Object) (r : ResourceMetadata) : Prop where
  resource : r.resource = containerResource environment.kubernetesClusterName
    identity.namespaceName identity.podName containerName environment.kubernetesClusterLocation
  spec : blob r.metadata (lit "spec") =
    some (versioned kubernetesApiVersion (.object containerSpec))
  status : blob r.metadata (lit "status") =
    containerStatus.map fun s => versioned kubernetesApiVersion (.object s)
  thirdId : (∃ id, r.ids[2]? = some id) ↔
    ∃ s, containerStatus = some s ∧ has s (lit "containerID") = true

/-- The result for the pod itself. -/
structure PodResult (identity : PodIdentity) (pod : Object) (r : ResourceMetadata) : Prop where
  resource : r.resource = podResource environment.kubernetesClusterName identity.namespaceName
    identity.podName environment.kubernetesClusterLocation
  api : blob r.metadata (lit "api") = some (versioned kubernetesApiVersion (.object pod))

theorem PodIdentity.Of.unique {identity identity' : PodIdentity} {pod : Object}
    (h : identity.Of pod) (h' : identity'.Of pod) : identity = identity' := by
  obtain ⟨metadata, hmetadata, hns, hname, hcreated⟩ := h
  obtain ⟨metadata', hmetadata', hns', hname', hcreated'⟩ := h'
  rw [hmetadata, Except.ok.injEq] at hmetadata'
  subst hmetadata'
  rw [hns, Except.ok.injEq] at hns'
  rw [hname, Except.ok.injEq] at hname'
  rw [hcreated, Except.ok.injEq] at hcreated'
  cases identity
  cases identity'
  simp_all

theorem containerIds_third {containerStatus : Option Object} {ids : List Bytes}
    (h : containerIds config containerStatus = .ok ids) (first second : Bytes) :
    (∃ id, ([first, second] ++ ids)[2]? = some id) ↔
      ∃ s, containerStatus = some s ∧ has s (lit "containerID") = true := by
  unfold containerIds at h
  cases containerStatus with
  | none =>
    rw [pure_eq_ok] at h
    rw [← h]
    simp
  | some status =>
    simp only at h
    split at h
    · rename_i hid
      simp only [bind_eq_ok, pure_eq_ok] at h
      obtain ⟨dockerId, _, rfl⟩ := h
      simp [hid]
    · rename_i hid
      rw [pure_eq_ok] at h
      rw [← h]
      simp [hid]

/-- The blobs of a container. -/
def containerBlobs (containerSpec : Object) (containerStatus : Option Object)
    (associations : Option Value) (labels : Option Object) : List (Bytes × Option Value) := [
  (lit "association", associations),
  (lit "spec", some (versioned kubernetesApiVersion (.object containerSpec))),
  (lit "status", containerStatus.map fun s => versioned kubernetesApiVersion (.object s)),
  (lit "labels", labels.map fun l => versioned kubernetesApiVersion (.object l))]

theorem getContainerMetadata_result {pod containerSpec : Object}
    {containerStatus : Option Object} {associations : Option Value} {collectedAt : Timestamp}
    {isDeleted : Bool} {r : ResourceMetadata}
    (h : getContainerMetadata config environment fromString pod containerSpec containerStatus
      associations collectedAt isDeleted = .ok r) :
    ∃ identity : PodIdentity, identity.Of pod ∧ ∃ containerName,
      getString containerSpec (lit "name") = .ok containerName ∧
      ContainerResult environment identity containerSpec containerName containerStatus r ∧
      SharedFields fromString identity.created collectedAt isDeleted associations r := by
  unfold getContainerMetadata at h
  simp only [bind_eq_ok, pure_eq_ok] at h
  obtain ⟨metadata, hmetadata, namespaceName, hns, podName, hname, podId, _, created, hcreated,
    labels, _, containerName, hcontainer, idsOfStatus, hids, rfl⟩ := h
  refine ⟨⟨namespaceName, podName, created⟩, ⟨metadata, hmetadata, hns, hname, hcreated⟩,
    containerName, hcontainer, ⟨rfl, ?_, ?_, ?_⟩, ⟨rfl, rfl, rfl, ?_⟩⟩
  · rw [blob_object _ (containerBlobs containerSpec containerStatus associations labels) _ rfl]
    have hassociation : ¬ lit "spec" = lit "association" := by decide
    simp [containerBlobs, hassociation]
  · rw [blob_object _ (containerBlobs containerSpec containerStatus associations labels) _ rfl]
    have hassociation : ¬ lit "status" = lit "association" := by decide
    have hspec : ¬ lit "status" = lit "spec" := by decide
    have hlabels : ¬ lit "status" = lit "labels" := by decide
    simp [containerBlobs, hassociation, hspec, hlabels]
  · exact containerIds_third config hids _ _
  · rw [blob_object _ (containerBlobs containerSpec containerStatus associations labels) _ rfl]
    have hspec : ¬ lit "association" = lit "spec" := by decide
    have hstatus : ¬ lit "association" = lit "status" := by decide
    have hlabels : ¬ lit "association" = lit "labels" := by decide
    simp [containerBlobs, hspec, hstatus, hlabels]

theorem getPodMetadata_result {pod : Object} {associations : Option Value}
    {collectedAt : Timestamp} {isDeleted : Bool} {r : ResourceMetadata}
    (h : getPodMetadata config environment fromString pod associations collectedAt isDeleted =
      .ok r) :
    ∃ identity : PodIdentity, identity.Of pod ∧ PodResult environment identity pod r ∧
      SharedFields fromString identity.created collectedAt isDeleted associations r := by
  unfold getPodMetadata at h
  simp only [bind_eq_ok, pure_eq_ok] at h
  obtain ⟨metadata, hmetadata, namespaceName, hns, podName, hname, podId, _, created, hcreated,
    rfl⟩ := h
  refine ⟨⟨namespaceName, podName, created⟩, ⟨metadata, hmetadata, hns, hname, hcreated⟩,
    ⟨rfl, ?_⟩, ⟨rfl, rfl, rfl, ?_⟩⟩
  · rw [blob_object _ [(lit "association", associations),
      (lit "api", some (versioned kubernetesApiVersion (.object pod)))] _ rfl]
    have hassociation : ¬ lit "api" = lit "association" := by decide
    simp [hassociation]
  · rw [blob_object _ [(lit "association", associations),
      (lit "api", some (versioned kubernetesApiVersion (.object pod)))] _ rfl]
    have hapi : ¬ lit "association" = lit "api" := by decide
    simp [hapi]

/-! ## All results -/

/-- The container specs of a pod. -/
def ContainerSpecs (pod : Object) (containers : List Object) : Prop :=
  ∃ spec, getObject pod (lit "spec") = .ok spec ∧
    getArray spec (lit "containers") = .ok (containers.map .object)

/-- The container statuses of a pod. -/
def ContainerStatuses (pod : Object) (statuses : List Object) : Prop :=
  ∃ status, getObject pod (lit "status") = .ok status ∧
    if has status (lit "containerStatuses") then
      getArray status (lit "containerStatuses") = .ok (statuses.map .object)
    else statuses = []

/-- One result for each container, joined with its first status, and one for the pod. -/
structure Expansion (pod : Object) (containers statuses : List Object) (identity : PodIdentity)
    (associations : Option Value) (collectedAt : Timestamp) (isDeleted : Bool)
    (results : List ResourceMetadata) : Prop where
  length : results.length = containers.length + 1
  container : ∀ (i : ℕ) (c : Object), containers[i]? = some c →
    ∃ (name : Bytes) (r : ResourceMetadata), getString c (lit "name") = .ok name ∧
      results[i]? = some r ∧
      ContainerResult environment identity c name (firstStatus statuses name) r
  pod : ∃ r, results.getLast? = some r ∧ PodResult environment identity pod r
  shared : ∀ r ∈ results, SharedFields fromString identity.created collectedAt isDeleted
    associations r

theorem containerStatusByName_eq_ok {status : Object} {byName : OrderedMap Bytes Object}
    (h : containerStatusByName status = .ok byName) :
    ∃ statuses, (if has status (lit "containerStatuses") then
        getArray status (lit "containerStatuses") = .ok (statuses.map .object)
      else statuses = []) ∧ ∀ name, byName.find name = firstStatus statuses name := by
  unfold containerStatusByName at h
  split at h
  · rename_i hhas
    rw [bind_eq_ok] at h
    obtain ⟨cStatuses, harray, hloop⟩ := h
    obtain ⟨statuses, rfl, hfind⟩ := find_foldlM_addContainerStatus hloop
    refine ⟨statuses, ?_, ?_⟩
    · rw [if_pos hhas]
      exact harray
    · intro name
      rw [hfind, OrderedMap.find_empty, Option.none_or]
  · rename_i hhas
    rw [pure_eq_ok] at h
    refine ⟨[], ?_, ?_⟩
    · rw [if_neg hhas]
    · intro name
      rw [← h, OrderedMap.find_empty]
      rfl

/-- The loop over the container specs. -/
theorem containers_of_mapM {pod : Object} {byName : OrderedMap Bytes Object}
    {statuses : List Object} (hfind : ∀ name, byName.find name = firstStatus statuses name)
    {identity : PodIdentity} (hidentity : identity.Of pod) {associations : Option Value}
    {collectedAt : Timestamp} {isDeleted : Bool} {cSpecs : List Value}
    {ofContainers : List ResourceMetadata}
    (h : List.Forall₂ (fun cSpec r => (do
      let containerSpec ← asObject cSpec
      let name ← getString containerSpec (lit "name")
      getContainerMetadata config environment fromString pod containerSpec (byName.find name)
        associations collectedAt isDeleted) = .ok r) cSpecs ofContainers) :
    ∃ containers, cSpecs = containers.map .object ∧
      List.Forall₂ (fun c r => ∃ name, getString c (lit "name") = .ok name ∧
        ContainerResult environment identity c name (firstStatus statuses name) r)
        containers ofContainers ∧
      ∀ r ∈ ofContainers,
        SharedFields fromString identity.created collectedAt isDeleted associations r := by
  induction h with
  | nil =>
    refine ⟨[], rfl, .nil, ?_⟩
    intro r hr
    cases hr
  | cons hc _ ih =>
    obtain ⟨containers, rfl, hrest, hshared⟩ := ih
    simp only [bind_eq_ok, asObject_eq_ok] at hc
    obtain ⟨c, rfl, name, hname, hresult⟩ := hc
    obtain ⟨identity', hidentity', name', hname', hcontainer, hfields⟩ :=
      getContainerMetadata_result config environment fromString hresult
    obtain rfl := hidentity.unique hidentity'
    rw [hname, Except.ok.injEq] at hname'
    subst hname'
    rw [hfind] at hcontainer
    refine ⟨c :: containers, rfl, .cons ⟨name, hname, hcontainer⟩ hrest, ?_⟩
    exact List.forall_mem_cons.mpr ⟨hfields, hshared⟩

theorem podAndContainers_expansion {pod : Object} {collectedAt : Timestamp} {isDeleted : Bool}
    {associations : Option Value} {results : List ResourceMetadata}
    (h : podAndContainers config environment fromString pod collectedAt isDeleted associations =
      .ok results) :
    ∃ containers statuses, ∃ identity : PodIdentity, ContainerSpecs pod containers ∧
      ContainerStatuses pod statuses ∧ identity.Of pod ∧
      Expansion environment fromString pod containers statuses identity associations collectedAt
        isDeleted results := by
  unfold podAndContainers at h
  simp only [bind_eq_ok, pure_eq_ok] at h
  obtain ⟨_, _, _, _, _, _, spec, hspec, status, hstatus, cSpecs, hcSpecs, byName, hbyName,
    ofContainers, hmap, ofPod, hpod, rfl⟩ := h
  obtain ⟨statuses, hstatuses, hfind⟩ := containerStatusByName_eq_ok hbyName
  obtain ⟨identity, hidentity, hresult, hshared⟩ :=
    getPodMetadata_result config environment fromString hpod
  obtain ⟨containers, rfl, hall, hsharedAll⟩ :=
    containers_of_mapM config environment fromString hfind hidentity (forall₂_of_mapM hmap)
  refine ⟨containers, statuses, identity, ⟨spec, hspec, hcSpecs⟩, ⟨status, hstatus, hstatuses⟩,
    hidentity, ⟨?_, ?_, ⟨ofPod, List.getLast?_concat, hresult⟩, ?_⟩⟩
  · rw [List.length_append, List.length_singleton, hall.length_eq]
  · intro i c hc
    obtain ⟨hi, rfl⟩ := List.getElem?_eq_some_iff.mp hc
    have hlt : i < ofContainers.length := hall.length_eq ▸ hi
    obtain ⟨name, hname, hcontainer⟩ := hall.get hi hlt
    refine ⟨name, ofContainers[i], hname, ?_, hcontainer⟩
    rw [List.getElem?_append_left hlt, List.getElem?_eq_getElem hlt]
  · intro r hr
    rw [List.mem_append, List.mem_singleton] at hr
    rcases hr with hr | rfl
    · exact hsharedAll r hr
    · exact hshared

end Results

/-! ## Two containers, one of them with two statuses -/

def statusOf (name containerId : Bytes) : Value :=
  .object [(lit "containerID", .string containerId), (lit "name", .string name)]

def twoContainerPod : Object := [
  (lit "metadata", .object [
    (lit "creationTimestamp", .string (lit "2018-03-03T01:23:45Z")),
    (lit "name", .string (lit "web-1")),
    (lit "namespace", .string (lit "default")),
    (lit "uid", .string (lit "p1"))]),
  (lit "spec", .object [
    (lit "containers", .array [
      .object [(lit "name", .string (lit "app"))],
      .object [(lit "name", .string (lit "proxy"))]])]),
  (lit "status", .object [
    (lit "containerStatuses", .array [
      statusOf (lit "gone") (lit "docker://c0"),
      statusOf (lit "app") (lit "docker://c1"),
      statusOf (lit "app") (lit "docker://c2")])])]

theorem twoContainerPod_succeeds :
    ∃ results w, getPodAndContainerMetadata masterConfig clusterNode (fun _ => 0) unreachable 1
      twoContainerPod 5 false noQueries = some (.ok results, w) :=
  ⟨_, _, rfl⟩

end MetadataAgent.KubernetesReader
