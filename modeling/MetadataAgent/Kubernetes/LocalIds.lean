import MetadataAgent.Kubernetes.Query

/-! # Local ids

A node, a pod or a container is registered under local ids that are put together from its names
with dots. Pod and node names may have dots of their own. A local id still says what it was put
together from, and with it the resource, so registrations never get into each other's way. -/
namespace MetadataAgent.KubernetesReader
open Lib Json MetadataStore
set_option autoImplicit false

/-! ## What a local id says -/

def dot : UInt8 := 0x2e

inductive LocalName where
  | nodeNamed (nodeName : Bytes)
  | podWithId (podId : Bytes)
  | podNamed (namespaceName podName : Bytes)
  | containerOfPodId (podId containerName : Bytes)
  | containerNamed (namespaceName podName containerName : Bytes)
  | containerWithId (containerId : Bytes)

namespace LocalName

def kind : LocalName → Bytes
  | nodeNamed _ => lit "k8s_node"
  | podWithId _ => lit "k8s_pod"
  | podNamed _ _ => lit "k8s_pod"
  | containerOfPodId _ _ => lit "k8s_container"
  | containerNamed _ _ _ => lit "k8s_container"
  | containerWithId _ => lit "k8s_container"

def names : LocalName → Bytes
  | nodeNamed nodeName => nodeName
  | podWithId podId => podId
  | podNamed namespaceName podName => namespaceName ++ dot :: podName
  | containerOfPodId podId containerName => podId ++ dot :: containerName
  | containerNamed namespaceName podName containerName =>
    namespaceName ++ dot :: (podName ++ dot :: containerName)
  | containerWithId containerId => containerId

def text (name : LocalName) : Bytes := name.kind ++ dot :: name.names

/-- No dots but in pod and node names. -/
def Plain : LocalName → Prop
  | nodeNamed _ => True
  | podWithId podId => dot ∉ podId
  | podNamed namespaceName _ => dot ∉ namespaceName
  | containerOfPodId podId containerName => dot ∉ podId ∧ dot ∉ containerName
  | containerNamed namespaceName _ containerName => dot ∉ namespaceName ∧ dot ∉ containerName
  | containerWithId containerId => dot ∉ containerId

theorem dot_not_mem_kind (name : LocalName) : dot ∉ name.kind := by
  cases name <;> simp only [kind] <;> decide

theorem ne_of_dot_not_mem {x a b : Bytes} (hx : dot ∉ x) : x ≠ a ++ dot :: b := by
  rintro rfl
  simp at hx

/-- Only names of one shape have the text of a pod. -/
theorem pod_names_inj {m n : LocalName} (hm : m.Plain) (hn : n.Plain)
    (hkind : m.kind = lit "k8s_pod") (hkind' : n.kind = lit "k8s_pod") (h : m.names = n.names) :
    m = n := by
  cases m with
  | podWithId podId =>
    cases n with
    | podWithId podId' => exact congrArg podWithId h
    | podNamed ns pod => exact absurd h (ne_of_dot_not_mem hm)
    | _ => exact absurd hkind' (by simp only [kind]; decide)
  | podNamed ns pod =>
    cases n with
    | podWithId podId' => exact absurd h.symm (ne_of_dot_not_mem hn)
    | podNamed ns' pod' =>
      obtain ⟨rfl, rfl⟩ := first_split_unique hm hn h
      rfl
    | _ => exact absurd hkind' (by simp only [kind]; decide)
  | _ => exact absurd hkind (by simp only [kind]; decide)

/-- A container name has no dots, so the names after a pod id and after a namespace differ. -/
theorem containerOfPodId_names_ne {podId containerName ns pod containerName' : Bytes}
    (h : (containerOfPodId podId containerName).Plain)
    (h' : (containerNamed ns pod containerName').Plain) :
    (containerOfPodId podId containerName).names ≠
      (containerNamed ns pod containerName').names := by
  intro heq
  obtain ⟨_, hrest⟩ := first_split_unique h.1 h'.1 heq
  exact ne_of_dot_not_mem h.2 hrest

theorem container_names_inj {m n : LocalName} (hm : m.Plain) (hn : n.Plain)
    (hkind : m.kind = lit "k8s_container") (hkind' : n.kind = lit "k8s_container")
    (h : m.names = n.names) : m = n := by
  cases m with
  | containerOfPodId podId containerName =>
    cases n with
    | containerOfPodId podId' containerName' =>
      obtain ⟨rfl, rfl⟩ := first_split_unique hm.1 hn.1 h
      rfl
    | containerNamed ns pod containerName' =>
      exact absurd h (containerOfPodId_names_ne hm hn)
    | containerWithId containerId => exact absurd h.symm (ne_of_dot_not_mem hn)
    | _ => exact absurd hkind' (by simp only [kind]; decide)
  | containerNamed ns pod containerName =>
    cases n with
    | containerOfPodId podId containerName' =>
      exact absurd h.symm (containerOfPodId_names_ne hn hm)
    | containerNamed ns' pod' containerName' =>
      obtain ⟨rfl, hrest⟩ := first_split_unique hm.1 hn.1 h
      obtain ⟨rfl, rfl⟩ := last_split_unique hm.2 hn.2 hrest
      rfl
    | containerWithId containerId => exact absurd h.symm (ne_of_dot_not_mem hn)
    | _ => exact absurd hkind' (by simp only [kind]; decide)
  | containerWithId containerId =>
    cases n with
    | containerOfPodId podId containerName => exact absurd h (ne_of_dot_not_mem hm)
    | containerNamed ns pod containerName => exact absurd h (ne_of_dot_not_mem hm)
    | containerWithId containerId' => exact congrArg containerWithId h
    | _ => exact absurd hkind' (by simp only [kind]; decide)
  | _ => exact absurd hkind (by simp only [kind]; decide)

/-- A local id says what it was put together from. -/
theorem text_inj {m n : LocalName} (hm : m.Plain) (hn : n.Plain) (h : m.text = n.text) :
    m = n := by
  obtain ⟨hkind, hnames⟩ := first_split_unique (dot_not_mem_kind m) (dot_not_mem_kind n) h
  have hkinds : m.kind = lit "k8s_node" ∨ m.kind = lit "k8s_pod" ∨
      m.kind = lit "k8s_container" := by
    cases m <;> simp [kind]
  rcases hkinds with hnode | hpod | hcontainer
  · cases m with
    | nodeNamed nodeName =>
      cases n with
      | nodeNamed nodeName' => exact congrArg nodeNamed hnames
      | _ => exact absurd hkind (by simp only [kind]; decide)
    | _ => exact absurd hnode (by simp only [kind]; decide)
  · exact pod_names_inj hm hn hpod (hkind ▸ hpod) hnames
  · exact container_names_inj hm hn hcontainer (hkind ▸ hcontainer) hnames

end LocalName

/-! ## What the API promises about names -/

/-- The pod of a uid, by namespace and name, and the container of a container id, by namespace,
pod and name. -/
structure Directory where
  podOfId : Bytes → Bytes × Bytes
  containerOfId : Bytes → Bytes × Bytes × Bytes

def metadataString (field : Bytes) (o : Object) : Option Bytes :=
  (objectAt (lit "metadata") o).bind (stringAt field)

/-- The strings of a pod are names, and its uid is its own. -/
structure PodNamed (directory : Directory) (pod : Object) : Prop where
  namespacePlain : ∀ ns, metadataString (lit "namespace") pod = some ns → dot ∉ ns
  idPlain : ∀ podId, metadataString (lit "uid") pod = some podId → dot ∉ podId
  ofId : ∀ podId ns name, metadataString (lit "uid") pod = some podId →
    metadataString (lit "namespace") pod = some ns → metadataString (lit "name") pod = some name →
      directory.podOfId podId = (ns, name)

/-- So are those of a container, and its container id, with the prefix stripped, is its own. -/
structure ContainerNamed (directory : Directory) (pod containerSpec : Object)
    (containerStatus : Option Object) : Prop extends PodNamed directory pod where
  containerNamePlain : ∀ name, stringAt (lit "name") containerSpec = some name → dot ∉ name
  containerIdPlain : ∀ status dockerId, containerStatus = some status →
    stringAt (lit "containerID") status = some dockerId → dot ∉ stripDockerPrefix dockerId
  ofContainerId : ∀ status dockerId ns podName name, containerStatus = some status →
    stringAt (lit "containerID") status = some dockerId →
    metadataString (lit "namespace") pod = some ns →
    metadataString (lit "name") pod = some podName →
    stringAt (lit "name") containerSpec = some name →
      directory.containerOfId (stripDockerPrefix dockerId) = (ns, podName, name)

/-- What a result is made from. -/
inductive Described where
  | node (nodeObject : Object) (collectedAt : Timestamp) (isDeleted : Bool)
  | pod (podObject : Object) (associations : Option Value) (collectedAt : Timestamp)
    (isDeleted : Bool)
  | container (podObject containerSpec : Object) (containerStatus : Option Object)
    (associations : Option Value) (collectedAt : Timestamp) (isDeleted : Bool)

def Described.Named (directory : Directory) : Described → Prop
  | .node _ _ _ => True
  | .pod podObject _ _ _ => PodNamed directory podObject
  | .container podObject containerSpec containerStatus _ _ _ =>
    ContainerNamed directory podObject containerSpec containerStatus

section Results
variable (config : Configuration) (environment : Environment) (fromString : Bytes → Timestamp)
variable (directory : Directory)

def Described.result : Described → Except Exception ResourceMetadata
  | .node nodeObject collectedAt isDeleted =>
    getNodeMetadata config environment fromString nodeObject collectedAt isDeleted
  | .pod podObject associations collectedAt isDeleted =>
    getPodMetadata config environment fromString podObject associations collectedAt isDeleted
  | .container podObject containerSpec containerStatus associations collectedAt isDeleted =>
    getContainerMetadata config environment fromString podObject containerSpec containerStatus
      associations collectedAt isDeleted

/-- The resource that a name means. -/
def Directory.resource : LocalName → MonitoredResource
  | .nodeNamed nodeName =>
    nodeResource environment.kubernetesClusterName nodeName environment.kubernetesClusterLocation
  | .podWithId podId =>
    podResource environment.kubernetesClusterName (directory.podOfId podId).1
      (directory.podOfId podId).2 environment.kubernetesClusterLocation
  | .podNamed namespaceName podName =>
    podResource environment.kubernetesClusterName namespaceName podName
      environment.kubernetesClusterLocation
  | .containerOfPodId podId containerName =>
    containerResource environment.kubernetesClusterName (directory.podOfId podId).1
      (directory.podOfId podId).2 containerName environment.kubernetesClusterLocation
  | .containerNamed namespaceName podName containerName =>
    containerResource environment.kubernetesClusterName namespaceName podName containerName
      environment.kubernetesClusterLocation
  | .containerWithId containerId =>
    containerResource environment.kubernetesClusterName (directory.containerOfId containerId).1
      (directory.containerOfId containerId).2.1 (directory.containerOfId containerId).2.2
      environment.kubernetesClusterLocation

/-- The id is the text of a name that means the resource. -/
def Means (id : Bytes) (resource : MonitoredResource) : Prop :=
  ∃ name : LocalName, name.Plain ∧ id = name.text ∧ resource = directory.resource environment name

theorem means_unique {id : Bytes} {resource resource' : MonitoredResource}
    (h : Means environment directory id resource) (h' : Means environment directory id resource') :
    resource = resource' := by
  obtain ⟨name, hplain, htext, rfl⟩ := h
  obtain ⟨name', hplain', htext', rfl⟩ := h'
  have hname : name = name' := LocalName.text_inj hplain hplain' (htext.symm.trans htext')
  rw [hname]

/-! ## What the results are registered under -/

variable {config}

theorem localResourceId_singleton (part : Bytes) : localResourceId config [part] = part := by
  rw [localResourceId, List.intercalate_singleton]

theorem localResourceId_cons (hsep : config.metadataApiResourceTypeSeparator = [dot])
    (part next : Bytes) (parts : List Bytes) :
    localResourceId config (part :: next :: parts) =
      part ++ dot :: localResourceId config (next :: parts) := by
  rw [localResourceId, localResourceId, hsep, List.intercalate_cons_cons, List.append_assoc]
  rfl

theorem metadataString_eq_some {o metadata : Object} {field s : Bytes}
    (hmetadata : getObject o (lit "metadata") = .ok metadata)
    (hs : getString metadata field = .ok s) : metadataString field o = some s := by
  have hobject : objectAt (lit "metadata") o = some metadata := get_eq_ok.mp hmetadata
  rw [metadataString, hobject, Option.bind_some]
  exact get_eq_ok.mp hs

theorem getNodeMetadata_means (hsep : config.metadataApiResourceTypeSeparator = [dot])
    {node : Object} {collectedAt : Timestamp} {isDeleted : Bool} {r : ResourceMetadata}
    (h : getNodeMetadata config environment fromString node collectedAt isDeleted = .ok r) :
    ∀ id ∈ r.ids, Means environment directory id r.resource := by
  unfold getNodeMetadata at h
  simp only [bind_eq_ok, pure_eq_ok] at h
  obtain ⟨metadata, _, nodeName, _, createdStr, _, rfl⟩ := h
  intro id hid
  rw [List.mem_singleton] at hid
  refine ⟨.nodeNamed nodeName, trivial, ?_, rfl⟩
  rw [hid, localResourceId_cons hsep, localResourceId_singleton]
  rfl

theorem getPodMetadata_means (hsep : config.metadataApiResourceTypeSeparator = [dot])
    {pod : Object} {associations : Option Value} {collectedAt : Timestamp} {isDeleted : Bool}
    {r : ResourceMetadata} (hnamed : PodNamed directory pod)
    (h : getPodMetadata config environment fromString pod associations collectedAt isDeleted =
      .ok r) :
    ∀ id ∈ r.ids, Means environment directory id r.resource := by
  unfold getPodMetadata at h
  simp only [bind_eq_ok, pure_eq_ok] at h
  obtain ⟨metadata, hmetadata, namespaceName, hns, podName, hname, podId, hid, _, _, rfl⟩ := h
  have hns := metadataString_eq_some hmetadata hns
  have hname := metadataString_eq_some hmetadata hname
  have hpodId := metadataString_eq_some hmetadata hid
  intro id hid
  rcases List.mem_pair.mp hid with rfl | rfl
  · refine ⟨.podWithId podId, hnamed.idPlain podId hpodId, ?_, ?_⟩
    · rw [localResourceId_cons hsep, localResourceId_singleton]
      rfl
    · rw [Directory.resource, hnamed.ofId podId namespaceName podName hpodId hns hname]
  · refine ⟨.podNamed namespaceName podName, hnamed.namespacePlain _ hns, ?_, rfl⟩
    rw [localResourceId_cons hsep, localResourceId_cons hsep, localResourceId_singleton]
    rfl

theorem mem_containerIds {containerStatus : Option Object} {ids : List Bytes} {id : Bytes}
    (h : containerIds config containerStatus = .ok ids) (hid : id ∈ ids) :
    ∃ status dockerId, containerStatus = some status ∧
      stringAt (lit "containerID") status = some dockerId ∧
      id = localResourceId config [lit "k8s_container", stripDockerPrefix dockerId] := by
  cases containerStatus with
  | none =>
    rw [containerIds, pure_eq_ok] at h
    rw [← h] at hid
    cases hid
  | some status =>
    rw [containerIds] at h
    split at h
    · simp only [bind_eq_ok, pure_eq_ok] at h
      obtain ⟨dockerId, hdockerId, rfl⟩ := h
      exact ⟨status, dockerId, rfl, get_eq_ok.mp hdockerId, List.mem_singleton.mp hid⟩
    · rw [pure_eq_ok] at h
      rw [← h] at hid
      cases hid

theorem getContainerMetadata_means (hsep : config.metadataApiResourceTypeSeparator = [dot])
    {pod containerSpec : Object} {containerStatus : Option Object} {associations : Option Value}
    {collectedAt : Timestamp} {isDeleted : Bool} {r : ResourceMetadata}
    (hnamed : ContainerNamed directory pod containerSpec containerStatus)
    (h : getContainerMetadata config environment fromString pod containerSpec containerStatus
      associations collectedAt isDeleted = .ok r) :
    ∀ id ∈ r.ids, Means environment directory id r.resource := by
  unfold getContainerMetadata at h
  simp only [bind_eq_ok, pure_eq_ok] at h
  obtain ⟨metadata, hmetadata, namespaceName, hns, podName, hname, podId, hid, _, _, _, _,
    containerName, hcontainer, idsOfStatus, hids, rfl⟩ := h
  have hns := metadataString_eq_some hmetadata hns
  have hname := metadataString_eq_some hmetadata hname
  have hpodId := metadataString_eq_some hmetadata hid
  have hcontainer : stringAt (lit "name") containerSpec = some containerName :=
    get_eq_ok.mp hcontainer
  have hplain := hnamed.containerNamePlain containerName hcontainer
  intro id hid
  rcases List.mem_append.mp hid with hid | hid
  · rcases List.mem_pair.mp hid with rfl | rfl
    · refine ⟨.containerOfPodId podId containerName, ⟨hnamed.idPlain podId hpodId, hplain⟩, ?_, ?_⟩
      · rw [localResourceId_cons hsep, localResourceId_cons hsep, localResourceId_singleton]
        rfl
      · rw [Directory.resource, hnamed.ofId podId namespaceName podName hpodId hns hname]
    · refine ⟨.containerNamed namespaceName podName containerName,
        ⟨hnamed.namespacePlain _ hns, hplain⟩, ?_, rfl⟩
      rw [localResourceId_cons hsep, localResourceId_cons hsep, localResourceId_cons hsep,
        localResourceId_singleton]
      rfl
  · obtain ⟨status, dockerId, hstatus, hdockerId, rfl⟩ := mem_containerIds hids hid
    refine ⟨.containerWithId (stripDockerPrefix dockerId),
      hnamed.containerIdPlain status dockerId hstatus hdockerId, ?_, ?_⟩
    · rw [localResourceId_cons hsep, localResourceId_singleton]
      rfl
    · rw [Directory.resource, hnamed.ofContainerId status dockerId namespaceName podName
        containerName hstatus hdockerId hns hname hcontainer]

theorem result_means (hsep : config.metadataApiResourceTypeSeparator = [dot])
    {described : Described} (hnamed : described.Named directory) {r : ResourceMetadata}
    (h : described.result config environment fromString = .ok r) :
    ∀ id ∈ r.ids, Means environment directory id r.resource := by
  cases described with
  | node node collectedAt isDeleted =>
    exact getNodeMetadata_means environment fromString directory hsep h
  | pod pod associations collectedAt isDeleted =>
    exact getPodMetadata_means environment fromString directory hsep hnamed h
  | container pod containerSpec containerStatus associations collectedAt isDeleted =>
    exact getContainerMetadata_means environment fromString directory hsep hnamed h

/-! ## Runs of registrations -/

/-- Every registration of the history is that of a result. -/
def RegistersResults (config : Configuration) (history : List Call) : Prop :=
  ∀ ids resource, .updateResource ids resource ∈ history →
    ∃ (described : Described) (r : ResourceMetadata), described.Named directory ∧
      described.result config environment fromString = .ok r ∧ r.ids = ids ∧ r.resource = resource

/-- Whatever was registered, and in whatever order, every id of a result is looked up as the
resource of that result, and results with different resources share no id. -/
theorem local_ids_resolve (hsep : config.metadataApiResourceTypeSeparator = [dot]) :
    (∀ history, RegistersResults environment fromString directory config history →
      ∀ ids resource, .updateResource ids resource ∈ history →
        ∀ id ∈ ids, (empty.after history).lookupResource id = some resource) ∧
    (∀ (described described' : Described) (r r' : ResourceMetadata),
      described.Named directory → described'.Named directory →
      described.result config environment fromString = .ok r →
      described'.result config environment fromString = .ok r' →
        r.resource ≠ r'.resource → ∀ id ∈ r.ids, id ∉ r'.ids) := by
  constructor
  · intro history hhistory ids resource hcall id hid
    have hmeans : ∀ c ∈ history, ∀ resource, c.registered id = some resource →
        Means environment directory id resource := by
      intro c hc resource hregistered
      obtain ⟨ids, rfl, hid⟩ := registered_eq_some.mp hregistered
      obtain ⟨described, r, hnamed, hr, rfl, rfl⟩ := hhistory ids resource hc
      exact result_means environment fromString directory hsep hnamed hr id hid
    have hregistered : (Call.updateResource ids resource).registered id = some resource :=
      registered_eq_some.mpr ⟨ids, rfl, hid⟩
    refine lookupResource_of_consistent ?_ ⟨_, hcall, hregistered⟩
    intro c hc resource' hregistered'
    exact means_unique environment directory (hmeans c hc resource' hregistered')
      (hmeans _ hcall resource hregistered)
  · intro described described' r r' hnamed hnamed' hr hr' hne id hid hid'
    exact hne (means_unique environment directory
      (result_means environment fromString directory hsep hnamed hr id hid)
      (result_means environment fromString directory hsep hnamed' hr' id hid'))

end Results

/-! ## A pod with a dotted name -/

def dottedPod : Object := [
  (lit "metadata", .object [
    (lit "creationTimestamp", .string (lit "2018-01-18T19:38:50Z")),
    (lit "name", .string (lit "web.0")),
    (lit "namespace", .string (lit "default")),
    (lit "uid", .string (lit "p1"))])]

def webContainer : Object := [(lit "name", .string (lit "web"))]

def webContainerStatus : Object := [
  (lit "containerID", .string (lit "docker://c1")),
  (lit "name", .string (lit "web"))]

def webDirectory : Directory :=
  ⟨fun _ => (lit "default", lit "web.0"), fun _ => (lit "default", lit "web.0", lit "web")⟩

def dottedPodResource : MonitoredResource :=
  podResource (lit "cluster") (lit "default") (lit "web.0") (lit "us-central1-a")

def webContainerResource : MonitoredResource :=
  containerResource (lit "cluster") (lit "default") (lit "web.0") (lit "web") (lit "us-central1-a")

def dottedRegistrations : List Call := [
  .updateResource [lit "k8s_container.p1.web", lit "k8s_container.default.web.0.web",
    lit "k8s_container.c1"] webContainerResource,
  .updateResource [lit "k8s_pod.p1", lit "k8s_pod.default.web.0"] dottedPodResource]

theorem webContainer_named :
    ContainerNamed webDirectory dottedPod webContainer (some webContainerStatus) where
  namespacePlain := by
    rintro _ ⟨⟩
    decide
  idPlain := by
    rintro _ ⟨⟩
    decide
  ofId := by
    rintro _ _ _ ⟨⟩ ⟨⟩ ⟨⟩
    rfl
  containerNamePlain := by
    rintro _ ⟨⟩
    decide
  containerIdPlain := by
    rintro _ _ ⟨⟩ ⟨⟩
    decide
  ofContainerId := by
    rintro _ _ _ _ _ ⟨⟩ ⟨⟩ ⟨⟩ ⟨⟩ ⟨⟩
    rfl

theorem dotted_names_resolve :
    (empty.after dottedRegistrations).lookupResource (lit "k8s_pod.default.web.0") =
        some dottedPodResource ∧
      (empty.after dottedRegistrations).lookupResource (lit "k8s_container.c1") =
        some webContainerResource := by
  have hresolve := (local_ids_resolve clusterNode (fun _ => 0) webDirectory
    (show masterConfig.metadataApiResourceTypeSeparator = [dot] from rfl)).1 dottedRegistrations
  have hregisters : RegistersResults clusterNode (fun _ => 0) webDirectory masterConfig
      dottedRegistrations := by
    intro ids resource hcall
    rcases List.mem_pair.mp hcall with hcall | hcall
    · rw [Call.updateResource.injEq] at hcall
      obtain ⟨rfl, rfl⟩ := hcall
      exact ⟨.container dottedPod webContainer (some webContainerStatus) none 0 false, _,
        webContainer_named, rfl, by decide +kernel, by decide +kernel⟩
    · rw [Call.updateResource.injEq] at hcall
      obtain ⟨rfl, rfl⟩ := hcall
      exact ⟨.pod dottedPod none 0 false, _, webContainer_named.toPodNamed, rfl,
        by decide +kernel, by decide +kernel⟩
  exact ⟨hresolve hregisters _ _ (List.mem_pair.mpr (.inr rfl)) _ (by simp),
    hresolve hregisters _ _ (List.mem_pair.mpr (.inl rfl)) _ (by simp)⟩

end MetadataAgent.KubernetesReader
