import MetadataAgent.Instance
import MetadataAgent.Kubernetes.Cluster
import MetadataAgent.Kubernetes.Pipeline

/-! # The callers of the store

The agent has an updater for the machine, one for Docker and one for Kubernetes, which either polls
or watches, and a reporter that purges. Each of them reports resources of types of its own under
ids of its own. In every interleaving of their calls a node is therefore what the node watch has
seen of it last, and its id leads to it. -/
namespace MetadataAgent.Updaters
open Lib Json MetadataStore HealthChecker KubernetesReader
open DockerReader (DockerConfiguration Daemon)
open PollingMetadataUpdater (storeCalls)
set_option autoImplicit false

/-! ## Callers -/

inductive Caller where
  | instanceUpdater
  | dockerUpdater
  | kubernetesUpdater
  | nodeWatch
  | podWatch
  | serviceWatch
  | endpointsWatch
  | reporter
  deriving DecidableEq

/-- The types of the resources that a caller reports. -/
def Caller.types : Caller → List Bytes
  | .instanceUpdater => []
  | .dockerUpdater => [lit "docker_container"]
  | .kubernetesUpdater => [lit "k8s_node", lit "k8s_container", lit "k8s_pod"]
  | .nodeWatch => [lit "k8s_node"]
  | .podWatch => [lit "k8s_container", lit "k8s_pod"]
  | .serviceWatch => [lit "k8s_cluster"]
  | .endpointsWatch => [lit "k8s_cluster"]
  | .reporter => []

/-- What the ids that a caller registers start with; the machine has its own id, and none. -/
def Caller.kinds : Caller → List Bytes
  | .instanceUpdater => []
  | .dockerUpdater => [lit "container"]
  | .kubernetesUpdater => [lit "k8s_node", lit "k8s_container", lit "k8s_pod"]
  | .nodeWatch => [lit "k8s_node"]
  | .podWatch => [lit "k8s_container", lit "k8s_pod"]
  | .serviceWatch => []
  | .endpointsWatch => []
  | .reporter => []

/-- Whether the Kubernetes updater watches. -/
inductive Mode where
  | watching
  | polling
  deriving DecidableEq

/-- `StartUpdater` starts the threads of the watches, or the one that polls. -/
def Caller.runsIn : Caller → Mode → Bool
  | .instanceUpdater, _ => true
  | .dockerUpdater, _ => true
  | .kubernetesUpdater, mode => mode = .polling
  | .nodeWatch, mode => mode = .watching
  | .podWatch, mode => mode = .watching
  | .serviceWatch, mode => mode = .watching
  | .endpointsWatch, mode => mode = .watching
  | .reporter, _ => true

/-- The services and their endpoints make up one resource. -/
def Caller.reportsCluster : Caller → Bool
  | .serviceWatch => true
  | .endpointsWatch => true
  | _ => false

/-- `GetClusterMetadata`, with the services that it finds. -/
def clusterReport (config : Configuration) (environment : Environment) (serviceList : List Value)
    (collectedAt : Timestamp) : ResourceMetadata where
  ids := []
  resource := clusterResource environment.kubernetesClusterName
    environment.kubernetesClusterLocation
  metadata := clusterMetadata config.metadataIngestionRawContentVersion serviceList collectedAt

section Callers
variable (config : DockerConfiguration) (environment : Environment)
variable (fromString : Bytes → Timestamp)

/-- A result that a caller may report, whatever it has been answered. -/
inductive Reports : Caller → ResourceMetadata → Prop
  | machine {results : List ResourceMetadata} {result : ResourceMetadata}
      (hquery : InstanceReader.metadataQuery environment = some results)
      (hresult : result ∈ results) : Reports .instanceUpdater result
  | docker {daemon : Daemon} {collectedAt : Timestamp} {results : List ResourceMetadata}
      {result : ResourceMetadata}
      (hquery : DockerReader.metadataQuery config environment fromString daemon collectedAt =
        .ok results)
      (hresult : result ∈ results) : Reports .dockerUpdater result
  | poll {master : Master} {fuel : ℕ} {options : QueryOptions}
      {nodesCollectedAt podsCollectedAt : Timestamp} {w w' : ReaderState}
      {results : List ResourceMetadata} {result : ResourceMetadata}
      (hquery : KubernetesReader.metadataQuery config.toConfiguration environment fromString master
        fuel options nodesCollectedAt podsCollectedAt w = some (.ok results, w'))
      (hresult : result ∈ results) : Reports .kubernetesUpdater result
  | node {node : Object} {collectedAt : Timestamp} {isDeleted : Bool} {result : ResourceMetadata}
      (hnode : getNodeMetadata config.toConfiguration environment fromString node collectedAt
        isDeleted = .ok result) : Reports .nodeWatch result
  | pod {master : Master} {fuel : ℕ} {pod : Object} {collectedAt : Timestamp} {isDeleted : Bool}
      {w w' : ReaderState} {results : List ResourceMetadata} {result : ResourceMetadata}
      (hpod : getPodAndContainerMetadata config.toConfiguration environment fromString master fuel
        pod collectedAt isDeleted w = some (.ok results, w'))
      (hresult : result ∈ results) : Reports .podWatch result
  | services (serviceList : List Value) (collectedAt : Timestamp) :
      Reports .serviceWatch
        (clusterReport config.toConfiguration environment serviceList collectedAt)
  | endpoints (serviceList : List Value) (collectedAt : Timestamp) :
      Reports .endpointsWatch
        (clusterReport config.toConfiguration environment serviceList collectedAt)

/-- What a caller does to the store and the health checker. -/
inductive Makes : Caller → HealthChecker.Event → Prop
  | update {caller : Caller} {result : ResourceMetadata} {call : Call}
      (hreports : Reports config environment fromString caller result)
      (hcall : call ∈ storeCalls result) : Makes caller (.store call)
  | purge : Makes .reporter (.store .purgeDeletedEntries)
  | setUnhealthy (caller : Caller) (component : Bytes) : Makes caller (.setUnhealthy component)

/-! ## What they report -/

/-- The result is recorded under a type of the caller, if at all, and registered under ids of the
caller. -/
structure Signed (caller : Caller) (result : ResourceMetadata) : Prop where
  type : result.metadata.ignore = false → result.resource.type ∈ caller.types
  ids : ∀ id ∈ result.ids, (∃ kind ∈ caller.kinds, kind <+: id) ∨
    caller = .instanceUpdater ∧ (id = [] ∨ id = environment.instanceId)

theorem prefix_localResourceId (kind part : Bytes) (parts : List Bytes) :
    kind <+: localResourceId config.toConfiguration (kind :: part :: parts) := by
  rw [localResourceId, List.intercalate_cons_cons, List.append_assoc]
  exact List.prefix_append _ _

theorem signed_instance {results : List ResourceMetadata} {result : ResourceMetadata}
    (hquery : InstanceReader.metadataQuery environment = some results)
    (hresult : result ∈ results) : Signed environment .instanceUpdater result := by
  obtain ⟨instanceResource, -, rfl⟩ := Option.map_eq_some_iff.mp hquery
  rw [List.mem_singleton.mp hresult]
  constructor
  · rintro ⟨⟩
  · intro id hid
    exact .inr ⟨rfl, List.mem_pair.mp hid⟩

theorem signed_inspected {daemon : Daemon} {id : Bytes} {collectedAt : Timestamp}
    {result : ResourceMetadata}
    (h : DockerReader.inspectContainer config environment fromString daemon id collectedAt =
      .ok result) : Signed environment .dockerUpdater result := by
  unfold DockerReader.inspectContainer at h
  simp only [bind_eq_ok, pure_eq_ok] at h
  obtain ⟨rawContainer, -, containerDesc, -, name, -, createdStr, -, state, -, isDeleted, -,
    instanceResource, -, resourceName, -, rfl⟩ := h
  constructor
  · exact fun _ => List.mem_singleton.mpr rfl
  · intro id' hid'
    refine .inl ⟨lit "container", List.mem_singleton.mpr rfl, ?_⟩
    rcases List.mem_pair.mp hid' with rfl | rfl
    · exact prefix_localResourceId config _ _ _
    · exact prefix_localResourceId config _ _ _

theorem signed_processed {daemon : Daemon} {rawContainer : Value} {collectedAt : Timestamp}
    {result : ResourceMetadata}
    (h : DockerReader.processContainer config environment fromString daemon collectedAt
      rawContainer = .ok result) : Signed environment .dockerUpdater result := by
  unfold DockerReader.processContainer DockerReader.getContainerMetadata at h
  simp only [bind_eq_ok] at h
  obtain ⟨container, -, id, -, hinspected⟩ := h
  cases hinspect : DockerReader.inspectContainer config environment fromString daemon id
    collectedAt with
  | ok inspected =>
    rw [hinspect] at hinspected
    cases hinspected
    exact signed_inspected config environment fromString hinspect
  | error e =>
    rw [hinspect] at hinspected
    cases e <;> cases hinspected

theorem signed_containers {daemon : Daemon} {collectedAt : Timestamp}
    {containers : List Value} {before results : List ResourceMetadata}
    (h : DockerReader.containerLoop config environment fromString daemon collectedAt before
      containers = .ok results)
    (hbefore : ∀ result ∈ before, Signed environment .dockerUpdater result) :
    ∀ result ∈ results, Signed environment .dockerUpdater result := by
  induction containers generalizing before with
  | nil =>
    cases h
    exact hbefore
  | cons rawContainer rest ih =>
    rw [DockerReader.containerLoop] at h
    cases hprocess : DockerReader.processContainer config environment fromString daemon collectedAt
      rawContainer with
    | ok metadata =>
      rw [hprocess] at h
      refine ih h fun result hresult => ?_
      rcases List.mem_append.mp hresult with hresult | hresult
      · exact hbefore result hresult
      · rw [List.mem_singleton.mp hresult]
        exact signed_processed config environment fromString hprocess
    | error e =>
      rw [hprocess] at h
      cases e with
      | json e => exact ih h hbefore
      | query e =>
        cases h
        exact hbefore
      | outOfRange => cases h

theorem signed_docker {daemon : Daemon} {collectedAt : Timestamp}
    {results : List ResourceMetadata}
    (h : DockerReader.metadataQuery config environment fromString daemon collectedAt =
      .ok results) : ∀ result ∈ results, Signed environment .dockerUpdater result := by
  rw [DockerReader.metadataQuery] at h
  split at h
  · cases h
    exact fun result hresult => absurd hresult List.not_mem_nil
  · split at h
    · cases h
      exact fun result hresult => absurd hresult List.not_mem_nil
    · exact signed_containers config environment fromString h fun result hresult =>
        absurd hresult List.not_mem_nil

theorem signed_node {node : Object} {collectedAt : Timestamp} {isDeleted : Bool}
    {result : ResourceMetadata}
    (h : getNodeMetadata config.toConfiguration environment fromString node collectedAt isDeleted =
      .ok result) : Signed environment .nodeWatch result := by
  unfold getNodeMetadata at h
  simp only [bind_eq_ok, pure_eq_ok] at h
  obtain ⟨metadata, -, nodeName, -, createdStr, -, rfl⟩ := h
  constructor
  · exact fun _ => List.mem_singleton.mpr rfl
  · intro id hid
    rw [List.mem_singleton.mp hid]
    exact .inl ⟨lit "k8s_node", List.mem_singleton.mpr rfl, prefix_localResourceId config _ _ _⟩

theorem prefix_of_containerIds {containerStatus : Option Object} {ids : List Bytes}
    (h : containerIds config.toConfiguration containerStatus = .ok ids) :
    ∀ id ∈ ids, lit "k8s_container" <+: id := by
  unfold containerIds at h
  intro id hid
  cases containerStatus with
  | none =>
    cases h
    exact absurd hid List.not_mem_nil
  | some status =>
    by_cases hhas : has status (lit "containerID") = true
    · simp only [hhas, if_true, bind_eq_ok, pure_eq_ok] at h
      obtain ⟨dockerId, -, rfl⟩ := h
      rw [List.mem_singleton.mp hid]
      exact prefix_localResourceId config _ _ _
    · simp only [hhas, Bool.false_eq_true, if_false, pure_eq_ok] at h
      subst h
      exact absurd hid List.not_mem_nil

theorem signed_container {pod containerSpec : Object} {containerStatus : Option Object}
    {associations : Option Value} {collectedAt : Timestamp} {isDeleted : Bool}
    {result : ResourceMetadata}
    (h : getContainerMetadata config.toConfiguration environment fromString pod containerSpec
      containerStatus associations collectedAt isDeleted = .ok result) :
    Signed environment .podWatch result := by
  unfold getContainerMetadata at h
  simp only [bind_eq_ok, pure_eq_ok] at h
  obtain ⟨metadata, -, namespaceName, -, podName, -, podId, -, createdStr, -, labels, -,
    containerName, -, idsOfStatus, hids, rfl⟩ := h
  constructor
  · exact fun _ => List.mem_cons_self
  · intro id hid
    refine .inl ⟨lit "k8s_container", List.mem_cons_self, ?_⟩
    rcases List.mem_append.mp hid with hid | hid
    · rcases List.mem_pair.mp hid with rfl | rfl
      · exact prefix_localResourceId config _ _ _
      · exact prefix_localResourceId config _ _ _
    · exact prefix_of_containerIds config hids id hid

theorem signed_podMetadata {pod : Object} {associations : Option Value} {collectedAt : Timestamp}
    {isDeleted : Bool} {result : ResourceMetadata}
    (h : getPodMetadata config.toConfiguration environment fromString pod associations collectedAt
      isDeleted = .ok result) : Signed environment .podWatch result := by
  unfold getPodMetadata at h
  simp only [bind_eq_ok, pure_eq_ok] at h
  obtain ⟨metadata, -, namespaceName, -, podName, -, podId, -, createdStr, -, rfl⟩ := h
  have hmem : lit "k8s_pod" ∈ Caller.podWatch.kinds :=
    List.mem_cons_of_mem _ (List.mem_singleton.mpr rfl)
  constructor
  · exact fun _ => hmem
  · intro id hid
    refine .inl ⟨lit "k8s_pod", hmem, ?_⟩
    rcases List.mem_pair.mp hid with rfl | rfl
    · exact prefix_localResourceId config _ _ _
    · exact prefix_localResourceId config _ _ _

/-- All that a pod is reported as carries the signature of the pod watch. -/
theorem signed_pod {master : Master} {fuel : ℕ} {pod : Object} {collectedAt : Timestamp}
    {isDeleted : Bool} {w w' : ReaderState} {results : List ResourceMetadata}
    (h : getPodAndContainerMetadata config.toConfiguration environment fromString master fuel pod
      collectedAt isDeleted w = some (.ok results, w')) :
    ∀ result ∈ results, Signed environment .podWatch result := by
  unfold getPodAndContainerMetadata at h
  obtain ⟨computed, -, heq⟩ := Option.map_eq_some_iff.mp h
  rw [Prod.mk.injEq] at heq
  have hbind := heq.1
  change (computed.1 >>= _) = _ at hbind
  rw [bind_eq_ok] at hbind
  obtain ⟨associations, -, hall⟩ := hbind
  rw [mapError_eq_ok] at hall
  unfold podAndContainers at hall
  simp only [bind_eq_ok, pure_eq_ok] at hall
  obtain ⟨metadata, -, _podName, -, _podId, -, spec, -, status, -, containerSpecs, -,
    statusByName, -, containers, hcontainers, podMetadata, hpod, rfl⟩ := hall
  intro result hresult
  rcases List.mem_append.mp hresult with hresult | hresult
  · obtain ⟨cSpec, -, hspec⟩ := exists_of_mem_mapM hcontainers hresult
    simp only [bind_eq_ok] at hspec
    obtain ⟨containerSpec, -, name, -, hcontainer⟩ := hspec
    exact signed_container config environment fromString hcontainer
  · rw [List.mem_singleton.mp hresult]
    exact signed_podMetadata config environment fromString hpod

variable {environment} in
/-- A poll reports what the two watches report. -/
theorem Signed.poll {caller : Caller} {result : ResourceMetadata}
    (h : Signed environment caller result) (hcaller : caller = .nodeWatch ∨ caller = .podWatch) :
    Signed environment .kubernetesUpdater result := by
  have hkinds : ∀ kind ∈ caller.kinds, kind ∈ Caller.kubernetesUpdater.kinds := by
    rcases hcaller with rfl | rfl <;> decide
  have htypes : caller.types = caller.kinds := by
    rcases hcaller with rfl | rfl <;> rfl
  constructor
  · exact fun hrecorded => hkinds _ (htypes ▸ h.type hrecorded)
  · intro id hid
    rcases h.ids id hid with ⟨kind, hkind, hstarts⟩ | ⟨rfl, -⟩
    · exact .inl ⟨kind, hkinds kind hkind, hstarts⟩
    · rcases hcaller with h | h <;> cases h

theorem signed_pods {master : Master} {fuel : ℕ} {nodeName : Bytes} {collectedAt : Timestamp}
    {pods : List Value} {before results : List ResourceMetadata} {thrown : Option Thrown}
    {w w' : ReaderState}
    (h : podLoop config.toConfiguration environment fromString master fuel nodeName collectedAt
      before pods w = some ((results, thrown), w'))
    (hbefore : ∀ result ∈ before, Signed environment .kubernetesUpdater result) :
    ∀ result ∈ results, Signed environment .kubernetesUpdater result := by
  induction pods generalizing before w with
  | nil =>
    cases h
    exact hbefore
  | cons rawPod rest ih =>
    rw [podLoop] at h
    rcases hprocess : processPod config.toConfiguration environment fromString master fuel nodeName
      collectedAt rawPod w with _ | ⟨processed, w₁⟩
    · rw [hprocess] at h
      cases h
    · rw [hprocess] at h
      rcases processed with e | full
      · cases e with
        | json e => exact ih h hbefore
        | query e =>
          cases h
          exact hbefore
        | string s =>
          cases h
          exact hbefore
      · refine ih h fun result hresult => ?_
        rcases List.mem_append.mp hresult with hresult | hresult
        · exact hbefore result hresult
        · rw [processPod] at hprocess
          cases hpod : podChecks nodeName rawPod with
          | error e =>
            rw [hpod] at hprocess
            cases hprocess
          | ok pod =>
            rw [hpod] at hprocess
            exact (signed_pod config environment fromString hprocess result hresult).poll (.inr rfl)

theorem signed_nodes {master : Master} {options : QueryOptions} {collectedAt : Timestamp}
    {w : ReaderState} :
    ∀ result ∈ (queryNodes config.toConfiguration environment fromString master options collectedAt
      w).1, Signed environment .kubernetesUpdater result := by
  intro result hresult
  rw [queryNodes] at hresult
  split at hresult
  · exact absurd hresult List.not_mem_nil
  · split at hresult
    · exact absurd hresult List.not_mem_nil
    · rw [nodeLoop_fst, List.nil_append] at hresult
      obtain ⟨rawNode, -, hprocess⟩ := exists_of_mem_untilError hresult
      rw [processNode, bind_eq_ok] at hprocess
      obtain ⟨node, -, hnode⟩ := hprocess
      exact (signed_node config environment fromString hnode).poll (.inl rfl)

theorem signed_poll {master : Master} {fuel : ℕ} {options : QueryOptions}
    {nodesCollectedAt podsCollectedAt : Timestamp} {w w' : ReaderState}
    {results : List ResourceMetadata}
    (h : KubernetesReader.metadataQuery config.toConfiguration environment fromString master fuel
      options nodesCollectedAt podsCollectedAt w = some (.ok results, w')) :
    ∀ result ∈ results, Signed environment .kubernetesUpdater result := by
  have hnodes := @signed_nodes config environment fromString master options nodesCollectedAt w
  rw [KubernetesReader.metadataQuery, queryPods] at h
  split at h
  · cases h
    exact hnodes
  · split at h
    · cases h
      exact hnodes
    · rename_i pods _
      split at h
      · cases h
      · cases h
      · rename_i hloop
        cases h
        exact signed_pods config environment fromString hloop hnodes

variable {config environment fromString}

theorem Reports.signed {caller : Caller} {result : ResourceMetadata}
    (h : Reports config environment fromString caller result) :
    Signed environment caller result := by
  cases h with
  | machine hquery hresult => exact signed_instance environment hquery hresult
  | docker hquery hresult => exact signed_docker config environment fromString hquery _ hresult
  | poll hquery hresult => exact signed_poll config environment fromString hquery _ hresult
  | node hnode => exact signed_node config environment fromString hnode
  | pod hpod hresult => exact signed_pod config environment fromString hpod _ hresult
  | services serviceList collectedAt =>
    exact ⟨fun _ => List.mem_singleton.mpr rfl, fun id hid => absurd hid List.not_mem_nil⟩
  | endpoints serviceList collectedAt =>
    exact ⟨fun _ => List.mem_singleton.mpr rfl, fun id hid => absurd hid List.not_mem_nil⟩

theorem Makes.type_mem {caller : Caller} {e : HealthChecker.Event}
    (h : Makes config environment fromString caller e) {r : MonitoredResource} {entry : Metadata}
    (hrecorded : e.recorded r = some entry) : r.type ∈ caller.types := by
  cases h with
  | @update caller result call hreports hcall =>
    obtain ⟨rfl, hignore⟩ := recorded_eq_some.mp hrecorded
    rcases List.mem_pair.mp hcall with heq | heq
    · cases heq
    · rw [Call.updateMetadata.injEq] at heq
      rw [heq.1]
      exact hreports.signed.type (heq.2 ▸ hignore)
  | purge => cases hrecorded
  | setUnhealthy caller component => cases hrecorded

theorem Makes.id_kind {caller : Caller} {e : HealthChecker.Event}
    (h : Makes config environment fromString caller e) {id : Bytes} {r : MonitoredResource}
    (hregistered : e.registered id = some r) :
    (∃ kind ∈ caller.kinds, kind <+: id) ∨
      caller = .instanceUpdater ∧ (id = [] ∨ id = environment.instanceId) := by
  obtain ⟨ids, rfl, hid⟩ := HealthChecker.registered_eq_some.mp hregistered
  cases h with
  | @update caller result call hreports hcall =>
    rcases List.mem_pair.mp hcall with heq | heq
    · rw [Call.updateResource.injEq] at heq
      exact hreports.signed.ids id (heq.1 ▸ hid)
    · cases heq

/-! ## Callers apart -/

theorem types_apart {mode : Mode} {caller other : Caller} (hcaller : caller.runsIn mode = true)
    (hother : other.runsIn mode = true) (hne : other ≠ caller)
    (hcluster : caller.reportsCluster = false) : ∀ type ∈ caller.types, type ∉ other.types := by
  revert hcaller hother hne hcluster
  cases mode <;> cases caller <;> cases other <;> decide

theorem kinds_apart {mode : Mode} {caller other : Caller} (hcaller : caller.runsIn mode = true)
    (hother : other.runsIn mode = true) (hne : other ≠ caller) :
    ∀ kind ∈ caller.kinds, ∀ kind' ∈ other.kinds, ¬kind <+: kind' ∧ ¬kind' <+: kind := by
  revert hcaller hother hne
  cases mode <;> cases caller <;> cases other <;> decide

theorem nil_notMem_kinds (caller : Caller) : [] ∉ caller.kinds := by
  cases caller <;> decide

/-- Every event of a run is made by its caller, and no caller of the other mode takes part. -/
def RunsIn (config : DockerConfiguration) (environment : Environment)
    (fromString : Bytes → Timestamp) (mode : Mode) (run : List (Caller × HealthChecker.Event)) :
    Prop :=
  ∀ x ∈ run, x.1.runsIn mode = true ∧ Makes config environment fromString x.1 x.2

variable {mode : Mode} {run : List (Caller × HealthChecker.Event)} {caller : Caller}

theorem reportsAlone_of_runsIn (hrun : RunsIn config environment fromString mode run)
    (hcaller : caller.runsIn mode = true) (hcluster : caller.reportsCluster = false)
    {r : MonitoredResource} (hr : r.type ∈ caller.types) : ReportsAlone run caller r := by
  intro x hx hother
  obtain ⟨hmode, hmakes⟩ := hrun x hx
  cases hrecorded : x.2.recorded r with
  | none => rfl
  | some entry =>
    exact absurd (hmakes.type_mem hrecorded) (types_apart hcaller hmode hother hcluster _ hr)

theorem registersAlone_of_runsIn (hrun : RunsIn config environment fromString mode run)
    (hcaller : caller.runsIn mode = true) {id kind : Bytes} (hkind : kind ∈ caller.kinds)
    (hstarts : kind <+: id) (hmachine : id ≠ environment.instanceId) :
    RegistersAlone run caller id := by
  intro x hx hother
  obtain ⟨hmode, hmakes⟩ := hrun x hx
  cases hregistered : x.2.registered id with
  | none => rfl
  | some r =>
    rcases hmakes.id_kind hregistered with ⟨kind', hkind', hstarts'⟩ | ⟨hinstance, hid⟩
    · obtain ⟨hleft, hright⟩ := kinds_apart hcaller hmode hother kind hkind kind' hkind'
      rcases List.prefix_or_prefix_of_prefix hstarts hstarts' with h | h
      · exact absurd h hleft
      · exact absurd h hright
    · rcases hid with rfl | hid
      · rw [List.prefix_nil.mp hstarts] at hkind
        exact absurd hkind (nil_notMem_kinds caller)
      · exact absurd hid hmachine

/-- In either mode, what is live of a resource and what an id leads to is decided by the caller
that they belong to; only the two watches of services share a resource. An id that is the bare
instance id of the machine is left out: the instance updater registers it, whatever it starts
with. -/
theorem callers_apart (mode : Mode) (run : List (Caller × HealthChecker.Event))
    (hrun : RunsIn config environment fromString mode run) (caller : Caller)
    (hcaller : caller.runsIn mode = true) :
    (caller.reportsCluster = false → ∀ r, r.type ∈ caller.types →
      live r (shared run) = live r (Monitor.init.after (own caller run))) ∧
    ∀ kind ∈ caller.kinds, ∀ id, kind <+: id → id ≠ environment.instanceId →
      (shared run).store.lookupResource id =
        (Monitor.init.after (own caller run)).store.lookupResource id := by
  constructor
  · intro hcluster r hr
    exact live_shared (reportsAlone_of_runsIn hrun hcaller hcluster hr)
  · intro kind hkind id hstarts hmachine
    exact lookedUp_shared (registersAlone_of_runsIn hrun hcaller hkind hstarts hmachine)

/-! ## Nodes under a watch -/

section Nodes
variable {y : Yajl} {Between InsideMap Failed : y.State → Prop}

/-- The node watch makes calls of its own only. -/
theorem makes_nodeReports (clock : ℕ → Timestamp) (seen : List Value) :
    ∀ e ∈ metadataCallback
        (nodeReports config.toConfiguration environment fromString clock seen),
      Makes config environment fromString .nodeWatch e := by
  intro e he
  obtain ⟨call, hcall, rfl⟩ := List.mem_map.mp he
  obtain ⟨result, hresult, hcall⟩ := List.mem_flatMap.mp hcall
  obtain ⟨i, v, -, hreport⟩ :=
    (mem_nodeReports config.toConfiguration environment fromString clock).mp hresult
  obtain ⟨type, node, -, -, hnode⟩ :=
    (nodeReport_eq_some config.toConfiguration environment fromString).mp hreport
  exact .update (.node hnode) hcall

/-- Wherever the connections of the node watch are cut and whatever the other callers do, the live
entry of a node is that of the last event about it that was handled, unless that deleted it, and
the id of every node that was reported leads to it, if it is not the bare instance id. -/
theorem watched_nodes_in_store (hy : y.Documented Between InsideMap Failed)
    (deliveries : List (Delivery y)) (clock : ℕ → Timestamp)
    (run : List (Caller × HealthChecker.Event))
    (hrun : RunsIn config environment fromString .watching run)
    (ended : List HealthChecker.Event)
    (hended : ∀ e ∈ ended, ∃ component, e = .setUnhealthy component)
    (hown : own .nodeWatch run =
      (watched y (watchNodes config.toConfiguration environment fromString clock) (0, [])
        (deliveries.map Delivery.notifications)).2 ++ ended) :
    (∀ r entry, r.type = lit "k8s_node" →
      (live r (shared run) = some entry ↔ entry.isDeleted = false ∧
        LastReported config.toConfiguration environment fromString clock
          (handled (malformedNode config.toConfiguration environment fromString) deliveries)
          r entry)) ∧
    ∀ i v result,
      (handled (malformedNode config.toConfiguration environment fromString) deliveries)[i]? =
        some v →
      nodeReport config.toConfiguration environment fromString (clock i) v = .ok (some result) →
      ∀ id ∈ result.ids, id ≠ environment.instanceId →
        (shared run).store.lookupResource id = some result.resource := by
  rw [watched_eq_handled hy
    (watchNodes_throws config.toConfiguration environment fromString clock),
    foldl_watchNodes] at hown
  have hrecorded : ∀ r, ∀ e ∈ ended, ∀ entry, liveStep r entry e = entry := by
    intro r e he entry
    obtain ⟨component, rfl⟩ := hended e he
    rfl
  have hregistered : ∀ id, ∀ e ∈ ended, ∀ resource, lookupStep id resource e = resource := by
    intro id e he resource
    obtain ⟨component, rfl⟩ := hended e he
    exact Option.or_none
  constructor
  · intro r entry hr
    have halone : ReportsAlone run .nodeWatch r :=
      reportsAlone_of_runsIn hrun rfl rfl (List.mem_singleton.mpr hr)
    rw [live_shared halone, hown, Monitor.after,
      view_append_fixed (live_apply r) Monitor.init _ (hrecorded r)]
    exact live_nodeReports config.toConfiguration environment fromString clock _ r entry
  · intro i v result hv hreport id hid hmachine
    have hstarts : lit "k8s_node" <+: id := by
      obtain ⟨nodeName, hids, -⟩ :=
        nodeReport_named config.toConfiguration environment fromString hreport
      rw [hids, List.mem_singleton] at hid
      rw [hid]
      exact prefix_localResourceId config _ _ _
    have halone : RegistersAlone run .nodeWatch id :=
      registersAlone_of_runsIn hrun rfl (List.mem_singleton.mpr rfl) hstarts hmachine
    refine (lookedUp_shared halone).trans ?_
    rw [hown, Monitor.after, view_append_fixed (lookedUp_apply id) Monitor.init _ (hregistered id)]
    exact lookedUp_nodeReports config.toConfiguration environment fromString clock hv hreport hid

end Nodes

end Callers

/-- An event with a node. -/
def addedNode : Bytes × List (Bytes × Doc) :=
  (lit "\x7b\"type\":\"ADDED\",\"object\":\x7b\"metadata\":\x7b\"name\":\"n\",\"creationTimestamp\":\"t\"\x7d\x7d\x7d",
    [(lit "type", .string (lit "ADDED")),
      (lit "object", .object [(lit "metadata", .object [
        (lit "name", .string (lit "n")), (lit "creationTimestamp", .string (lit "t"))])])])

set_option maxRecDepth 4000 in
theorem isText_addedNode : pushdown.IsText addedNode.1 (.object addedNode.2) := rfl

/-- The event, and the beginning of another one. -/
def nodeDelivery : Delivery pushdown where
  stream := [addedNode, addedNode]
  notifications := [(addedNode.1.take 7, .success),
    (addedNode.1.drop 7 ++ addedNode.1.take 9, .success)]
  text e he := by
    rcases List.mem_pair.mp he with rfl | rfl
    · exact isText_addedNode
    · exact isText_addedNode
  body := ⟨addedNode.1.drop 9, by decide +kernel⟩
  errors n hn := by
    rw [List.mem_singleton.mp hn]
  ended n hn heof := by
    cases hn
    cases heof

def nodeRun : List (Caller × HealthChecker.Event) :=
  (watched pushdown (watchNodes masterConfig clusterNode (fun _ => 0) fun _ => 0) (0, [])
      [nodeDelivery.notifications]).2.map (fun e => (.nodeWatch, e)) ++
    [(.reporter, .store .purgeDeletedEntries)]

theorem runsIn_nodeRun :
    RunsIn DockerReader.dockerConfig clusterNode (fun _ => 0) .watching nodeRun := by
  have hcalls := watched_eq_handled pushdown_documented
    (watchNodes_throws masterConfig clusterNode (fun _ => 0) fun _ => 0) (0, []) [nodeDelivery]
  rw [foldl_watchNodes] at hcalls
  intro x hx
  rcases List.mem_append.mp hx with hx | hx
  · obtain ⟨e, he, rfl⟩ := List.mem_map.mp hx
    rw [← List.map_singleton, hcalls] at he
    exact ⟨rfl, makes_nodeReports (fun _ => 0) _ e he⟩
  · rw [List.mem_singleton.mp hx]
    exact ⟨rfl, .purge⟩

theorem node_watch_apart :
    (∀ r, r.type = lit "k8s_node" →
      live r (shared nodeRun) = live r (Monitor.init.after (own .nodeWatch nodeRun))) ∧
    (shared nodeRun).store.lookupResource (lit "k8s_node.n") =
      (Monitor.init.after (own .nodeWatch nodeRun)).store.lookupResource (lit "k8s_node.n") := by
  obtain ⟨hlive, hlookup⟩ := callers_apart .watching nodeRun runsIn_nodeRun .nodeWatch rfl
  exact ⟨fun r hr => hlive rfl r (List.mem_singleton.mpr hr),
    hlookup (lit "k8s_node") (List.mem_singleton.mpr rfl) (lit "k8s_node.n") (by decide)
      (by decide)⟩

theorem watched_node_found :
    (shared nodeRun).store.lookupResource (lit "k8s_node.n") =
      some (nodeResource (lit "cluster") (lit "n") (lit "us-central1-a")) := by
  refine (watched_nodes_in_store pushdown_documented [nodeDelivery] (fun _ => 0) nodeRun
    runsIn_nodeRun [] (fun e he => absurd he List.not_mem_nil) ?_).2 0
    (Doc.object addedNode.2).value ⟨[lit "k8s_node.n"], _, _⟩ rfl rfl (lit "k8s_node.n")
    List.mem_cons_self (by decide)
  rw [nodeRun, own_append, own_map_self, List.append_nil]
  exact List.append_nil _

end MetadataAgent.Updaters
