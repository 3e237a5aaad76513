import MetadataAgent.Kubernetes.Pods

/-! # A poll of nodes and pods

`MetadataQuery` lists the nodes, then the pods, and collects what each of them is reported as. The
loop over the pods catches the `json::Exception` of one pod and goes on; the loop over the nodes
stands as a whole in a `try` block. -/
namespace MetadataAgent.KubernetesReader
open Lib Json
set_option autoImplicit false

def nodeResource (clusterName nodeName location : Bytes) : MonitoredResource :=
  .ofLabels (lit "k8s_node") [
    (lit "cluster_name", clusterName),
    (lit "node_name", nodeName),
    (lit "location", location)]

def kubernetesEndpointPath : Bytes := lit "/api/v1"

def nodeSelectorPrefix : Bytes := lit "?fieldSelector=spec.nodeName%3D"

/-- The options of a poll. `currentNode` is what `CurrentNode` has returned. -/
structure QueryOptions where
  currentNode : Bytes
  kubernetesClusterLevelMetadata : Bool
  kubernetesPodLabelSelector : Bytes

/-- The node that the poll is limited to; empty if it is not. -/
def QueryOptions.nodeName (options : QueryOptions) : Bytes :=
  if options.kubernetesClusterLevelMetadata then [] else options.currentNode

def QueryOptions.podLabelSelector (options : QueryOptions) : Bytes :=
  if options.kubernetesPodLabelSelector.isEmpty then []
  else lit "&" ++ options.kubernetesPodLabelSelector

def QueryOptions.nodesPath (options : QueryOptions) : Bytes :=
  kubernetesEndpointPath ++ lit "/nodes/" ++ options.nodeName

def QueryOptions.podsPath (options : QueryOptions) : Bytes :=
  kubernetesEndpointPath ++ lit "/pods" ++ (nodeSelectorPrefix ++ options.nodeName) ++
    options.podLabelSelector

/-! ## Nodes -/

section Nodes
variable (config : Configuration) (environment : Environment) (fromString : Bytes → Timestamp)

def getNodeMetadata (node : Object) (collectedAt : Timestamp) (isDeleted : Bool) :
    Except Exception ResourceMetadata := do
  let metadata ← getObject node (lit "metadata")
  let nodeName ← getString metadata (lit "name")
  let createdStr ← getString metadata (lit "creationTimestamp")
  let associations := environment.instanceResource.map fun instanceResource =>
    versioned config.metadataIngestionRawContentVersion
      (object [(lit "infrastructureResource", some instanceResource.toJSON)])
  let nodeRawMetadata := object [
    (lit "blobs", some (object [
      (lit "association", associations),
      (lit "api", some (versioned kubernetesApiVersion (.object node)))]))]
  return {
    ids := [localResourceId config [lit "k8s_node", nodeName]]
    resource := nodeResource environment.kubernetesClusterName nodeName
      environment.kubernetesClusterLocation
    metadata := ⟨config.metadataIngestionRawContentVersion, isDeleted, fromString createdStr,
      collectedAt, nodeRawMetadata, false⟩ }

/-- One turn of the loop over the nodes. -/
def processNode (collectedAt : Timestamp) (rawNode : Value) : Except Exception ResourceMetadata := do
  let node ← asObject rawNode
  getNodeMetadata config environment fromString node collectedAt false

/-- The loop over the nodes: what is in `result`, and the exception that ended it. -/
def nodeLoop (collectedAt : Timestamp) (result : List ResourceMetadata) :
    List Value → List ResourceMetadata × Option Exception
  | [] => (result, none)
  | rawNode :: rest =>
    match processNode config environment fromString collectedAt rawNode with
    | .error e => (result, some e)
    | .ok metadata => nodeLoop collectedAt (result ++ [metadata]) rest

/-- The elements of the node list; a single node is put in a list of its own. -/
def nodeItems (nodeName : Bytes) (rawNodes : Value) : Except Exception (List Value) := do
  let nodelist ← asObject (if nodeName.isEmpty then rawNodes
    else object [(lit "items", some (array [some rawNodes]))])
  getArray nodelist (lit "items")

theorem nodeLoop_fst (collectedAt : Timestamp) (result : List ResourceMetadata)
    (nodes : List Value) :
    (nodeLoop config environment fromString collectedAt result nodes).1 =
      result ++ untilError (processNode config environment fromString collectedAt) nodes := by
  induction nodes generalizing result with
  | nil => rw [nodeLoop, untilError, List.append_nil]
  | cons rawNode rest ih =>
    rw [nodeLoop, untilError]
    cases processNode config environment fromString collectedAt rawNode with
    | error e => rw [List.append_nil]
    | ok metadata =>
      simp only
      rw [ih, List.append_assoc, List.singleton_append]

end Nodes

/-! ## Pods -/

/-- What the loop reads of a pod before it is processed; most of it goes into the log. -/
def podChecks (nodeName : Bytes) (rawPod : Value) : Except Exception Object := do
  let pod ← asObject rawPod
  let metadata ← getObject pod (lit "metadata")
  let _podName ← getString metadata (lit "name")
  let _podId ← getString metadata (lit "uid")
  let spec ← getObject pod (lit "spec")
  if !nodeName.isEmpty then
    let _podNodeName ← getString spec (lit "nodeName")
  let status ← getObject pod (lit "status")
  let _containerSpecs ← getArray spec (lit "containers")
  if has status (lit "containerStatuses") then
    let _containerStatuses ← getArray status (lit "containerStatuses")
  return pod

section Query
variable (config : Configuration) (environment : Environment) (fromString : Bytes → Timestamp)
variable (master : Master)

/-- One turn of the loop over the pods. -/
def processPod (fuel : ℕ) (nodeName : Bytes) (collectedAt : Timestamp) (rawPod : Value)
    (w : ReaderState) : Option (Except Thrown (List ResourceMetadata) × ReaderState) :=
  match podChecks nodeName rawPod with
  | .error e => some (.error (.json e), w)
  | .ok pod => getPodAndContainerMetadata config environment fromString master fuel pod collectedAt
      false w

/-- The loop over the pods: what is in `result`, and the exception that ended it. -/
def podLoop (fuel : ℕ) (nodeName : Bytes) (collectedAt : Timestamp)
    (result : List ResourceMetadata) :
    List Value → ReaderState → Option ((List ResourceMetadata × Option Thrown) × ReaderState)
  | [], w => some ((result, none), w)
  | rawPod :: rest, w =>
    match processPod config environment fromString master fuel nodeName collectedAt rawPod w with
    | none => none
    | some (.ok fullPodMetadata, w) =>
      podLoop fuel nodeName collectedAt (result ++ fullPodMetadata) rest w
    | some (.error (.json _), w) => podLoop fuel nodeName collectedAt result rest w
    | some (.error (.query e), w) => some ((result, some (.query e)), w)
    | some (.error (.string s), w) => some ((result, some (.string s)), w)

/-- The elements of the pod list; the API version is read for the log. -/
def podItems (podlistResponse : Value) : Except Exception (List Value) := do
  let podlistObject ← asObject podlistResponse
  let _apiVersion ← getString podlistObject (lit "apiVersion")
  getArray podlistObject (lit "items")

/-- The first `try` block. -/
def queryNodes (options : QueryOptions) (collectedAt : Timestamp) (w : ReaderState) :
    List ResourceMetadata × ReaderState :=
  match queryMaster config master options.nodesPath w with
  | (.error _, w) => ([], w)
  | (.ok rawNodes, w) =>
    match nodeItems options.nodeName rawNodes with
    | .error _ => ([], w)
    | .ok nodes => ((nodeLoop config environment fromString collectedAt [] nodes).1, w)

/-- The second `try` block, where `result` has the nodes. -/
def queryPods (fuel : ℕ) (options : QueryOptions) (collectedAt : Timestamp)
    (result : List ResourceMetadata) (w : ReaderState) :
    Option (Except Thrown (List ResourceMetadata) × ReaderState) :=
  match queryMaster config master options.podsPath w with
  | (.error _, w) => some (.ok result, w)
  | (.ok podlistResponse, w) =>
    match podItems podlistResponse with
    | .error _ => some (.ok result, w)
    | .ok pods =>
      match podLoop config environment fromString master fuel options.nodeName collectedAt result
        pods w with
      | none => none
      | some ((_, some (.string s)), w) => some (.error (.string s), w)
      | some ((result, _), w) => some (.ok result, w)

/-- `MetadataQuery`, with the times at which the two lists came. -/
def metadataQuery (fuel : ℕ) (options : QueryOptions) (nodesCollectedAt podsCollectedAt : Timestamp)
    (w : ReaderState) : Option (Except Thrown (List ResourceMetadata) × ReaderState) :=
  let nodes := queryNodes config environment fromString master options nodesCollectedAt w
  queryPods config environment fromString master fuel options podsCollectedAt nodes.1 nodes.2

/-! ## Isolation of one element from the others -/

/-- `GetPodAndContainerMetadata` of a pod whose search for the top-level controller has the
outcome `topLevel`. -/
def podMetadataFrom (collectedAt : Timestamp) (isDeleted : Bool) (topLevel : Except Thrown Value)
    (pod : Object) : Except Thrown (List ResourceMetadata) :=
  ((podNamespace pod).mapError .json).bind fun named =>
    (associationsFrom config environment pod named.1 topLevel).bind fun associations =>
      (podAndContainers config environment fromString pod collectedAt isDeleted
        associations).mapError .json

/-- What an element of the pod list is reported as; nothing if its processing throws. -/
def podContribution (nodeName : Bytes) (collectedAt : Timestamp)
    (found : Object → Except Thrown Value) (rawPod : Value) : List ResourceMetadata :=
  match podChecks nodeName rawPod with
  | .error _ => []
  | .ok pod =>
    ((podMetadataFrom config environment fromString collectedAt false (found pod)
      pod).toOption).getD []

/-- Every search for a top-level controller that the loop over the pods makes comes to an end,
with the outcome `found`. -/
inductive SearchesFind (found : Object → Except Thrown Value) (fuel : ℕ) (nodeName : Bytes) :
    List Value → ReaderState → Prop
  | nil {w : ReaderState} : SearchesFind found fuel nodeName [] w
  | skipped {rawPod : Value} {rest : List Value} {w : ReaderState}
      (hthrows : ∀ pod, podChecks nodeName rawPod = .ok pod →
        ∀ named, podNamespace pod ≠ .ok named)
      (hrest : SearchesFind found fuel nodeName rest w) :
      SearchesFind found fuel nodeName (rawPod :: rest) w
  | found {rawPod : Value} {pod metadata : Object} {ns : Bytes} {rest : List Value}
      {w w' : ReaderState} (hpod : podChecks nodeName rawPod = .ok pod)
      (hns : podNamespace pod = .ok (metadata, ns))
      (hfind : findTopLevelController config master fuel ns (.object pod) w =
        some (found pod, w'))
      (hrest : SearchesFind found fuel nodeName rest w') :
      SearchesFind found fuel nodeName (rawPod :: rest) w

theorem getPodAndContainerMetadata_of_error (fuel : ℕ) (pod : Object) (collectedAt : Timestamp)
    (isDeleted : Bool) (w : ReaderState) {e : Exception} (h : podNamespace pod = .error e) :
    getPodAndContainerMetadata config environment fromString master fuel pod collectedAt isDeleted w
      = some (.error (.json e), w) := by
  unfold getPodAndContainerMetadata computePodAssociations
  rw [h]
  rfl

theorem getPodAndContainerMetadata_of_found {fuel : ℕ} {pod metadata : Object} {ns : Bytes}
    {w w' : ReaderState} {topLevel : Except Thrown Value} (collectedAt : Timestamp)
    (isDeleted : Bool) (hns : podNamespace pod = .ok (metadata, ns))
    (hfind : findTopLevelController config master fuel ns (.object pod) w = some (topLevel, w')) :
    getPodAndContainerMetadata config environment fromString master fuel pod collectedAt isDeleted w
      = some (podMetadataFrom config environment fromString collectedAt isDeleted topLevel pod,
        w') := by
  unfold getPodAndContainerMetadata computePodAssociations podMetadataFrom
  rw [hns]
  simp only [hfind, Option.map_some]
  rfl

theorem podMetadataFrom_isJson {collectedAt : Timestamp} {isDeleted : Bool}
    {topLevel : Except Thrown Value} {pod : Object} {e : Thrown}
    (hdeclared : ∀ e, topLevel = .error e → e.declared)
    (h : podMetadataFrom config environment fromString collectedAt isDeleted topLevel pod =
      .error e) : e.isJson := by
  unfold podMetadataFrom at h
  cases hns : podNamespace pod with
  | error x =>
    rw [hns] at h
    rw [← Except.error.inj h]
    trivial
  | ok named =>
    rw [hns] at h
    have hassociations := (associationsFrom_isJson_iff config environment pod named.1
      topLevel).mpr hdeclared
    exact (bind_mapError_isJson_iff _ _).mpr hassociations e h

section Skipped
variable {nodeName : Bytes} {rawPod : Value}

/-- Without a namespace of the pod its controller is not searched for. -/
theorem processPod_of_throws {fuel : ℕ} (collectedAt : Timestamp) (w : ReaderState)
    (hthrows : ∀ pod, podChecks nodeName rawPod = .ok pod → ∀ ns, podNamespace pod ≠ .ok ns) :
    ∃ e, processPod config environment fromString master fuel nodeName collectedAt rawPod w =
      some (.error (.json e), w) := by
  unfold processPod
  cases hpod : podChecks nodeName rawPod with
  | error e => exact ⟨e, rfl⟩
  | ok pod =>
    cases hns : podNamespace pod with
    | ok named => exact absurd hns (hthrows pod hpod named)
    | error e =>
      exact ⟨e, getPodAndContainerMetadata_of_error config environment fromString master fuel
        pod collectedAt false w hns⟩

theorem podContribution_of_throws (collectedAt : Timestamp) (found : Object → Except Thrown Value)
    (hthrows : ∀ pod, podChecks nodeName rawPod = .ok pod → ∀ ns, podNamespace pod ≠ .ok ns) :
    podContribution config environment fromString nodeName collectedAt found rawPod = [] := by
  unfold podContribution
  cases hpod : podChecks nodeName rawPod with
  | error e => rfl
  | ok pod =>
    cases hns : podNamespace pod with
    | ok named => exact absurd hns (hthrows pod hpod named)
    | error e =>
      simp only [podMetadataFrom, hns]
      rfl

end Skipped

/-- The loop over the pods returns what each of them contributes, in order. -/
theorem podLoop_eq (found : Object → Except Thrown Value)
    (hdeclared : ∀ pod e, found pod = .error e → e.declared) {fuel : ℕ} {nodeName : Bytes}
    (collectedAt : Timestamp) {pods : List Value} {w : ReaderState}
    (hfind : SearchesFind config master found fuel nodeName pods w)
    (result : List ResourceMetadata) :
    ∃ w', podLoop config environment fromString master fuel nodeName collectedAt result pods w =
      some ((result ++ pods.flatMap (podContribution config environment fromString nodeName
        collectedAt found), none), w') := by
  induction hfind generalizing result with
  | nil => exact ⟨_, by rw [podLoop, List.flatMap_nil, List.append_nil]⟩
  | @skipped rawPod rest w hthrows _ ih =>
    obtain ⟨w', hrest⟩ := ih result
    have hnothing := podContribution_of_throws config environment fromString collectedAt found
      hthrows
    obtain ⟨e, hprocess⟩ := @processPod_of_throws config environment fromString master _ _
      fuel collectedAt w hthrows
    refine ⟨w', ?_⟩
    rw [podLoop, hprocess, List.flatMap_cons, hnothing, List.nil_append]
    exact hrest
  | @found rawPod pod metadata ns rest w w₁ hpod hns hsearch _ ih =>
    have hprocess : processPod config environment fromString master fuel nodeName collectedAt
        rawPod w = some (podMetadataFrom config environment fromString collectedAt false
          (found pod) pod, w₁) := by
      unfold processPod
      rw [hpod]
      exact getPodAndContainerMetadata_of_found config environment fromString master collectedAt
        false hns hsearch
    rw [podLoop, hprocess, List.flatMap_cons]
    have hcontribution : podContribution config environment fromString nodeName collectedAt found
        rawPod = ((podMetadataFrom config environment fromString collectedAt false (found pod)
          pod).toOption).getD [] := by
      rw [podContribution, hpod]
    rw [hcontribution]
    cases hmetadata : podMetadataFrom config environment fromString collectedAt false (found pod)
        pod with
    | ok fullPodMetadata =>
      obtain ⟨w', hrest⟩ := ih (result ++ fullPodMetadata)
      refine ⟨w', ?_⟩
      simp only [Except.toOption, Option.getD_some]
      rw [hrest, List.append_assoc]
    | error e =>
      have hjson := podMetadataFrom_isJson config environment fromString (hdeclared pod) hmetadata
      obtain ⟨w', hrest⟩ := ih result
      refine ⟨w', ?_⟩
      cases e with
      | json e =>
        simp only [Except.toOption, Option.getD_none, List.nil_append]
        exact hrest
      | query e => cases hjson
      | string s => cases hjson

/-- The master answers both lists of the poll, and every search made for a pod comes to an end. -/
structure Answered (found : Object → Except Thrown Value) (fuel : ℕ) (options : QueryOptions)
    (nodes pods : List Value) (w : ReaderState) : Prop where
  nodesAnswered : ∃ rawNodes, (queryMaster config master options.nodesPath w).1 = .ok rawNodes ∧
    nodeItems options.nodeName rawNodes = .ok nodes
  podsAnswered : ∃ podlistResponse, (queryMaster config master options.podsPath
      (queryMaster config master options.nodesPath w).2).1 = .ok podlistResponse ∧
    podItems podlistResponse = .ok pods
  searches : SearchesFind config master found fuel options.nodeName pods
    (queryMaster config master options.podsPath
      (queryMaster config master options.nodesPath w).2).2
  declared : ∀ pod e, found pod = .error e → e.declared

/-- What a poll should report: every element that is processed without an exception, in order. -/
def isolated (options : QueryOptions) (nodesCollectedAt podsCollectedAt : Timestamp)
    (found : Object → Except Thrown Value) (nodes pods : List Value) : List ResourceMetadata :=
  skippingErrors (processNode config environment fromString nodesCollectedAt) nodes ++
    pods.flatMap (podContribution config environment fromString options.nodeName podsCollectedAt
      found)

/-- What `GetNodeMetadata` reads of an element is there, with the right types. -/
def NodeWellFormed (rawNode : Value) : Prop :=
  ∃ node metadata nodeName createdStr, rawNode = .object node ∧
    lookup (lit "metadata") node = some (.object metadata) ∧
    lookup (lit "name") metadata = some (.string nodeName) ∧
    lookup (lit "creationTimestamp") metadata = some (.string createdStr)

/-- The processing of a node throws exactly when it is malformed. -/
theorem processNode_throws_iff (collectedAt : Timestamp) (rawNode : Value) :
    (processNode config environment fromString collectedAt rawNode).toOption = none ↔
      ¬NodeWellFormed rawNode := by
  rw [← not_iff_not, not_not, ← ne_eq, Option.ne_none_iff_exists']
  simp only [toOption_eq_some]
  unfold processNode getNodeMetadata
  simp only [bind_eq_ok, pure_eq_ok, asObject_eq_ok, getObject_eq_ok, getString_eq_ok]
  constructor
  · rintro ⟨_, node, hnode, metadata, hmetadata, nodeName, hname, createdStr, hcreated, _⟩
    exact ⟨node, metadata, nodeName, createdStr, hnode, hmetadata, hname, hcreated⟩
  · rintro ⟨node, metadata, nodeName, createdStr, hnode, hmetadata, hname, hcreated⟩
    exact ⟨_, node, hnode, metadata, hmetadata, nodeName, hname, createdStr, hcreated, rfl⟩

/-- A poll isolates its elements from each other exactly when no well-formed node comes after a
malformed one. -/
theorem poll_isolated_iff {found : Object → Except Thrown Value} {fuel : ℕ}
    {options : QueryOptions} {nodes pods : List Value} {w : ReaderState}
    (nodesCollectedAt podsCollectedAt : Timestamp)
    (h : Answered config master found fuel options nodes pods w) :
    ∃ result w', metadataQuery config environment fromString master fuel options nodesCollectedAt
        podsCollectedAt w = some (.ok result, w') ∧
      (result = isolated config environment fromString options nodesCollectedAt podsCollectedAt
          found nodes pods ↔
        nodes.Pairwise fun m n => NodeWellFormed n → NodeWellFormed m) := by
  obtain ⟨rawNodes, hrawNodes, hnodes⟩ := h.nodesAnswered
  obtain ⟨podlistResponse, hresponse, hpods⟩ := h.podsAnswered
  have hfirst : queryNodes config environment fromString master options nodesCollectedAt w =
      (untilError (processNode config environment fromString nodesCollectedAt) nodes,
        (queryMaster config master options.nodesPath w).2) := by
    unfold queryNodes
    rcases hquery : queryMaster config master options.nodesPath w with ⟨answer, w₁⟩
    rw [hquery] at hrawNodes
    simp only at hrawNodes
    simp only [hrawNodes, hnodes, nodeLoop_fst, List.nil_append]
  obtain ⟨w', hloop⟩ := podLoop_eq config environment fromString master found h.declared
    podsCollectedAt h.searches
    (untilError (processNode config environment fromString nodesCollectedAt) nodes)
  refine ⟨untilError (processNode config environment fromString nodesCollectedAt) nodes ++
    pods.flatMap (podContribution config environment fromString options.nodeName podsCollectedAt
      found), w', ?_, ?_⟩
  · unfold metadataQuery queryPods
    rw [hfirst]
    rcases hquery : queryMaster config master options.podsPath
      (queryMaster config master options.nodesPath w).2 with ⟨answer, w₂⟩
    rw [hquery] at hresponse hloop
    simp only at hresponse hloop
    simp only [hquery, hresponse, hpods, hloop]
  · rw [isolated, List.append_left_inj, untilError_eq_skippingErrors_iff]
    simp only [processNode_throws_iff, not_imp_not]

end Query

/-! ## A malformed node -/

def workerNode : Value := .object [
  (lit "metadata", .object [
    (lit "creationTimestamp", .string (lit "2018-01-18T19:38:50Z")),
    (lit "name", .string (lit "node-1"))])]

def namelessNode : Value := .object [(lit "metadata", .object [])]

def barePod : Value := .object [
  (lit "metadata", .object [
    (lit "creationTimestamp", .string (lit "2018-01-18T19:38:50Z")),
    (lit "name", .string (lit "web-1")),
    (lit "namespace", .string (lit "default")),
    (lit "uid", .string (lit "p1"))]),
  (lit "spec", .object [(lit "containers", .array [])]),
  (lit "status", .object [])]

/-- The first query lists the nodes, the second one the pods. -/
def serveLists (nodes pods : List Value) : Master := fun query _ =>
  .answer 200 (lit "OK") (.ok (if query = 0 then .object [(lit "items", .array nodes)]
    else .object [(lit "apiVersion", .string (lit "v1")), (lit "items", .array pods)]))

def clusterLevel : QueryOptions := ⟨lit "node-1", true, []⟩

/-- A pod without a controller is its own. -/
def itself (pod : Object) : Except Thrown Value := .ok (.object pod)

theorem answered_serveLists (nodes : List Value) :
    Answered masterConfig (serveLists nodes [.null, barePod]) itself 1 clusterLevel nodes
      [.null, barePod] noQueries where
  nodesAnswered := ⟨_, rfl, rfl⟩
  podsAnswered := ⟨_, rfl, rfl⟩
  searches := by
    refine .skipped ?_ (.found rfl rfl rfl .nil)
    intro pod hpod
    cases hpod
  declared := by
    intro pod e he
    cases he

/-- The well-formed node after the malformed one is not reported. -/
theorem node_after_malformed_lost :
    Answered masterConfig (serveLists [namelessNode, workerNode] [.null, barePod]) itself 1
      clusterLevel [namelessNode, workerNode] [.null, barePod] noQueries ∧
    ∃ result w', metadataQuery masterConfig clusterNode (fun _ => 0)
        (serveLists [namelessNode, workerNode] [.null, barePod]) 1 clusterLevel 0 0 noQueries =
          some (.ok result, w') ∧
      result ≠ isolated masterConfig clusterNode (fun _ => 0) clusterLevel 0 0 itself
        [namelessNode, workerNode] [.null, barePod] := by
  refine ⟨answered_serveLists _, _, _, rfl, ?_⟩
  decide +kernel

theorem node_before_malformed_reported :
    ∃ result w', metadataQuery masterConfig clusterNode (fun _ => 0)
        (serveLists [workerNode, namelessNode] [.null, barePod]) 1 clusterLevel 0 0 noQueries =
          some (.ok result, w') ∧
      result = isolated masterConfig clusterNode (fun _ => 0) clusterLevel 0 0 itself
        [workerNode, namelessNode] [.null, barePod] := by
  obtain ⟨result, w', hquery, hiff⟩ := poll_isolated_iff masterConfig clusterNode (fun _ => 0)
    (serveLists [workerNode, namelessNode] [.null, barePod]) 0 0
    (answered_serveLists [workerNode, namelessNode])
  refine ⟨result, w', hquery, hiff.mpr ?_⟩
  rw [List.pairwise_pair]
  intro _
  exact ⟨_, _, _, _, rfl, rfl, rfl, rfl⟩

end MetadataAgent.KubernetesReader
