import MetadataAgent.Kubernetes.Pods

/-! # Docker containers

The Docker reader lists the containers, inspects each of them and registers it under its id and
its name. The store keeps the first resource of a local id, so a name that passes to another
container is looked up as the old one. -/
namespace MetadataAgent.DockerReader
open Lib Json MetadataStore
open KubernetesReader (QueryException ResourceMetadata Response localResourceId versioned)
set_option autoImplicit false

/-! ## The reader -/

/-- The options of the reader, and whether `ENABLE_DOCKER_METADATA` is defined. -/
structure DockerConfiguration extends Configuration where
  dockerEndpointHost : Bytes
  dockerApiVersion : Bytes
  dockerContainerFilter : Bytes
  enableDockerMetadata : Bool

/-- Nothing handles `std::out_of_range`. -/
inductive Thrown where
  | json (e : Exception)
  | query (e : QueryException)
  | outOfRange
  deriving DecidableEq

/-- The daemon in one round, by path; the reader asks for no path twice. -/
abbrev Daemon := Bytes → Response

def dockerEndpointPath : Bytes := lit "/containers"

section Reader
variable (config : DockerConfiguration) (environment : Environment)
variable (fromString : Bytes → Timestamp) (daemon : Daemon)

def queryDocker (path : Bytes) : Except Thrown Value :=
  let endpoint := config.dockerEndpointHost ++ lit "v" ++ config.dockerApiVersion ++ path
  match daemon path with
  | .answer status statusMessage body =>
    if 400 ≤ status ∧ status ≤ 403 then
      .error (.query ⟨serverResponded status statusMessage, true⟩)
    else if 300 ≤ status then
      .error (.query ⟨endpoint ++ lit " -> " ++ serverResponded status statusMessage ++
        lit ": Transport endpoint is not connected", false⟩)
    else body.mapError .json
  | .failure what => .error (.query ⟨endpoint ++ lit " -> " ++ what, false⟩)

def containerFilter : Bytes :=
  if config.dockerContainerFilter.isEmpty then [] else lit "&" ++ config.dockerContainerFilter

def listPath : Bytes := dockerEndpointPath ++ lit "/json?all=true" ++ containerFilter config

def inspectPath (id : Bytes) : Bytes := dockerEndpointPath ++ lit "/" ++ id ++ lit "/json"

def dockerContainer (zone id : Bytes) : MonitoredResource :=
  .ofLabels (lit "docker_container") [(lit "location", zone), (lit "container_id", id)]

/-- `name.substr(1)`. -/
def dropSlash : Bytes → Except Thrown Bytes
  | [] => .error .outOfRange
  | _ :: name => .ok name

/-- The `try` block of `GetContainerMetadata`. -/
def inspectContainer (id : Bytes) (collectedAt : Timestamp) : Except Thrown ResourceMetadata := do
  let rawContainer ← queryDocker config daemon (inspectPath id)
  let containerDesc ← (asObject rawContainer).mapError .json
  let name ← (getString containerDesc (lit "Name")).mapError .json
  let createdStr ← (getString containerDesc (lit "Created")).mapError .json
  let state ← (getObject containerDesc (lit "State")).mapError .json
  let isDeleted ← (getBoolean state (lit "Dead")).mapError .json
  let instanceResource ← environment.instanceResource.elim (.error .outOfRange) .ok
  let rawMetadata := object [
    (lit "blobs", some (object [
      (lit "association", some (versioned config.metadataIngestionRawContentVersion
        (object [(lit "infrastructureResource", some instanceResource.toJSON)]))),
      (lit "api", some (versioned config.dockerApiVersion rawContainer))]))]
  let resourceName ← dropSlash name
  return {
    ids := [
      localResourceId config.toConfiguration [lit "container", id],
      localResourceId config.toConfiguration [lit "container", resourceName]]
    resource := dockerContainer environment.instanceZone id
    metadata :=
      if config.enableDockerMetadata then
        ⟨config.metadataIngestionRawContentVersion, isDeleted, fromString createdStr, collectedAt,
          rawMetadata, false⟩
      else .ignored }

def getContainerMetadata (container : Object) (collectedAt : Timestamp) :
    Except Thrown ResourceMetadata := do
  let id ← (getString container (lit "Id")).mapError .json
  match inspectContainer config environment fromString daemon id collectedAt with
  | .error (.query _) =>
    .error (.json (.text (lit "Container " ++ id ++
      lit " disappeared before we could inspect it")))
  | inspected => inspected

def processContainer (collectedAt : Timestamp) (rawContainer : Value) :
    Except Thrown ResourceMetadata := do
  let container ← (asObject rawContainer).mapError .json
  getContainerMetadata config environment fromString daemon container collectedAt

/-- The loop over the list, which goes on after a `json::Exception`. -/
def containerLoop (collectedAt : Timestamp) (result : List ResourceMetadata) :
    List Value → Except Thrown (List ResourceMetadata)
  | [] => .ok result
  | rawContainer :: rest =>
    match processContainer config environment fromString daemon collectedAt rawContainer with
    | .ok metadata => containerLoop collectedAt (result ++ [metadata]) rest
    | .error (.json _) => containerLoop collectedAt result rest
    | .error (.query _) => .ok result
    | .error .outOfRange => .error .outOfRange

def metadataQuery (collectedAt : Timestamp) : Except Thrown (List ResourceMetadata) :=
  match queryDocker config daemon (listPath config) with
  | .error _ => .ok []
  | .ok parsedList =>
    match as Value.asArray? .array parsedList with
    | .error _ => .ok []
    | .ok containerList =>
      containerLoop config environment fromString daemon collectedAt [] containerList

/-! ## Rounds -/

/-- `UpdateResourceCallback`, then `UpdateMetadataCallback`. -/
def updateCallbacks (result : ResourceMetadata) : List Call :=
  [.updateResource result.ids result.resource, .updateMetadata result.resource result.metadata]

/-- One round of `PollForMetadata`. -/
def pollForMetadata (store : MetadataStore) (collectedAt : Timestamp) :
    Except Thrown MetadataStore :=
  (metadataQuery config environment fromString daemon collectedAt).map fun results =>
    store.after (results.flatMap updateCallbacks)

/-! ## Well-formed container lists -/

/-- A container of a list: its id, and its name without the slash. -/
structure Container where
  id : Bytes
  name : Bytes

/-- The list element has the id, and the daemon describes it as a container with the name. -/
def Inspected (rawContainer : Value) (c : Container) : Prop :=
  ∃ element description state created dead, rawContainer = .object element ∧
    getString element (lit "Id") = .ok c.id ∧
    queryDocker config daemon (inspectPath c.id) = .ok (.object description) ∧
    getString description (lit "Name") = .ok (0x2f :: c.name) ∧
    getString description (lit "Created") = .ok created ∧
    getObject description (lit "State") = .ok state ∧
    getBoolean state (lit "Dead") = .ok dead

/-- The daemon serves the containers, with distinct ids and distinct names. -/
structure Serves (containers : List Container) : Prop where
  listed : ∃ containerList, queryDocker config daemon (listPath config) =
    .ok (.array containerList) ∧ List.Forall₂ (Inspected config daemon) containerList containers
  ids_nodup : (containers.map Container.id).Nodup
  names_nodup : (containers.map Container.name).Nodup

/-- A round with a well-formed container list. -/
structure Round where
  daemon : Daemon
  collectedAt : Timestamp
  containers : List Container
  serves : Serves config daemon containers

/-- What a container is registered as. -/
def registration (c : Container) : List Bytes × MonitoredResource :=
  ([localResourceId config.toConfiguration [lit "container", c.id],
    localResourceId config.toConfiguration [lit "container", c.name]],
    dockerContainer environment.instanceZone c.id)

theorem processContainer_inspected {collectedAt : Timestamp} {rawContainer : Value}
    {c : Container} (h : Inspected config daemon rawContainer c) :
    processContainer config environment fromString daemon collectedAt rawContainer =
        .error .outOfRange ∨
      ∃ result, processContainer config environment fromString daemon collectedAt rawContainer =
        .ok result ∧ (result.ids, result.resource) = registration config environment c := by
  obtain ⟨element, description, state, created, dead, rfl, hid, hinspect, hname, hcreated, hstate,
    hdead⟩ := h
  unfold processContainer getContainerMetadata inspectContainer
  cases hinstance : environment.instanceResource with
  | none =>
    left
    simp [asObject_eq_ok.mpr rfl, hid, hinspect, hname, hcreated, hstate, hdead, Except.mapError,
      bind, Except.bind]
  | some instanceResource =>
    right
    simp [asObject_eq_ok.mpr rfl, hid, hinspect, hname, hcreated, hstate, hdead, Except.mapError,
      bind, Except.bind, dropSlash, registration, pure, Except.pure]

theorem containerLoop_eq_ok {collectedAt : Timestamp} {containerList : List Value}
    {containers : List Container}
    (h : List.Forall₂ (Inspected config daemon) containerList containers)
    {result results : List ResourceMetadata}
    (hloop : containerLoop config environment fromString daemon collectedAt result containerList =
      .ok results) :
    results.map (fun r => (r.ids, r.resource)) =
      result.map (fun r => (r.ids, r.resource)) ++
        containers.map (registration config environment) := by
  induction h generalizing result with
  | nil =>
    rw [containerLoop, Except.ok.injEq] at hloop
    rw [← hloop, List.map_nil, List.append_nil]
  | cons hinspected _ ih =>
    rw [containerLoop] at hloop
    rcases processContainer_inspected config environment fromString daemon hinspected with
      hfails | ⟨metadata, hmetadata, hregistration⟩
    · rw [hfails] at hloop
      cases hloop
    · rw [hmetadata] at hloop
      rw [ih hloop, List.map_append, List.map_cons, List.map_nil, List.map_cons, hregistration,
        List.append_assoc, List.singleton_append]

/-- A completed round registers its containers, in order. -/
theorem metadataQuery_eq_ok {collectedAt : Timestamp} {containers : List Container}
    (h : Serves config daemon containers) {results : List ResourceMetadata}
    (hquery : metadataQuery config environment fromString daemon collectedAt = .ok results) :
    results.map (fun r => (r.ids, r.resource)) =
      containers.map (registration config environment) := by
  obtain ⟨containerList, hlist, hinspected⟩ := h.listed
  unfold metadataQuery at hquery
  rw [hlist] at hquery
  exact containerLoop_eq_ok config environment fromString daemon hinspected hquery

end Reader

/-! ## Runs of rounds -/

section Rounds
variable (config : DockerConfiguration) (environment : Environment)
variable (fromString : Bytes → Timestamp)

def pollRounds (store : MetadataStore) (rounds : List (Round config)) :
    Except Thrown MetadataStore :=
  rounds.foldlM (fun store round =>
    pollForMetadata config environment fromString round.daemon store round.collectedAt) store

def allContainers {config : DockerConfiguration} (rounds : List (Round config)) :
    List Container :=
  rounds.flatMap Round.containers

/-- The local id of a container name. -/
def nameId (name : Bytes) : Bytes :=
  localResourceId config.toConfiguration [lit "container", name]

/-- What a container registers under an id. -/
def registeredAs (id : Bytes) (c : Container) : Option MonitoredResource :=
  (Call.updateResource (registration config environment c).1
    (registration config environment c).2).registered id

theorem findSome?_updateCallbacks (id : Bytes) (results : List ResourceMetadata) :
    (results.flatMap updateCallbacks).findSome? (Call.registered id) =
      (results.map fun r => (r.ids, r.resource)).findSome? fun p =>
        if id ∈ p.1 then some p.2 else none := by
  induction results with
  | nil => rfl
  | cons r results ih =>
    have hcallbacks : (updateCallbacks r).findSome? (Call.registered id) =
        if id ∈ r.ids then some r.resource else none := by
      rw [updateCallbacks, List.findSome?_cons, Call.registered]
      by_cases hid : id ∈ r.ids <;> simp [hid, Call.registered]
    rw [List.flatMap_cons, List.findSome?_append, hcallbacks, ih, List.map_cons,
      List.findSome?_cons]
    by_cases hid : id ∈ r.ids <;> simp [hid]

theorem lookupResource_pollForMetadata {round : Round config} {store s : MetadataStore}
    (h : pollForMetadata config environment fromString round.daemon store round.collectedAt = .ok s)
    (id : Bytes) :
    s.lookupResource id = (store.lookupResource id).or
      (round.containers.findSome? (registeredAs config environment id)) := by
  unfold pollForMetadata at h
  cases hquery : metadataQuery config environment fromString round.daemon round.collectedAt with
  | error e =>
    rw [hquery] at h
    cases h
  | ok results =>
    rw [hquery] at h
    have hresults := metadataQuery_eq_ok config environment fromString round.daemon round.serves
      hquery
    rw [← Except.ok.inj h, lookupResource_after, findSome?_updateCallbacks, hresults,
      List.findSome?_map]
    rfl

/-- A local id keeps the resource of the first container that was registered under it. -/
theorem lookupResource_pollRounds {rounds : List (Round config)} {store s : MetadataStore}
    (h : pollRounds config environment fromString store rounds = .ok s) (id : Bytes) :
    s.lookupResource id = (store.lookupResource id).or
      ((allContainers rounds).findSome? (registeredAs config environment id)) := by
  induction rounds generalizing store with
  | nil =>
    rw [pollRounds, List.foldlM_nil, pure_eq_ok] at h
    rw [← h, allContainers, List.flatMap_nil, List.findSome?_nil, Option.or_none]
  | cons round rounds ih =>
    rw [pollRounds, List.foldlM_cons, bind_eq_ok] at h
    obtain ⟨mid, hround, hrest⟩ := h
    rw [ih hrest, lookupResource_pollForMetadata config environment fromString hround id,
      allContainers, allContainers, List.flatMap_cons, List.findSome?_append, Option.or_assoc]

theorem pollRounds_append {before after : List (Round config)} {store s : MetadataStore} :
    pollRounds config environment fromString store (before ++ after) = .ok s ↔
      ∃ mid, pollRounds config environment fromString store before = .ok mid ∧
        pollRounds config environment fromString mid after = .ok s := by
  unfold pollRounds
  rw [List.foldlM_append, bind_eq_ok]

theorem nameId_inj {name name' : Bytes} : nameId config name = nameId config name' ↔
    name = name' := by
  unfold nameId localResourceId
  rw [List.intercalate_cons_cons, List.intercalate_cons_cons, List.intercalate_singleton,
    List.intercalate_singleton, List.append_cancel_left_eq]

theorem dockerContainer_inj {zone id id' : Bytes} :
    dockerContainer zone id = dockerContainer zone id' ↔ id = id' := by
  constructor
  · intro h
    have hlabel : ∀ id, (dockerContainer zone id).labels.find (lit "container_id") = some id := by
      intro id
      rw [dockerContainer, MonitoredResource.ofLabels, OrderedMap.find_ofList]
      rfl
    have hfind := hlabel id
    rw [h, hlabel id', Option.some.injEq] at hfind
    exact hfind.symm
  · rintro rfl
    rfl

theorem registeredAs_nameId {name : Bytes} {c : Container} (hid : name ≠ c.id) :
    registeredAs config environment (nameId config name) c =
      if name = c.name then some (dockerContainer environment.instanceZone c.id) else none := by
  have hmem : nameId config name ∈ (registration config environment c).1 ↔ name = c.name := by
    rw [registration, List.mem_pair]
    change nameId config name = nameId config c.id ∨ nameId config name = nameId config c.name ↔ _
    rw [nameId_inj, nameId_inj]
    exact or_iff_right hid
  rw [registeredAs, Call.registered, if_congr hmem rfl rfl]
  rfl

/-- No name is the id of a container. -/
def NamesAreNotIds (rounds : List (Round config)) : Prop :=
  ∀ c ∈ allContainers rounds, ∀ c' ∈ allContainers rounds, c.name ≠ c'.id

/-- After each round, the name of every container of the round is looked up as that container. -/
def NamesFollowPolls (rounds : List (Round config)) : Prop :=
  ∀ before round after, rounds = before ++ round :: after → ∀ s,
    pollRounds config environment fromString .empty (before ++ [round]) = .ok s →
      ∀ c ∈ round.containers, s.lookupResource (nameId config c.name) =
        some (dockerContainer environment.instanceZone c.id)

/-- Names follow the polls of a completed run exactly when no name passes from one container to
another. -/
theorem names_follow_polls_iff {rounds : List (Round config)} {final : MetadataStore}
    (hnames : NamesAreNotIds config rounds)
    (hcompleted : pollRounds config environment fromString .empty rounds = .ok final) :
    NamesFollowPolls config environment fromString rounds ↔
      ∀ c ∈ allContainers rounds, ∀ c' ∈ allContainers rounds, c.name = c'.name → c.id = c'.id := by
  have hempty : ∀ id, MetadataStore.empty.lookupResource id = none := fun _ => rfl
  constructor
  · intro hfollow
    -- what a round leaves for a name is there to the end of the run
    have hfinal : ∀ c ∈ allContainers rounds, final.lookupResource (nameId config c.name) =
        some (dockerContainer environment.instanceZone c.id) := by
      intro c hc
      obtain ⟨round, hround, hcontainer⟩ := List.mem_flatMap.mp hc
      obtain ⟨before, after, rfl⟩ := List.append_of_mem hround
      have hsplit : before ++ round :: after = before ++ [round] ++ after := by simp
      rw [hsplit, pollRounds_append] at hcompleted
      obtain ⟨mid, hmid, hrest⟩ := hcompleted
      rw [lookupResource_pollRounds config environment fromString hrest,
        hfollow before round after rfl mid hmid c hcontainer, Option.some_or]
    intro c hc c' hc' hname
    have hlookup := hfinal c hc
    rw [hname, hfinal c' hc', Option.some.injEq, dockerContainer_inj] at hlookup
    exact hlookup.symm
  · intro hkept before round after hrounds s hs c hc
    have hsub : ∀ d ∈ allContainers (before ++ [round]), d ∈ allContainers rounds := by
      intro d hd
      rw [hrounds]
      simp only [allContainers, List.flatMap_append, List.mem_append, List.flatMap_cons,
        List.flatMap_nil, List.append_nil] at hd ⊢
      exact hd.imp id Or.inl
    have hmem : c ∈ allContainers (before ++ [round]) := by
      simp [allContainers, hc]
    rw [lookupResource_pollRounds config environment fromString hs, hempty, Option.none_or]
    have hregistered : ∀ d ∈ allContainers (before ++ [round]),
        registeredAs config environment (nameId config c.name) d =
          if c.name = d.name then some (dockerContainer environment.instanceZone d.id)
          else none :=
      fun d hd => registeredAs_nameId config environment (hnames c (hsub c hmem) d (hsub d hd))
    apply findSome?_of_unique
    · intro d hd r hr
      rw [hregistered d hd, Option.ite_none_right_eq_some, Option.some.injEq] at hr
      rw [← hr.2, hkept c (hsub c hmem) d (hsub d hd) hr.1]
    · exact ⟨c, hmem, by rw [hregistered c hmem, if_pos rfl]⟩

end Rounds

/-! ## A name that passes to another container -/

def dockerConfig : DockerConfiguration where
  toConfiguration := KubernetesReader.masterConfig
  dockerEndpointHost := lit "unix://%2Fvar%2Frun%2Fdocker.sock/"
  dockerApiVersion := lit "1.23"
  dockerContainerFilter := []
  enableDockerMetadata := false

def containerDescription (name : Bytes) : Object := [
  (lit "Created", .string (lit "2018-01-18T19:38:50Z")),
  (lit "Name", .string (0x2f :: name)),
  (lit "State", .object [(lit "Dead", .boolean false)])]

/-- A daemon with one container. -/
def oneContainer (c : Container) : Daemon := fun path =>
  .answer 200 (lit "OK") (.ok (if path = listPath dockerConfig
    then .array [.object [(lit "Id", .string c.id)]] else .object (containerDescription c.name)))

theorem serves_oneContainer (c : Container) (h : inspectPath c.id ≠ listPath dockerConfig) :
    Serves dockerConfig (oneContainer c) [c] where
  listed := by
    refine ⟨[.object [(lit "Id", .string c.id)]], ?_, .cons ?_ .nil⟩
    · simp [queryDocker, oneContainer, Except.mapError]
    · refine ⟨_, containerDescription c.name, _, _, _, rfl, rfl, ?_, rfl, rfl, rfl, rfl⟩
      simp [queryDocker, oneContainer, h, Except.mapError]
  ids_nodup := List.pairwise_singleton _ _
  names_nodup := List.pairwise_singleton _ _

def firstWeb : Round dockerConfig :=
  ⟨oneContainer ⟨lit "c1", lit "web"⟩, 0, _, serves_oneContainer _ (by decide)⟩

def secondWeb : Round dockerConfig :=
  ⟨oneContainer ⟨lit "c2", lit "web"⟩, 0, _, serves_oneContainer _ (by decide)⟩

theorem recreated_container_stale :
    NamesAreNotIds dockerConfig [firstWeb, secondWeb] ∧
    (∃ final, pollRounds dockerConfig KubernetesReader.clusterNode (fun _ => 0) .empty
      [firstWeb, secondWeb] = .ok final) ∧
    ¬NamesFollowPolls dockerConfig KubernetesReader.clusterNode (fun _ => 0)
      [firstWeb, secondWeb] := by
  refine ⟨?_, ⟨_, rfl⟩, fun h => ?_⟩
  · intro c hc c' hc'
    have hmem : ∀ d ∈ allContainers [firstWeb, secondWeb],
        d = ⟨lit "c1", lit "web"⟩ ∨ d = ⟨lit "c2", lit "web"⟩ :=
      fun d hd => List.mem_pair.mp hd
    rcases hmem c hc with rfl | rfl <;> rcases hmem c' hc' with rfl | rfl <;> decide
  · have hlookup := h [firstWeb] secondWeb [] rfl _ rfl ⟨lit "c2", lit "web"⟩
      (List.mem_singleton.mpr rfl)
    revert hlookup
    decide +kernel

theorem kept_container_followed :
    NamesFollowPolls dockerConfig KubernetesReader.clusterNode (fun _ => 0)
      [firstWeb, firstWeb] := by
  have hmem : ∀ d ∈ allContainers [firstWeb, firstWeb], d = ⟨lit "c1", lit "web"⟩ := by
    intro d hd
    rcases List.mem_pair.mp hd with hd | hd <;> exact hd
  refine (names_follow_polls_iff dockerConfig KubernetesReader.clusterNode (fun _ => 0)
    ?_ (show pollRounds dockerConfig KubernetesReader.clusterNode (fun _ => 0) .empty
      [firstWeb, firstWeb] = .ok _ from rfl)).mpr ?_
  · intro c hc c' hc'
    rw [hmem c hc, hmem c' hc']
    decide
  · intro c hc c' hc' _
    rw [hmem c hc, hmem c' hc']

end MetadataAgent.DockerReader
