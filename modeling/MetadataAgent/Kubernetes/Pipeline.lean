import MetadataAgent.Kubernetes.Cuts
import MetadataAgent.Kubernetes.Query
import MetadataAgent.Polling
import MetadataAgent.Sharing

/-! # What a watch leaves in the store

The callback of a watch reports every event to `MetadataCallback`, which registers the local ids
and records the entry. The events come in the bodies of one connection after another, each with a
parser of its own; an event that throws costs the rest of its connection, and so does a cut. What
is left of the nodes in the end is decided by the last event of each of them, whatever the other
threads do. -/
namespace MetadataAgent.KubernetesReader
open Lib Json MetadataStore HealthChecker
open PollingMetadataUpdater (storeCalls)
set_option autoImplicit false

/-! ## Connections -/

section Connections
variable {y : Yajl} {γ : Type} {callback : UserCallback γ Exception} {malformed : Value → Bool}

def handle (callback : UserCallback γ Exception) (user : γ) (v : Value) : γ := (callback user v).1

/-- The events up to the first that is malformed, that one included. -/
def throughFirst (malformed : Value → Bool) : List Value → List Value
  | [] => []
  | v :: vs => v :: if malformed v then [] else throughFirst malformed vs

/-- The events of the connections that the callback is called with. -/
def handled (malformed : Value → Bool) (deliveries : List (Delivery y)) : List Value :=
  deliveries.flatMap fun delivery => throughFirst malformed delivery.completeEvents

theorem runUntil_throughFirst (hmalformed : ∀ user v, (callback user v).2.isSome = malformed v)
    (user : γ) (vs : List Value) :
    (runUntil callback user vs).1 = (throughFirst malformed vs).foldl (handle callback) user := by
  induction vs generalizing user with
  | nil => rfl
  | cons v vs ih =>
    have hthrows := hmalformed user v
    rw [throughFirst, ← hthrows, List.foldl_cons, handle]
    rcases hv : callback user v with ⟨next, _ | e⟩
    · rw [runUntil_cons_none _ hv, ih]
      rfl
    · rw [runUntil_cons_some _ hv]
      rfl

/-- Wherever the connections are cut, the callback is called with the handled events, in order. -/
theorem watched_eq_handled {Between InsideMap Failed : y.State → Prop}
    (hy : y.Documented Between InsideMap Failed)
    (hmalformed : ∀ user v, (callback user v).2.isSome = malformed v) (user : γ)
    (deliveries : List (Delivery y)) :
    watched y callback user (deliveries.map Delivery.notifications) =
      (handled malformed deliveries).foldl (handle callback) user := by
  induction deliveries generalizing user with
  | nil => rfl
  | cons delivery deliveries ih =>
    have hconnection := @watchConnection_cut y γ callback Between InsideMap Failed hy user delivery
    have hrest := ih (watchConnection y callback user delivery.notifications).builder.user
    rw [List.map_cons, watched, List.foldl_cons, ← watched, hrest, hconnection,
      runUntil_throughFirst hmalformed, handled, handled, List.flatMap_cons, List.foldl_append]

end Connections

/-! ## Reports -/

/-- `MetadataCallback`: the calls of the store. -/
def metadataCallback (results : List ResourceMetadata) : List HealthChecker.Event :=
  (results.flatMap storeCalls).map HealthChecker.Event.store

/-- The entry that a result records for a resource. -/
def reported (r : MonitoredResource) (result : ResourceMetadata) : Option Metadata :=
  if result.metadata.ignore = false ∧ r = result.resource then some result.metadata else none

theorem metadataCallback_append (results results' : List ResourceMetadata) :
    metadataCallback (results ++ results') =
      metadataCallback results ++ metadataCallback results' := by
  rw [metadataCallback, List.flatMap_append, List.map_append]
  rfl

theorem live_report (r : MonitoredResource) (m : Monitor) (result : ResourceMetadata) :
    live r (m.after (metadataCallback [result])) =
      ((reported r result).map undeleted).getD (live r m) := by
  have hregistered : live r (m.apply (.store (.updateResource result.ids result.resource))) =
      live r m := rfl
  have hrecorded := live_apply r
    (m.apply (.store (.updateResource result.ids result.resource)))
    (.store (.updateMetadata result.resource result.metadata))
  rw [hregistered] at hrecorded
  exact hrecorded

/-- The live entry of a resource is that of the last result about it. -/
theorem live_metadataCallback (r : MonitoredResource) (results : List ResourceMetadata) :
    live r (Monitor.init.after (metadataCallback results)) =
      (latest (reported r) results).bind fun last => undeleted last.1 := by
  have hfold : ∀ m : Monitor, m.after (metadataCallback results) =
      results.foldl (fun m result => m.after (metadataCallback [result])) m := by
    induction results with
    | nil => exact fun m => rfl
    | cons result results ih =>
      intro m
      rw [List.foldl_cons, ← ih]
      have hsplit := metadataCallback_append [result] results
      rw [List.singleton_append] at hsplit
      rw [hsplit, Monitor.after, List.foldl_append]
      rfl
  rw [hfold, observe_foldl (reported r) (fun m result => m.after (metadataCallback [result]))
    (live r) undeleted (live_report r)]
  cases latest (reported r) results <;> rfl

/-- An id under which all the results register one resource is looked up as that. -/
theorem lookedUp_metadataCallback {id : Bytes} {r : MonitoredResource}
    {results : List ResourceMetadata} (hsome : ∃ result ∈ results, id ∈ result.ids)
    (hunique : ∀ result ∈ results, id ∈ result.ids → result.resource = r) :
    lookedUp id (Monitor.init.after (metadataCallback results)) = some r := by
  have hempty : Monitor.init.store.lookupResource id = none := rfl
  have hcall : ∀ ids r', .store (.updateResource ids r') ∈ metadataCallback results →
      ∃ result ∈ results, result.ids = ids ∧ result.resource = r' := by
    intro ids r' hmem
    obtain ⟨call, hcall, heq⟩ := List.mem_map.mp hmem
    rw [HealthChecker.Event.store.injEq] at heq
    subst heq
    obtain ⟨result, hresult, hcall⟩ := List.mem_flatMap.mp hcall
    rcases List.mem_pair.mp hcall with heq | heq
    · rw [Call.updateResource.injEq] at heq
      exact ⟨result, hresult, heq.1.symm, heq.2.symm⟩
    · cases heq
  rw [lookedUp, HealthChecker.lookupResource_monitor, hempty, Option.none_or]
  refine findSome?_of_unique ?_ ?_
  · intro e he r' hregistered
    obtain ⟨ids, rfl, hid⟩ := HealthChecker.registered_eq_some.mp hregistered
    obtain ⟨result, hresult, rfl, rfl⟩ := hcall ids r' he
    exact hunique result hresult hid
  · obtain ⟨result, hresult, hid⟩ := hsome
    have hr := hunique result hresult hid
    refine ⟨.store (.updateResource result.ids r), ?_,
      HealthChecker.registered_eq_some.mpr ⟨_, rfl, hid⟩⟩
    refine List.mem_map_of_mem (List.mem_flatMap.mpr ⟨result, hresult, ?_⟩)
    rw [storeCalls, hr]
    exact List.mem_cons_self

/-! ## Nodes -/

section Nodes
variable (config : Configuration) (environment : Environment) (fromString : Bytes → Timestamp)
variable (clock : ℕ → Timestamp)

def nodeCallback (calls : List HealthChecker.Event) (node : Object) (collectedAt : Timestamp)
    (isDeleted : Bool) : List HealthChecker.Event × Option Exception :=
  match getNodeMetadata config environment fromString node collectedAt isDeleted with
  | .error e => (calls, some e)
  | .ok result => (calls ++ metadataCallback [result], none)

/-- The callback of `WatchNodes`. The clock is read for every event; the state counts them and
has the calls that were made. -/
def watchNodes : UserCallback (ℕ × List HealthChecker.Event) Exception := fun seen v =>
  let outcome := watchEventCallback (fun _ => clock seen.1)
    (nodeCallback config environment fromString) seen.2 v
  ((seen.1 + 1, outcome.1), outcome.2)

/-- What an event is reported as; there are types of events that nothing is reported for. -/
def nodeReport (collectedAt : Timestamp) (rawWatch : Value) :
    Except Exception (Option ResourceMetadata) := do
  let watch ← watchEvent rawWatch
  if watch.1 ≠ lit "MODIFIED" ∧ watch.1 ≠ lit "ADDED" ∧ watch.1 ≠ lit "DELETED" then return none
  let result ← getNodeMetadata config environment fromString watch.2 collectedAt
    (decide (watch.1 = lit "DELETED"))
  return some result

def malformedNode (rawWatch : Value) : Bool :=
  !(nodeReport config environment fromString 0 rawWatch).isOk

/-- The results for the events that were seen, each with the time of its own. -/
def nodeReports (seen : List Value) : List ResourceMetadata :=
  seen.zipIdx.filterMap fun e =>
    (nodeReport config environment fromString (clock e.2) e.1).toOption.join

theorem watchNodes_eq (seen : ℕ × List HealthChecker.Event) (v : Value) :
    watchNodes config environment fromString clock seen v =
      match nodeReport config environment fromString (clock seen.1) v with
      | .error e => ((seen.1 + 1, seen.2), some e)
      | .ok result => ((seen.1 + 1, seen.2 ++ metadataCallback result.toList), none) := by
  rw [watchNodes, watchEventCallback, nodeReport]
  cases hwatch : watchEvent v with
  | error e => rfl
  | ok watch =>
    obtain ⟨type, node⟩ := watch
    simp only [bind, Except.bind]
    by_cases htype : type ≠ lit "MODIFIED" ∧ type ≠ lit "ADDED" ∧ type ≠ lit "DELETED"
    · rw [if_pos htype, if_pos htype]
      exact congrArg (fun calls => ((seen.1 + 1, calls), none)) (List.append_nil seen.2).symm
    · rw [if_neg htype, if_neg htype, nodeCallback]
      cases getNodeMetadata config environment fromString node (clock seen.1)
        (decide (type = lit "DELETED")) <;> rfl

/-- Only the collection time depends on the clock. -/
theorem getNodeMetadata_at {node : Object} {isDeleted : Bool} {t : Timestamp}
    {result : ResourceMetadata}
    (h : getNodeMetadata config environment fromString node t isDeleted = .ok result)
    (t' : Timestamp) :
    getNodeMetadata config environment fromString node t' isDeleted =
      .ok { result with metadata := { result.metadata with collectedAt := t' } } := by
  unfold getNodeMetadata at h ⊢
  simp only [bind_eq_ok, pure_eq_ok] at h
  obtain ⟨metadata, hmetadata, nodeName, hname, createdStr, hcreated, rfl⟩ := h
  simp only [bind_eq_ok, pure_eq_ok]
  exact ⟨metadata, hmetadata, nodeName, hname, createdStr, hcreated, rfl⟩

theorem nodeReport_eq_some {t : Timestamp} {v : Value} {result : ResourceMetadata} :
    nodeReport config environment fromString t v = .ok (some result) ↔
      ∃ type node, watchEvent v = .ok (type, node) ∧
        (type = lit "MODIFIED" ∨ type = lit "ADDED" ∨ type = lit "DELETED") ∧
        getNodeMetadata config environment fromString node t (decide (type = lit "DELETED")) =
          .ok result := by
  unfold nodeReport
  cases watchEvent v with
  | error e =>
    constructor
    · rintro ⟨⟩
    · rintro ⟨type, node, ⟨⟩, -⟩
  | ok watch =>
    obtain ⟨type, node⟩ := watch
    simp only [bind, Except.bind]
    by_cases htype : type ≠ lit "MODIFIED" ∧ type ≠ lit "ADDED" ∧ type ≠ lit "DELETED"
    · rw [if_pos htype]
      constructor
      · rintro ⟨⟩
      · rintro ⟨type', node', heq, htype', -⟩
        obtain ⟨rfl, rfl⟩ := Prod.mk.inj (Except.ok.inj heq)
        obtain ⟨hmodified, hadded, hdeleted⟩ := htype
        rcases htype' with h | h | h
        · exact absurd h hmodified
        · exact absurd h hadded
        · exact absurd h hdeleted
    · have htype' : type = lit "MODIFIED" ∨ type = lit "ADDED" ∨ type = lit "DELETED" := by
        by_contra hnone
        rw [not_or, not_or] at hnone
        exact htype hnone
      rw [if_neg htype]
      constructor
      · intro h
        refine ⟨type, node, rfl, htype', ?_⟩
        cases hnode : getNodeMetadata config environment fromString node t
          (decide (type = lit "DELETED")) with
        | error e =>
          rw [hnode] at h
          cases h
        | ok result' =>
          rw [hnode] at h
          cases h
          rfl
      · rintro ⟨type', node', heq, -, hnode⟩
        obtain ⟨rfl, rfl⟩ := Prod.mk.inj (Except.ok.inj heq)
        rw [hnode]
        rfl

theorem nodeReport_at {t : Timestamp} {v : Value} {result : ResourceMetadata}
    (h : nodeReport config environment fromString t v = .ok (some result)) (t' : Timestamp) :
    nodeReport config environment fromString t' v =
      .ok (some { result with metadata := { result.metadata with collectedAt := t' } }) := by
  rw [nodeReport_eq_some] at h ⊢
  obtain ⟨type, node, hwatch, htype, hnode⟩ := h
  exact ⟨type, node, hwatch, htype, getNodeMetadata_at config environment fromString hnode t'⟩

theorem nodeReport_isOk (t t' : Timestamp) (v : Value) :
    (nodeReport config environment fromString t v).isOk =
      (nodeReport config environment fromString t' v).isOk := by
  unfold nodeReport
  cases watchEvent v with
  | error e => rfl
  | ok watch =>
    obtain ⟨type, node⟩ := watch
    simp only [bind, Except.bind]
    split
    · rfl
    · cases hnode : getNodeMetadata config environment fromString node t
        (decide (type = lit "DELETED")) with
      | ok result =>
        rw [getNodeMetadata_at config environment fromString hnode t']
        rfl
      | error e =>
        cases hnode' : getNodeMetadata config environment fromString node t'
          (decide (type = lit "DELETED")) with
        | error e' => rfl
        | ok result =>
          rw [getNodeMetadata_at config environment fromString hnode' t] at hnode
          cases hnode

theorem watchNodes_throws (seen : ℕ × List HealthChecker.Event) (v : Value) :
    (watchNodes config environment fromString clock seen v).2.isSome =
      malformedNode config environment fromString v := by
  rw [watchNodes_eq, malformedNode,
    nodeReport_isOk config environment fromString 0 (clock seen.1) v]
  cases nodeReport config environment fromString (clock seen.1) v <;> rfl

theorem nodeReports_concat (seen : List Value) (v : Value) :
    nodeReports config environment fromString clock (seen ++ [v]) =
      nodeReports config environment fromString clock seen ++
        (nodeReport config environment fromString (clock seen.length) v).toOption.join.toList := by
  rw [nodeReports, List.zipIdx_append, List.filterMap_append, ← nodeReports, Nat.zero_add,
    List.zipIdx_singleton, List.filterMap_cons]
  cases (nodeReport config environment fromString (clock seen.length) v).toOption.join <;> rfl

/-- The calls of the store are those for the reports, in order. -/
theorem foldl_watchNodes (seen : List Value) :
    seen.foldl (handle (watchNodes config environment fromString clock)) (0, []) =
      (seen.length, metadataCallback (nodeReports config environment fromString clock seen)) := by
  induction seen using List.reverseRecOn with
  | nil => rfl
  | append_singleton seen v ih =>
    rw [List.foldl_append, ih, List.foldl_cons, List.foldl_nil, handle, watchNodes_eq,
      nodeReports_concat, metadataCallback_append, List.length_append]
    cases nodeReport config environment fromString (clock seen.length) v with
    | error e => exact congrArg (seen.length + 1, ·) (List.append_nil _).symm
    | ok result => cases result <;> rfl

/-- An event about the resource, whenever it comes. -/
def ReportsOn (r : MonitoredResource) (v : Value) : Prop :=
  ∃ t result, nodeReport config environment fromString t v = .ok (some result) ∧
    result.resource = r

/-- The last of the events about the resource is reported as the entry. -/
def LastReported (seen : List Value) (r : MonitoredResource) (entry : Metadata) : Prop :=
  ∃ before v after ids, seen = before ++ v :: after ∧
    nodeReport config environment fromString (clock before.length) v =
      .ok (some ⟨ids, r, entry⟩) ∧
    ∀ later ∈ after, ¬ReportsOn config environment fromString r later

/-- One time is as good as another. -/
theorem reportsOn_iff (r : MonitoredResource) (t : Timestamp) (v : Value) :
    ReportsOn config environment fromString r v ↔
      ∃ result, nodeReport config environment fromString t v = .ok (some result) ∧
        result.resource = r := by
  constructor
  · rintro ⟨t', result, hreport, hr⟩
    exact ⟨_, nodeReport_at config environment fromString hreport t, hr⟩
  · rintro ⟨result, hreport, hr⟩
    exact ⟨t, result, hreport, hr⟩

theorem lastReported_concat (seen : List Value) (v : Value) (r : MonitoredResource)
    (entry : Metadata) :
    LastReported config environment fromString clock (seen ++ [v]) r entry ↔
      (∃ ids, nodeReport config environment fromString (clock seen.length) v =
        .ok (some ⟨ids, r, entry⟩)) ∨
      ¬ReportsOn config environment fromString r v ∧
        LastReported config environment fromString clock seen r entry := by
  constructor
  · rintro ⟨before, w, after, ids, heq, hreport, hlater⟩
    cases after using List.reverseRecOn with
    | nil =>
      obtain ⟨rfl, hv⟩ := List.append_inj' heq rfl
      rw [List.cons.injEq] at hv
      rw [← hv.1] at hreport
      exact .inl ⟨ids, hreport⟩
    | append_singleton after last =>
      rw [← List.cons_append, ← List.append_assoc] at heq
      obtain ⟨rfl, hv⟩ := List.append_inj' heq rfl
      rw [List.cons.injEq] at hv
      rw [hv.1]
      refine .inr ⟨hlater last (List.mem_append_right _ List.mem_cons_self), before, w, after, ids,
        rfl, hreport, fun later h => hlater later (List.mem_append_left _ h)⟩
  · rintro (⟨ids, hreport⟩ | ⟨hother, before, w, after, ids, rfl, hreport, hlater⟩)
    · exact ⟨seen, v, [], ids, rfl, hreport, fun later h => absurd h List.not_mem_nil⟩
    · refine ⟨before, w, after ++ [v], ids, List.append_assoc before (w :: after) [v], hreport,
        fun later h => ?_⟩
      rcases List.mem_append.mp h with h | h
      · exact hlater later h
      · rw [List.mem_singleton.mp h]
        exact hother

theorem ignore_of_nodeReport {t : Timestamp} {v : Value} {result : ResourceMetadata}
    (h : nodeReport config environment fromString t v = .ok (some result)) :
    result.metadata.ignore = false := by
  obtain ⟨type, node, -, -, hnode⟩ := (nodeReport_eq_some config environment fromString).mp h
  unfold getNodeMetadata at hnode
  simp only [bind_eq_ok, pure_eq_ok] at hnode
  obtain ⟨metadata, -, nodeName, -, createdStr, -, rfl⟩ := hnode
  rfl

theorem latest_nodeReports (seen : List Value) (r : MonitoredResource) (entry : Metadata) :
    (∃ since, latest (reported r) (nodeReports config environment fromString clock seen) =
      some (entry, since)) ↔ LastReported config environment fromString clock seen r entry := by
  induction seen using List.reverseRecOn with
  | nil =>
    constructor
    · rintro ⟨since, h⟩
      cases h
    · rintro ⟨before, v, after, ids, h, -⟩
      exact absurd h (by simp)
  | append_singleton seen v ih =>
    have hon := reportsOn_iff config environment fromString r (clock seen.length) v
    rw [lastReported_concat, nodeReports_concat, hon, ← ih]
    rcases hreport : nodeReport config environment fromString (clock seen.length) v with
      e | _ | result
    · simp [Except.toOption]
    · simp [Except.toOption]
    · have hignore := ignore_of_nodeReport config environment fromString hreport
      have hresult : (Except.ok (some result) : Except Exception _).toOption.join.toList =
          [result] := rfl
      rw [hresult, latest_concat]
      by_cases hr : result.resource = r
      · have hreported : reported r result = some result.metadata := if_pos ⟨hignore, hr.symm⟩
        rw [hreported, Option.map_some, Option.some_or]
        constructor
        · rintro ⟨since, heq⟩
          cases heq
          refine .inl ⟨result.ids, ?_⟩
          rw [← hr]
        · rintro (⟨ids, heq⟩ | ⟨hnone, -⟩)
          · cases heq
            exact ⟨[], rfl⟩
          · exact absurd ⟨result, rfl, hr⟩ hnone
      · have hreported : reported r result = none := if_neg fun h => hr h.2.symm
        rw [hreported, Option.map_none, Option.none_or]
        constructor
        · rintro ⟨since, heq⟩
          obtain ⟨last, hlast, heq⟩ := Option.map_eq_some_iff.mp heq
          cases heq
          refine .inr ⟨?_, last.2, hlast⟩
          rintro ⟨result', heq, hr'⟩
          cases heq
          exact hr hr'
        · rintro (⟨ids, heq⟩ | ⟨-, since, hlast⟩)
          · cases heq
            exact absurd rfl hr
          · rw [hlast]
            exact ⟨since ++ [result], rfl⟩

/-- What is live of a node is the last event about it. -/
theorem live_nodeReports (seen : List Value) (r : MonitoredResource) (entry : Metadata) :
    live r (Monitor.init.after
        (metadataCallback (nodeReports config environment fromString clock seen))) = some entry ↔
      entry.isDeleted = false ∧
        LastReported config environment fromString clock seen r entry := by
  rw [live_metadataCallback, ← latest_nodeReports, Option.bind_eq_some_iff]
  constructor
  · rintro ⟨⟨last, since⟩, hlast, hlive⟩
    rw [undeleted, Option.ite_none_left_eq_some, Option.some.injEq] at hlive
    obtain ⟨hdeleted, rfl⟩ := hlive
    exact ⟨Bool.eq_false_iff.mpr hdeleted, since, hlast⟩
  · rintro ⟨hdeleted, since, hlast⟩
    refine ⟨(entry, since), hlast, ?_⟩
    rw [undeleted, hdeleted, if_neg Bool.false_ne_true]

theorem nodeReport_named {t : Timestamp} {v : Value} {result : ResourceMetadata}
    (h : nodeReport config environment fromString t v = .ok (some result)) :
    ∃ nodeName, result.ids = [localResourceId config [lit "k8s_node", nodeName]] ∧
      result.resource = nodeResource environment.kubernetesClusterName nodeName
        environment.kubernetesClusterLocation := by
  obtain ⟨type, node, -, -, hnode⟩ := (nodeReport_eq_some config environment fromString).mp h
  unfold getNodeMetadata at hnode
  simp only [bind_eq_ok, pure_eq_ok] at hnode
  obtain ⟨metadata, -, nodeName, -, createdStr, -, rfl⟩ := hnode
  exact ⟨nodeName, rfl, rfl⟩

/-- Two nodes have no id in common, whatever the separator is. -/
theorem nodeReport_ids_inj {t t' : Timestamp} {v v' : Value} {result result' : ResourceMetadata}
    (h : nodeReport config environment fromString t v = .ok (some result))
    (h' : nodeReport config environment fromString t' v' = .ok (some result')) {id : Bytes}
    (hid : id ∈ result.ids) (hid' : id ∈ result'.ids) : result.resource = result'.resource := by
  obtain ⟨nodeName, hids, hresource⟩ := nodeReport_named config environment fromString h
  obtain ⟨nodeName', hids', hresource'⟩ := nodeReport_named config environment fromString h'
  rw [hids, List.mem_singleton] at hid
  rw [hids', List.mem_singleton, hid, localResourceId, localResourceId,
    List.intercalate_cons_cons, List.intercalate_cons_cons] at hid'
  have hnames := List.append_cancel_left hid'
  rw [List.intercalate_singleton, List.intercalate_singleton] at hnames
  rw [hresource, hresource', hnames]

theorem mem_nodeReports {seen : List Value} {result : ResourceMetadata} :
    result ∈ nodeReports config environment fromString clock seen ↔
      ∃ i v, seen[i]? = some v ∧
        nodeReport config environment fromString (clock i) v = .ok (some result) := by
  rw [nodeReports, List.mem_filterMap]
  constructor
  · rintro ⟨⟨v, i⟩, hmem, hresult⟩
    rw [List.mem_zipIdx_iff_getElem?] at hmem
    exact ⟨i, v, hmem, toOption_eq_some.mp (Option.join_eq_some_iff.mp hresult)⟩
  · rintro ⟨i, v, hi, hreport⟩
    refine ⟨(v, i), List.mem_zipIdx_iff_getElem?.mpr hi, ?_⟩
    rw [hreport]
    rfl

/-- A node that was reported is found under its id. -/
theorem lookedUp_nodeReports {seen : List Value} {i : ℕ} {v : Value} {result : ResourceMetadata}
    (hv : seen[i]? = some v)
    (hreport : nodeReport config environment fromString (clock i) v = .ok (some result))
    {id : Bytes} (hid : id ∈ result.ids) :
    lookedUp id (Monitor.init.after
        (metadataCallback (nodeReports config environment fromString clock seen))) =
      some result.resource := by
  refine lookedUp_metadataCallback ⟨result, ?_, hid⟩ fun result' hmem hid' => ?_
  · exact (mem_nodeReports config environment fromString clock).mpr ⟨i, v, hv, hreport⟩
  · obtain ⟨j, v', -, hreport'⟩ :=
      (mem_nodeReports config environment fromString clock).mp hmem
    exact nodeReport_ids_inj config environment fromString hreport' hreport hid' hid

end Nodes

end MetadataAgent.KubernetesReader
