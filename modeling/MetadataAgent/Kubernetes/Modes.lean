import MetadataAgent.Updaters

/-! # Watching and polling

The updater learns of the nodes from the events of a watch or from the lists that it polls. A watch
connection begins with an event for each node of the list that a poll would get, and it is over with
the first malformed one, as the poll is. The two modes leave the same nodes in the store, apart from
the times at which they were collected. -/
namespace MetadataAgent.KubernetesReader
open Lib Json MetadataStore HealthChecker
set_option autoImplicit false

/-! ## Stores that agree -/

def timeless (entry : Metadata) : Metadata := { entry with collectedAt := 0 }

def timelessResult (result : ResourceMetadata) : ResourceMetadata :=
  { result with metadata := timeless result.metadata }

/-- The same ids lead to the same resources, whose live entries differ in the collection times
only. -/
structure Agree (m m' : Monitor) : Prop where
  lookups : ∀ id, lookedUp id m = lookedUp id m'
  entries : ∀ r, (live r m).map timeless = (live r m').map timeless

theorem Agree.refl (m : Monitor) : Agree m m := ⟨fun _ => rfl, fun _ => rfl⟩

theorem reported_timeless (r : MonitoredResource) (result : ResourceMetadata) :
    reported r (timelessResult result) = (reported r result).map timeless := by
  rw [reported, reported]
  by_cases h : result.metadata.ignore = false ∧ r = result.resource
  · have h' : (timelessResult result).metadata.ignore = false ∧
        r = (timelessResult result).resource := h
    rw [if_pos h, if_pos h']
    rfl
  · have h' : ¬((timelessResult result).metadata.ignore = false ∧
        r = (timelessResult result).resource) := h
    rw [if_neg h, if_neg h']
    rfl

theorem undeleted_timeless (entry : Metadata) :
    undeleted (timeless entry) = (undeleted entry).map timeless := by
  rw [undeleted, undeleted]
  have hdeleted : (timeless entry).isDeleted = entry.isDeleted := rfl
  rw [hdeleted]
  cases entry.isDeleted <;> rfl

theorem live_timeless (r : MonitoredResource) (m : Monitor) (result : ResourceMetadata) :
    (live r (m.after (metadataCallback [result]))).map timeless =
      ((reported r (timelessResult result)).map undeleted).getD ((live r m).map timeless) := by
  rw [live_report, reported_timeless]
  cases reported r result with
  | none => rfl
  | some entry => exact (undeleted_timeless entry).symm

theorem lookedUp_timeless (id : Bytes) (m : Monitor) (result : ResourceMetadata) :
    lookedUp id (m.after (metadataCallback [result])) =
      (lookedUp id m).or ((metadataCallback [timelessResult result]).findSome?
        (HealthChecker.Event.registered id)) :=
  lookupResource_monitor m (metadataCallback [result]) id

/-- Results that differ in their times only keep the agreement. -/
theorem Agree.report {m m' : Monitor} (h : Agree m m') {result result' : ResourceMetadata}
    (hresult : timelessResult result = timelessResult result') :
    Agree (m.after (metadataCallback [result])) (m'.after (metadataCallback [result'])) where
  lookups id := by
    rw [lookedUp_timeless, lookedUp_timeless, hresult, h.lookups]
  entries r := by
    rw [live_timeless, live_timeless, hresult, h.entries]

theorem after_metadataCallback_cons (m : Monitor) (result : ResourceMetadata)
    (results : List ResourceMetadata) :
    m.after (metadataCallback (result :: results)) =
      (m.after (metadataCallback [result])).after (metadataCallback results) := by
  have hsplit := metadataCallback_append [result] results
  rw [List.singleton_append] at hsplit
  rw [hsplit, Monitor.after, List.foldl_append]
  rfl

theorem Agree.reports {m m' : Monitor} (h : Agree m m') {results results' : List ResourceMetadata}
    (hresults : results.map timelessResult = results'.map timelessResult) :
    Agree (m.after (metadataCallback results)) (m'.after (metadataCallback results')) := by
  induction results generalizing results' m m' with
  | nil =>
    obtain rfl : results' = [] := List.map_eq_nil_iff.mp hresults.symm
    exact h
  | cons result results ih =>
    obtain ⟨result', rest, rfl, hresult, hrest⟩ := List.map_eq_cons_iff.mp hresults.symm
    rw [after_metadataCallback_cons, after_metadataCallback_cons]
    exact ih (h.report hresult.symm) hrest.symm

/-! ## Events and lists -/

section Nodes
variable (config : Configuration) (environment : Environment) (fromString : Bytes → Timestamp)

/-- The event says that the node is there; whether the node is well formed is left open. -/
def Shows (event node : Value) : Prop :=
  ∃ watch type, event = .object watch ∧ lookup (lit "type") watch = some (.string type) ∧
    (type = lit "ADDED" ∨ type = lit "MODIFIED") ∧ lookup (lit "object") watch = some node

theorem nodeReport_shows {event node : Value} (h : Shows event node) (t : Timestamp) :
    (nodeReport config environment fromString t event).toOption =
      (processNode config environment fromString t node).toOption.map some := by
  obtain ⟨watch, type, rfl, htype, hshown, hnode⟩ := h
  have hget : getString watch (lit "type") = .ok type := getString_eq_ok.mpr htype
  have hundeleted : decide (type = lit "DELETED") = false := by
    rcases hshown with rfl | rfl <;> decide
  have hreported : ¬(type ≠ lit "MODIFIED" ∧ type ≠ lit "ADDED" ∧ type ≠ lit "DELETED") := by
    rintro ⟨hmodified, hadded, -⟩
    rcases hshown with h | h
    · exact hadded h
    · exact hmodified h
  cases hobject : getObject watch (lit "object") with
  | ok fields =>
    have hevent : watchEvent (.object watch) = .ok (type, fields) := by
      simp only [watchEvent, asObject_eq_ok.mpr rfl, hget, hobject, bind, Except.bind]
      rfl
    have hfields : node = .object fields := by
      have h := getObject_eq_ok.mp hobject
      rw [hnode] at h
      exact Option.some.inj h
    rw [hfields, nodeReport, hevent, processNode, asObject_eq_ok.mpr rfl]
    simp only [bind, Except.bind, hreported, hundeleted, if_false]
    cases getNodeMetadata config environment fromString fields t false <;> rfl
  | error e =>
    have hevent : watchEvent (.object watch) = .error e := by
      simp only [watchEvent, asObject_eq_ok.mpr rfl, hget, hobject, bind, Except.bind]
    have hnone : ∃ e', asObject node = .error e' := by
      cases hcast : asObject node with
      | error e' => exact ⟨e', rfl⟩
      | ok fields =>
        rw [asObject_eq_ok.mp hcast] at hnode
        rw [getObject_eq_ok.mpr hnode] at hobject
        cases hobject
    obtain ⟨e', hcast⟩ := hnone
    rw [nodeReport, hevent, processNode, hcast]
    rfl

/-- The events of a connection that the callback is called with report what the loop over the list
reports. -/
theorem throughFirst_reports {events nodes : List Value} (h : List.Forall₂ Shows events nodes) :
    (throughFirst (malformedNode config environment fromString) events).filterMap
        (fun event => (nodeReport config environment fromString 0 event).toOption.join) =
      untilError (processNode config environment fromString 0) nodes := by
  induction h with
  | nil => rfl
  | @cons event node _ _ hshows _ ih =>
    have hreport := nodeReport_shows config environment fromString hshows 0
    rw [throughFirst, untilError, List.filterMap_cons, malformedNode]
    cases hnode : processNode config environment fromString 0 node with
    | error e =>
      rw [hnode] at hreport
      cases hevent : nodeReport config environment fromString 0 event with
      | error e' => rfl
      | ok result =>
        rw [hevent] at hreport
        cases hreport
    | ok result =>
      rw [hnode] at hreport
      have hevent := toOption_eq_some.mp hreport
      rw [hevent]
      exact congrArg (result :: ·) ih

theorem nodeReport_timeless (t : Timestamp) (event : Value) :
    (nodeReport config environment fromString t event).toOption.join.map timelessResult =
      (nodeReport config environment fromString 0 event).toOption.join := by
  have hsame : ∀ {t t' : Timestamp} {result : ResourceMetadata},
      nodeReport config environment fromString t event = .ok (some result) →
      nodeReport config environment fromString t' event =
        .ok (some { result with metadata := { result.metadata with collectedAt := t' } }) :=
    fun h => nodeReport_at config environment fromString h _
  rcases hreport : nodeReport config environment fromString t event with e | _ | result
  · rcases hzero : nodeReport config environment fromString 0 event with e' | _ | result
    · rfl
    · rfl
    · rw [hsame hzero] at hreport
      cases hreport
  · rcases hzero : nodeReport config environment fromString 0 event with e' | _ | result
    · rfl
    · rfl
    · rw [hsame hzero] at hreport
      cases hreport
  · rw [hsame hreport]
    rfl

theorem nodeReports_timeless (clock : ℕ → Timestamp) (seen : List Value) :
    (nodeReports config environment fromString clock seen).map timelessResult =
      seen.filterMap fun event =>
        (nodeReport config environment fromString 0 event).toOption.join := by
  induction seen using List.reverseRecOn with
  | nil => rfl
  | append_singleton seen event ih =>
    have hevent := nodeReport_timeless config environment fromString (clock seen.length) event
    rw [nodeReports_concat, List.map_append, ih, List.filterMap_append, List.filterMap_cons,
      ← hevent]
    cases (nodeReport config environment fromString (clock seen.length) event).toOption.join <;> rfl

theorem untilError_timeless (t : Timestamp) (nodes : List Value) :
    (untilError (processNode config environment fromString t) nodes).map timelessResult =
      untilError (processNode config environment fromString 0) nodes := by
  induction nodes with
  | nil => rfl
  | cons node nodes ih =>
    rw [untilError, untilError]
    cases hnode : processNode config environment fromString t node with
    | ok result =>
      rw [processNode, bind_eq_ok] at hnode
      obtain ⟨fields, hcast, hresult⟩ := hnode
      have hzero : processNode config environment fromString 0 node =
          .ok (timelessResult result) := by
        rw [processNode, hcast]
        exact getNodeMetadata_at config environment fromString hresult 0
      rw [hzero]
      exact congrArg (timelessResult result :: ·) ih
    | error e =>
      have hnone := (processNode_throws_iff config environment fromString t node).mp
        (by rw [hnode]; rfl)
      have hzero := (processNode_throws_iff config environment fromString 0 node).mpr hnone
      cases hprocess : processNode config environment fromString 0 node with
      | error e' => rfl
      | ok result =>
        rw [hprocess] at hzero
        cases hzero

/-! ## The two modes -/

variable {y : Yajl} (master : Master) (options : QueryOptions) (clock : ℕ → Timestamp)

/-- A connection of the watch, and a poll of the other mode: the state of the reader and the time
at which the list came. -/
structure Round (y : Yajl) where
  delivery : Delivery y
  reader : ReaderState
  collectedAt : Timestamp

/-- The poll gets the list of the nodes that the complete events of the connection show. -/
def Round.SameNodes (round : Round y) : Prop :=
  ∃ rawNodes nodes, (queryMaster config master options.nodesPath round.reader).1 = .ok rawNodes ∧
    nodeItems options.nodeName rawNodes = .ok nodes ∧
    List.Forall₂ Shows round.delivery.completeEvents nodes

/-- The calls of the store that the watch makes. -/
def watchedCalls (rounds : List (Round y)) : List HealthChecker.Event :=
  (watched y (watchNodes config environment fromString clock) (0, [])
    (rounds.map fun round => round.delivery.notifications)).2

/-- The calls of the store that the polls make for the nodes. -/
def polledCalls (rounds : List (Round y)) : List HealthChecker.Event :=
  metadataCallback (rounds.flatMap fun round =>
    (queryNodes config environment fromString master options round.collectedAt round.reader).1)

variable {config master options}

theorem polled_timeless {round : Round y} (h : round.SameNodes config master options) :
    (queryNodes config environment fromString master options round.collectedAt
        round.reader).1.map timelessResult =
      (throughFirst (malformedNode config environment fromString)
        round.delivery.completeEvents).filterMap fun event =>
          (nodeReport config environment fromString 0 event).toOption.join := by
  obtain ⟨rawNodes, nodes, hquery, hnodes, hshows⟩ := h
  rw [throughFirst_reports config environment fromString hshows,
    ← untilError_timeless config environment fromString round.collectedAt]
  rcases hresponse : queryMaster config master options.nodesPath round.reader with ⟨response, w⟩
  rw [hresponse] at hquery
  simp only at hquery
  simp only [queryNodes, hresponse, hquery, hnodes, nodeLoop_fst, List.nil_append]

theorem rounds_timeless {rounds : List (Round y)}
    (h : ∀ round ∈ rounds, round.SameNodes config master options) :
    (nodeReports config environment fromString clock
        (handled (malformedNode config environment fromString)
          (rounds.map Round.delivery))).map timelessResult =
      (rounds.flatMap fun round => (queryNodes config environment fromString master options
        round.collectedAt round.reader).1).map timelessResult := by
  rw [nodeReports_timeless, handled]
  induction rounds with
  | nil => rfl
  | cons round rounds ih =>
    obtain ⟨hround, hrounds⟩ := List.forall_mem_cons.mp h
    rw [List.map_cons, List.flatMap_cons, List.filterMap_append, ih hrounds, List.flatMap_cons,
      List.map_append, polled_timeless environment fromString hround]

/-- However the connections of the node watch are cut into chunks and where, and whatever is
malformed, the watch leaves the store as the polls do that get the nodes of its complete events,
apart from the collection times. -/
theorem node_watch_agrees_with_polls {Between InsideMap Failed : y.State → Prop}
    (hy : y.Documented Between InsideMap Failed) (rounds : List (Round y))
    (h : ∀ round ∈ rounds, round.SameNodes config master options) (m : Monitor) :
    Agree (m.after (watchedCalls config environment fromString clock rounds))
      (m.after (polledCalls config environment fromString master options rounds)) := by
  have hnotifications : (rounds.map fun round => round.delivery.notifications) =
      (rounds.map Round.delivery).map Delivery.notifications := (List.map_map).symm
  rw [watchedCalls, polledCalls, hnotifications,
    watched_eq_handled hy (watchNodes_throws config environment fromString clock),
    foldl_watchNodes]
  exact (Agree.refl m).reports (rounds_timeless environment fromString clock h)

end Nodes

/-- A poll gets the one node whose event is complete. -/
theorem node_watch_agrees_once :
    Agree
      (Monitor.init.after (watchedCalls masterConfig clusterNode (fun _ => 0) (fun _ => 7)
        [⟨Updaters.nodeDelivery, noQueries, 3⟩]))
      (Monitor.init.after (polledCalls masterConfig clusterNode (fun _ => 0)
        (serveLists [(Doc.object [(lit "metadata", .object [(lit "name", .string (lit "n")),
          (lit "creationTimestamp", .string (lit "t"))])]).value] [])
        clusterLevel [⟨Updaters.nodeDelivery, noQueries, 3⟩])) := by
  refine node_watch_agrees_with_polls clusterNode (fun _ => 0) (fun _ => 7) pushdown_documented _
    ?_ Monitor.init
  intro round hround
  rw [List.mem_singleton.mp hround]
  refine ⟨_, _, rfl, rfl, ?_⟩
  have hcomplete : Updaters.nodeDelivery.completeEvents =
      [(Doc.object Updaters.addedNode.2).value] := rfl
  rw [hcomplete]
  exact List.Forall₂.cons ⟨_, lit "ADDED", rfl, rfl, .inl rfl, rfl⟩ List.Forall₂.nil

end MetadataAgent.KubernetesReader
