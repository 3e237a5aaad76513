import MetadataAgent.Resource
import MetadataAgent.Lib.Failing
import MetadataAgent.Lib.Histories

/-! # Services and their pods

The service and endpoints watches keep two caches over the same keys, namespace and service name.
`GetServiceList` joins them. A cache after any history of events holds, for every key, what the
last successful event of its own kind left, so the list depends on the two kinds separately. -/
namespace MetadataAgent.KubernetesReader
open Lib Json
set_option autoImplicit false

/-- Namespace and service name, in the order of `std::pair`. -/
abbrev ServiceKey := Bytes ×ₗ Bytes

/-- `service_to_metadata_` and `service_to_pods_`. -/
structure ServiceCaches where
  serviceToMetadata : OrderedMap ServiceKey Value
  serviceToPods : OrderedMap ServiceKey (List Bytes)

def ServiceCaches.empty : ServiceCaches := ⟨.empty, .empty⟩

/-- `kKubernetesApiVersion`. -/
def kubernetesApiVersion : Bytes := lit "1.6"

/-! ## The two updates -/

def serviceKey (o : Object) : Except Exception ServiceKey := do
  let metadata ← getObject o (lit "metadata")
  let namespaceName ← getString metadata (lit "namespace")
  let serviceName ← getString metadata (lit "name")
  return toLex (namespaceName, serviceName)

def updateServiceToMetadataCache (c : ServiceCaches) (service : Object) (isDeleted : Bool) :
    ServiceCaches × Except Exception Unit :=
  match serviceKey service with
  | .error e => (c, .error e)
  | .ok key =>
    if isDeleted then ({ c with serviceToMetadata := c.serviceToMetadata.erase key }, .ok ())
    else ({ c with serviceToMetadata := c.serviceToMetadata.assign key (.object service) }, .ok ())

def pushAddress (podNames : List Bytes) (address : Value) : Except Exception (List Bytes) := do
  let addressObj ← asObject address
  if !has addressObj (lit "targetRef") then return podNames
  let ref ← getObject addressObj (lit "targetRef")
  if !(has ref (lit "kind") && has ref (lit "name")) then return podNames
  let targetKind ← getString ref (lit "kind")
  if targetKind ≠ lit "Pod" then return podNames
  let podName ← getString ref (lit "name")
  return podNames ++ [podName]

def pushSubset (podNames : List Bytes) (subset : Value) : Except Exception (List Bytes) := do
  let subsetObj ← asObject subset
  if !has subsetObj (lit "addresses") then return podNames
  let addresses ← getArray subsetObj (lit "addresses")
  addresses.foldlM pushAddress podNames

def endpointsPodNames (endpoints : Object) (isDeleted : Bool) : Except Exception (List Bytes) :=
  if !isDeleted && has endpoints (lit "subsets") &&
      decide (lookup (lit "subsets") endpoints ≠ some .null) then do
    let subsets ← getArray endpoints (lit "subsets")
    subsets.foldlM pushSubset []
  else return []

def updateServiceToPodsCache (c : ServiceCaches) (endpoints : Object) (isDeleted : Bool) :
    ServiceCaches × Except Exception Unit :=
  match serviceKey endpoints with
  | .error e => (c, .error e)
  | .ok key =>
    match endpointsPodNames endpoints isDeleted with
    | .error e => (c, .error e)
    | .ok podNames =>
      if isDeleted then ({ c with serviceToPods := c.serviceToPods.erase key }, .ok ())
      else ({ c with serviceToPods := c.serviceToPods.assign key podNames }, .ok ())

/-! ## The list -/

def podResource (clusterName namespaceName podName location : Bytes) : MonitoredResource :=
  .ofLabels (lit "k8s_pod") [
    (lit "cluster_name", clusterName),
    (lit "namespace_name", namespaceName),
    (lit "pod_name", podName),
    (lit "location", location)]

/-- The element of a service: its object as it came, and the resources of its pods. -/
def serviceElement (clusterName location : Bytes) (key : ServiceKey) (service : Value)
    (podNames : List Bytes) : Value :=
  object [
    (lit "api", some (object [
      (lit "version", some (.string kubernetesApiVersion)),
      (lit "raw", some service),
      (lit "pods", some (array (podNames.map fun podName =>
        some (podResource clusterName (ofLex key).1 podName location).toJSON)))]))]

def getServiceList (c : ServiceCaches) (clusterName location : Bytes) : List Value :=
  c.serviceToMetadata.entries.map fun e =>
    serviceElement clusterName location e.1 e.2 ((c.serviceToPods.find e.1).getD [])

/-! ## The pods of an endpoints object -/

def arrayAt (field : Bytes) (o : Object) : List Value :=
  ((lookup field o).bind Value.asArray?).getD []

def objectAt (field : Bytes) (o : Object) : Option Object :=
  (lookup field o).bind Value.asObject?

def stringAt (field : Bytes) (o : Object) : Option Bytes :=
  (lookup field o).bind Value.asString?

def podOfAddress (address : Value) : Option Bytes := do
  let ref ← address.asObject?.bind (objectAt (lit "targetRef"))
  if stringAt (lit "kind") ref = some (lit "Pod") then stringAt (lit "name") ref else none

def podsOfSubset (subset : Value) : List Bytes :=
  ((subset.asObject?.map (arrayAt (lit "addresses"))).getD []).filterMap podOfAddress

def podsOfEndpoints (endpoints : Object) : List Bytes :=
  (arrayAt (lit "subsets") endpoints).flatMap podsOfSubset

theorem pushAddress_eq_ok (podNames : List Bytes) (address : Value) (ys : List Bytes)
    (h : pushAddress podNames address = .ok ys) :
    ys = podNames ++ (podOfAddress address).toList := by
  unfold pushAddress at h
  rw [bind_eq_ok] at h
  obtain ⟨addressObj, haddress, h⟩ := h
  rw [asObject, as_eq_ok] at haddress
  rw [podOfAddress, haddress]
  split at h
  · rename_i hno
    have hnone : lookup (lit "targetRef") addressObj = none := by simpa [has] using hno
    rw [pure_eq_ok] at h
    simp [objectAt, hnone, ← h]
  · rw [bind_eq_ok] at h
    obtain ⟨ref, href, h⟩ := h
    rw [getObject, get_eq_ok] at href
    have hobject : (some addressObj).bind (objectAt (lit "targetRef")) = some ref := href
    rw [hobject]
    split at h
    · rename_i hno
      have hnone : lookup (lit "kind") ref = none ∨ lookup (lit "name") ref = none := by
        simpa [has, imp_iff_not_or] using hno
      rw [pure_eq_ok] at h
      rcases hnone with hnone | hnone <;> simp [stringAt, hnone, ← h]
    · rw [bind_eq_ok] at h
      obtain ⟨kind, hkind, h⟩ := h
      rw [getString, get_eq_ok] at hkind
      have hkindAt : stringAt (lit "kind") ref = some kind := hkind
      split at h
      · rename_i hpod
        rw [pure_eq_ok] at h
        simp [hkindAt, hpod, ← h]
      · rename_i hpod
        rw [bind_eq_ok] at h
        obtain ⟨podName, hname, h⟩ := h
        rw [getString, get_eq_ok] at hname
        have hnameAt : stringAt (lit "name") ref = some podName := hname
        rw [pure_eq_ok] at h
        rw [not_not] at hpod
        simp [hkindAt, hpod, hnameAt, ← h]

theorem pushSubset_eq_ok (podNames : List Bytes) (subset : Value) (ys : List Bytes)
    (h : pushSubset podNames subset = .ok ys) : ys = podNames ++ podsOfSubset subset := by
  unfold pushSubset at h
  rw [bind_eq_ok] at h
  obtain ⟨subsetObj, hsubset, h⟩ := h
  rw [asObject, as_eq_ok] at hsubset
  rw [podsOfSubset, hsubset, Option.map_some, Option.getD_some]
  split at h
  · rename_i hno
    have hnone : lookup (lit "addresses") subsetObj = none := by simpa [has] using hno
    rw [pure_eq_ok] at h
    simp [arrayAt, hnone, ← h]
  · rw [bind_eq_ok] at h
    obtain ⟨addresses, haddresses, h⟩ := h
    rw [getArray, get_eq_ok] at haddresses
    rw [arrayAt, haddresses, Option.getD_some, List.filterMap_eq_flatMap_toList]
    exact foldlM_append_eq_ok pushAddress_eq_ok addresses podNames ys h

theorem endpointsPodNames_eq_ok {endpoints : Object} {ys : List Bytes}
    (h : endpointsPodNames endpoints false = .ok ys) : ys = podsOfEndpoints endpoints := by
  unfold endpointsPodNames at h
  split at h
  · rw [bind_eq_ok] at h
    obtain ⟨subsets, hsubsets, h⟩ := h
    rw [getArray, get_eq_ok] at hsubsets
    have hfold := foldlM_append_eq_ok pushSubset_eq_ok subsets [] ys h
    rw [podsOfEndpoints, arrayAt, hsubsets, Option.getD_some]
    exact hfold
  · rename_i hno
    rw [pure_eq_ok] at h
    rw [podsOfEndpoints, arrayAt, ← h]
    cases hs : lookup (lit "subsets") endpoints with
    | none => rfl
    | some v =>
      have hnull : v = .null := by simpa [has, hs] using hno
      rw [hnull]
      rfl

/-! ## Histories of events -/

inductive ServiceEvent where
  | service (service : Object) (isDeleted : Bool)
  | endpoints (endpoints : Object) (isDeleted : Bool)

def ServiceEvent.isService : ServiceEvent → Bool
  | .service _ _ => true
  | .endpoints _ _ => false

namespace ServiceCaches

def apply (c : ServiceCaches) : ServiceEvent → ServiceCaches × Except Exception Unit
  | .service service isDeleted => updateServiceToMetadataCache c service isDeleted
  | .endpoints endpoints isDeleted => updateServiceToPodsCache c endpoints isDeleted

/-- The caches after a history; an event that throws is over, the next one follows. -/
def after (c : ServiceCaches) (h : List ServiceEvent) : ServiceCaches :=
  h.foldl (fun c e => (c.apply e).1) c

theorem after_append (c : ServiceCaches) (h h' : List ServiceEvent) :
    c.after (h ++ h') = (c.after h).after h' :=
  List.foldl_append

end ServiceCaches

def serviceView (key : ServiceKey) : ServiceEvent → Option (Object × Bool)
  | .service service isDeleted =>
    if serviceKey service = .ok key then some (service, isDeleted) else none
  | .endpoints _ _ => none

def endpointsView (key : ServiceKey) : ServiceEvent → Option (Object × Bool)
  | .service _ _ => none
  | .endpoints endpoints isDeleted =>
    if serviceKey endpoints = .ok key ∧ (endpointsPodNames endpoints isDeleted).isOk = true then
      some (endpoints, isDeleted)
    else none

def lastService (h : List ServiceEvent) (key : ServiceKey) : Option (Object × Bool) :=
  (latest (serviceView key) h).map Prod.fst

def lastEndpoints (h : List ServiceEvent) (key : ServiceKey) : Option (Object × Bool) :=
  (latest (endpointsView key) h).map Prod.fst

/-- The pods of a service: those of its last endpoints event, if that was not a deletion. -/
def lastPods (h : List ServiceEvent) (key : ServiceKey) : List Bytes :=
  match lastEndpoints h key with
  | some (endpoints, false) => podsOfEndpoints endpoints
  | _ => []

theorem apply_error {c : ServiceCaches} {e : ServiceEvent} {x : Exception}
    (h : (c.apply e).2 = .error x) : (c.apply e).1 = c := by
  cases e with
  | service service isDeleted =>
    rw [ServiceCaches.apply, updateServiceToMetadataCache] at h ⊢
    split
    · rfl
    · rename_i key hkey
      rw [hkey] at h
      cases isDeleted <;> cases h
  | endpoints endpoints isDeleted =>
    rw [ServiceCaches.apply, updateServiceToPodsCache] at h ⊢
    split
    · rfl
    · rename_i key hkey
      rw [hkey] at h
      split
      · rfl
      · rename_i podNames hpods
        simp only [hpods] at h
        cases isDeleted <;> cases h

theorem find_apply_service (c : ServiceCaches) (e : ServiceEvent) (key : ServiceKey) :
    (c.apply e).1.serviceToMetadata.find key =
      ((serviceView key e).map fun r => if r.2 then none else some (.object r.1)).getD
        (c.serviceToMetadata.find key) := by
  cases e with
  | service service isDeleted =>
    rw [ServiceCaches.apply, updateServiceToMetadataCache, serviceView]
    split
    · rename_i x hkey
      simp [hkey]
    · rename_i k hkey
      have hthis : serviceKey service = .ok key ↔ key = k := by
        rw [hkey, Except.ok.injEq, eq_comm]
      rw [if_congr hthis rfl rfl]
      cases isDeleted with
      | true => by_cases hk : key = k <;> simp [hk, OrderedMap.find_erase]
      | false => by_cases hk : key = k <;> simp [hk, OrderedMap.find_assign]
  | endpoints endpoints isDeleted =>
    rw [ServiceCaches.apply, updateServiceToPodsCache]
    split
    · rfl
    · split
      · rfl
      · cases isDeleted <;> rfl

theorem find_apply_pods (c : ServiceCaches) (e : ServiceEvent) (key : ServiceKey) :
    (c.apply e).1.serviceToPods.find key =
      ((endpointsView key e).map fun r => if r.2 then none else some (podsOfEndpoints r.1)).getD
        (c.serviceToPods.find key) := by
  cases e with
  | service service isDeleted =>
    rw [ServiceCaches.apply, updateServiceToMetadataCache]
    split
    · rfl
    · cases isDeleted <;> rfl
  | endpoints endpoints isDeleted =>
    rw [ServiceCaches.apply, updateServiceToPodsCache, endpointsView]
    split
    · rename_i x hkey
      simp [hkey]
    · rename_i k hkey
      have hthis : serviceKey endpoints = .ok key ↔ key = k := by
        rw [hkey, Except.ok.injEq, eq_comm]
      split
      · rename_i x hpods
        simp [hpods, Except.isOk, Except.toBool]
      · rename_i podNames hpods
        have hok : (endpointsPodNames endpoints isDeleted).isOk = true := by rw [hpods]; rfl
        simp only [hok, hthis, and_true]
        cases isDeleted with
        | true => by_cases hk : key = k <;> simp [hk, OrderedMap.find_erase]
        | false =>
          have hnames : podNames = podsOfEndpoints endpoints := endpointsPodNames_eq_ok hpods
          by_cases hk : key = k <;> simp [hk, hnames, OrderedMap.find_assign]

theorem find_after_service (h : List ServiceEvent) (key : ServiceKey) :
    (ServiceCaches.empty.after h).serviceToMetadata.find key =
      (lastService h key).bind fun r => if r.2 then none else some (.object r.1) := by
  rw [ServiceCaches.after, observe_foldl (serviceView key) (fun c e => (c.apply e).1)
    (fun c => c.serviceToMetadata.find key) (fun r => if r.2 then none else some (.object r.1))
    (fun c e => find_apply_service c e key)]
  rw [lastService]
  cases latest (serviceView key) h <;> rfl

theorem find_after_pods (h : List ServiceEvent) (key : ServiceKey) :
    ((ServiceCaches.empty.after h).serviceToPods.find key).getD [] = lastPods h key := by
  rw [ServiceCaches.after, observe_foldl (endpointsView key) (fun c e => (c.apply e).1)
    (fun c => c.serviceToPods.find key)
    (fun r => if r.2 then none else some (podsOfEndpoints r.1))
    (fun c e => find_apply_pods c e key)]
  rw [lastPods, lastEndpoints]
  cases latest (endpointsView key) h with
  | none => rfl
  | some r =>
    obtain ⟨⟨endpoints, isDeleted⟩, since⟩ := r
    cases isDeleted <;> rfl

/-! ## The list after a history -/

theorem exists_services (h : List ServiceEvent) :
    ∃ services : List (ServiceKey × Object), Ascending services ∧
      (∀ key o, (key, o) ∈ services ↔ lastService h key = some (o, false)) ∧
      (ServiceCaches.empty.after h).serviceToMetadata.entries =
        services.map fun e => (e.1, .object e.2) := by
  have hobject : ∀ e ∈ (ServiceCaches.empty.after h).serviceToMetadata.entries,
      ∃ o, lastService h e.1 = some (o, false) ∧ e.2 = .object o := by
    intro e he
    have hfind := OrderedMap.mem_entries.mp (show (e.1, e.2) ∈ _ from he)
    rw [find_after_service, Option.bind_eq_some_iff] at hfind
    obtain ⟨⟨o, isDeleted⟩, hlast, hvalue⟩ := hfind
    cases isDeleted with
    | true => simp at hvalue
    | false => exact ⟨o, hlast, by simpa using hvalue.symm⟩
  have hentries : ∀ entries : List (ServiceKey × Value),
      (∀ e ∈ entries, ∃ o, lastService h e.1 = some (o, false) ∧ e.2 = .object o) →
        ∃ services : List (ServiceKey × Object),
          entries = services.map (fun e => (e.1, .object e.2)) := by
    intro entries hall
    induction entries with
    | nil => exact ⟨[], rfl⟩
    | cons e entries ih =>
      obtain ⟨services, rfl⟩ := ih fun a ha => hall a (List.mem_cons_of_mem _ ha)
      obtain ⟨o, _, ho⟩ := hall e List.mem_cons_self
      exact ⟨(e.1, o) :: services, by rw [List.map_cons, ← ho]⟩
  obtain ⟨services, hservices⟩ := hentries _ hobject
  refine ⟨services, ?_, ?_, hservices⟩
  · have hascending := (ServiceCaches.empty.after h).serviceToMetadata.ascending
    rw [hservices, Ascending, List.pairwise_map] at hascending
    exact hascending
  · intro key o
    have hmem : (key, o) ∈ services ↔ (key, Value.object o) ∈
        (ServiceCaches.empty.after h).serviceToMetadata.entries := by
      rw [hservices, List.mem_map]
      constructor
      · intro hin
        exact ⟨(key, o), hin, rfl⟩
      · rintro ⟨⟨j, p⟩, hin, heq⟩
        rw [Prod.mk.injEq, Value.object.injEq] at heq
        rw [← heq.1, ← heq.2]
        exact hin
    rw [hmem, OrderedMap.mem_entries, find_after_service]
    cases lastService h key with
    | none => simp
    | some r =>
      obtain ⟨p, isDeleted⟩ := r
      cases isDeleted <;> simp

/-- The two caches see only the events of their own kind. -/
theorem caches_eq_of_filter_eq {h h' : List ServiceEvent}
    (hservice : h.filter ServiceEvent.isService = h'.filter ServiceEvent.isService)
    (hendpoints : h.filter (fun e => !e.isService) = h'.filter fun e => !e.isService)
    (clusterName location : Bytes) :
    getServiceList (ServiceCaches.empty.after h) clusterName location =
      getServiceList (ServiceCaches.empty.after h') clusterName location := by
  have hlastService : ∀ key, lastService h key = lastService h' key := by
    intro key
    have hview : ∀ e : ServiceEvent, e.isService = false → serviceView key e = none := by
      intro e he
      cases e with
      | service o d => cases he
      | endpoints o d => rfl
    rw [lastService, lastService, ← latest_filter (serviceView key) _ hview h, hservice,
      latest_filter (serviceView key) _ hview h']
  have hlastPods : ∀ key, lastPods h key = lastPods h' key := by
    intro key
    have hview : ∀ e : ServiceEvent, (!e.isService) = false → endpointsView key e = none := by
      intro e he
      cases e with
      | service o d => rfl
      | endpoints o d => cases he
    have hlast : lastEndpoints h key = lastEndpoints h' key := by
      rw [lastEndpoints, lastEndpoints, ← latest_filter (endpointsView key) _ hview h, hendpoints,
        latest_filter (endpointsView key) _ hview h']
    rw [lastPods, hlast, ← lastPods]
  have hentries : (ServiceCaches.empty.after h).serviceToMetadata =
      (ServiceCaches.empty.after h').serviceToMetadata := by
    apply OrderedMap.ext_find
    intro key
    rw [find_after_service, find_after_service, hlastService]
  rw [getServiceList, getServiceList, hentries]
  apply List.map_congr_left
  intro e _
  rw [find_after_pods, find_after_pods, hlastPods]

end MetadataAgent.KubernetesReader
