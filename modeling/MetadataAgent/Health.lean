import MetadataAgent.Store
import Mathlib.Data.Finset.Insert

/-! # Health

`HealthChecker` collects the components that reported themselves unhealthy and adds the resource
types whose last collection is too old. The last collection time of a type is a running maximum
over the entries recorded for it, so what it reports is decided by the history of calls. -/
namespace MetadataAgent
open Lib Json MetadataStore
set_option autoImplicit false

structure HealthChecker where
  unhealthyComponents : Finset Bytes

namespace HealthChecker

def init : HealthChecker := ⟨∅⟩

def setUnhealthy (checker : HealthChecker) (component : Bytes) : HealthChecker :=
  ⟨insert component checker.unhealthyComponents⟩

/-- One turn of the loop over the last collection times. -/
def insertStale (cutoff : Timestamp) (result : Finset Bytes) (kv : Bytes × Timestamp) :
    Finset Bytes :=
  if kv.2 < cutoff then insert kv.1 result else result

/-- `UnhealthyComponents` at the time `now`. -/
def unhealthy (checker : HealthChecker) (store : MetadataStore)
    (healthCheckMaxDataAgeSeconds : ℤ) (now : Timestamp) : Finset Bytes :=
  let cutoff := now - healthCheckMaxDataAgeSeconds * 1000000000
  store.getLastCollectionTimes.entries.foldl (insertStale cutoff) checker.unhealthyComponents

theorem mem_foldl_insertStale (cutoff : Timestamp) (times : List (Bytes × Timestamp))
    (result : Finset Bytes) (type : Bytes) :
    type ∈ times.foldl (insertStale cutoff) result ↔
      type ∈ result ∨ ∃ t, (type, t) ∈ times ∧ t < cutoff := by
  induction times generalizing result with
  | nil => simp
  | cons kv times ih =>
    obtain ⟨k, t⟩ := kv
    have hhead : type ∈ insertStale cutoff result (k, t) ↔
        type ∈ result ∨ type = k ∧ t < cutoff := by
      unfold insertStale
      by_cases ht : t < cutoff
      · rw [if_pos ht, Finset.mem_insert]
        tauto
      · rw [if_neg ht]
        tauto
    rw [List.foldl_cons, ih, hhead, or_assoc]
    refine or_congr_right ?_
    constructor
    · rintro (⟨rfl, ht⟩ | ⟨u, hu, ht⟩)
      · exact ⟨t, List.mem_cons_self, ht⟩
      · exact ⟨u, List.mem_cons_of_mem _ hu, ht⟩
    · rintro ⟨u, hu, ht⟩
      rcases List.mem_cons.mp hu with hu | hu
      · rw [Prod.mk.injEq] at hu
        exact .inl ⟨hu.1, hu.2 ▸ ht⟩
      · exact .inr ⟨u, hu, ht⟩

theorem mem_unhealthy (checker : HealthChecker) (store : MetadataStore) (maxAge : ℤ)
    (now : Timestamp) (type : Bytes) :
    type ∈ checker.unhealthy store maxAge now ↔ type ∈ checker.unhealthyComponents ∨
      ∃ t, store.lastCollectionTimes.find type = some t ∧ t < now - maxAge * 1000000000 := by
  rw [unhealthy, mem_foldl_insertStale]
  simp only [getLastCollectionTimes, OrderedMap.mem_entries]

/-! ## Histories -/

/-- The checker watches a store. -/
structure Monitor where
  checker : HealthChecker
  store : MetadataStore

inductive Event where
  | setUnhealthy (component : Bytes)
  | store (call : Call)

def Monitor.init : Monitor := ⟨.init, .empty⟩

def Monitor.apply (m : Monitor) : Event → Monitor
  | .setUnhealthy component => { m with checker := m.checker.setUnhealthy component }
  | .store call => { m with store := m.store.apply call }

def Monitor.after (m : Monitor) (history : List Event) : Monitor := history.foldl apply m

/-- The collection time an event records for a type. -/
def Event.collected (type : Bytes) : Event → Option Timestamp
  | .store (.updateMetadata resource entry) =>
    if entry.ignore = false ∧ type = resource.type then some entry.collectedAt else none
  | _ => none

/-- The collection times of the updates of a type that were not ignored. -/
def collections (history : List Event) (type : Bytes) : Set Timestamp :=
  {t | ∃ resource entry, .store (.updateMetadata resource entry) ∈ history ∧
    entry.ignore = false ∧ resource.type = type ∧ entry.collectedAt = t}

theorem views_collected (history : List Event) (type : Bytes) :
    views (Event.collected type) history = collections history type := by
  ext t
  constructor
  · rintro ⟨e, he, hview⟩
    rcases e with component | call
    · cases hview
    · cases call with
      | updateMetadata resource entry =>
        rw [Event.collected, Option.ite_none_right_eq_some, Option.some.injEq] at hview
        exact ⟨resource, entry, he, hview.1.1, hview.1.2.symm, hview.2⟩
      | updateResource ids resource => cases hview
      | purgeDeletedEntries => cases hview
  · rintro ⟨resource, entry, he, hignore, htype, ht⟩
    refine ⟨_, he, ?_⟩
    rw [Event.collected, if_pos ⟨hignore, htype.symm⟩, ht]

theorem find_recordCollection (times : OrderedMap Bytes Timestamp) (type key : Bytes)
    (collectedAt : Timestamp) :
    (recordCollection times type collectedAt).find key =
      if key = type then (times.find key).merge max (some collectedAt) else times.find key := by
  unfold recordCollection
  by_cases hkey : key = type
  · subst hkey
    rw [if_pos rfl]
    cases ht : times.find key with
    | none => simp [OrderedMap.find_emplace, ht]
    | some t =>
      by_cases hlt : t < collectedAt
      · simp [hlt, OrderedMap.find_erase_emplace, max_eq_right hlt.le]
      · simp [hlt, ht, max_eq_left (not_lt.mp hlt)]
  · rw [if_neg hkey]
    cases times.find type with
    | none => simp [OrderedMap.find_emplace, hkey]
    | some t =>
      by_cases hlt : t < collectedAt
      · simp [hlt, OrderedMap.find_erase_emplace, hkey]
      · simp [hlt]

/-- What one call does to the last collection time of a type. -/
theorem find_apply_collected (m : Monitor) (e : Event) (type : Bytes) :
    (m.apply e).store.lastCollectionTimes.find type =
      (m.store.lastCollectionTimes.find type).merge max (e.collected type) := by
  rcases e with component | call
  · simp [Monitor.apply, Event.collected]
  · cases call with
    | updateMetadata resource entry =>
      rw [Monitor.apply, MetadataStore.apply, updateMetadata, Event.collected]
      cases hi : entry.ignore with
      | true => simp
      | false =>
        rw [if_neg Bool.false_ne_true, find_recordCollection]
        by_cases htype : type = resource.type <;> simp [htype]
    | updateResource ids resource =>
      simp [Monitor.apply, MetadataStore.apply, updateResource, Event.collected]
    | purgeDeletedEntries =>
      simp [Monitor.apply, MetadataStore.apply, purgeDeletedEntries, Event.collected]

/-- The last collection time of a type is the highest one recorded for it. -/
theorem find_lastCollectionTimes (history : List Event) (type : Bytes) (t : Timestamp) :
    (Monitor.init.after history).store.lastCollectionTimes.find type = some t ↔
      IsGreatest (collections history type) t := by
  rw [← views_collected]
  exact observe_foldl_max (Event.collected type) Monitor.apply
    (fun m => m.store.lastCollectionTimes.find type)
    (fun m e => find_apply_collected m e type) rfl history t

theorem lastCollectionTimes_le (m : Monitor) (later : List Event) (type : Bytes) (t : Timestamp)
    (h : m.store.lastCollectionTimes.find type = some t) :
    ∃ u, (m.after later).store.lastCollectionTimes.find type = some u ∧ t ≤ u :=
  observe_foldl_le (Event.collected type) Monitor.apply
    (fun m => m.store.lastCollectionTimes.find type)
    (fun m e => find_apply_collected m e type) h later

theorem mem_unhealthyComponents (history : List Event) (component : Bytes) :
    component ∈ (Monitor.init.after history).checker.unhealthyComponents ↔
      .setUnhealthy component ∈ history := by
  induction history using List.reverseRecOn with
  | nil => simp [Monitor.after, Monitor.init, init]
  | append_singleton history e ih =>
    have hconcat : Monitor.init.after (history ++ [e]) = (Monitor.init.after history).apply e := by
      simp [Monitor.after]
    rw [hconcat, List.mem_append, List.mem_singleton, ← ih]
    cases e with
    | setUnhealthy c => simp [Monitor.apply, setUnhealthy, or_comm]
    | store call => simp [Monitor.apply]

/-- A type is stale when it was collected, every time before the cutoff. -/
theorem exists_find_lt_iff (history : List Event) (type : Bytes) (cutoff : Timestamp) :
    (∃ t, (Monitor.init.after history).store.lastCollectionTimes.find type = some t ∧ t < cutoff) ↔
      (collections history type).Nonempty ∧ ∀ t ∈ collections history type, t < cutoff := by
  constructor
  · rintro ⟨t, hfind, ht⟩
    have hgreatest := (find_lastCollectionTimes history type t).mp hfind
    exact ⟨⟨t, hgreatest.1⟩, fun u hu => lt_of_le_of_lt (hgreatest.2 hu) ht⟩
  · rintro ⟨hsome, hall⟩
    cases hfind : (Monitor.init.after history).store.lastCollectionTimes.find type with
    | some t =>
      exact ⟨t, rfl, hall t ((find_lastCollectionTimes history type t).mp hfind).1⟩
    | none =>
      have hempty : views (Event.collected type) history = ∅ :=
        (observe_foldl_eq_none (Event.collected type) Monitor.apply
          (fun m => m.store.lastCollectionTimes.find type)
          (fun m e => find_apply_collected m e type) rfl history).mp hfind
      rw [views_collected] at hempty
      exact absurd hempty hsome.ne_empty

/-- The unhealthy components are a function of the history: those that were set, and the types
whose every collection is older than the limit. The last collection time of a type is the highest
one recorded, so it never goes down, and neither purges nor ignored updates touch it. -/
theorem unhealthy_of_history (history : List Event) (maxAge : ℤ) (now : Timestamp) :
    ((Monitor.init.after history).checker.unhealthy (Monitor.init.after history).store maxAge now :
      Set Bytes) =
      {component | .setUnhealthy component ∈ history} ∪
        {type | (collections history type).Nonempty ∧
          ∀ t ∈ collections history type, t < now - maxAge * 1000000000} ∧
    (∀ type t, (Monitor.init.after history).store.lastCollectionTimes.find type = some t ↔
      IsGreatest (collections history type) t) ∧
    (∀ later type t, (Monitor.init.after history).store.lastCollectionTimes.find type = some t →
      ∃ u, (Monitor.init.after (history ++ later)).store.lastCollectionTimes.find type = some u ∧
        t ≤ u) ∧
    (∀ s : MetadataStore, s.purgeDeletedEntries.lastCollectionTimes = s.lastCollectionTimes) ∧
    (∀ (s : MetadataStore) resource entry, entry.ignore = true →
      (s.updateMetadata resource entry).lastCollectionTimes = s.lastCollectionTimes) := by
  refine ⟨?_, find_lastCollectionTimes history, ?_, fun s => rfl, ?_⟩
  · ext component
    rw [Finset.mem_coe, mem_unhealthy, mem_unhealthyComponents, exists_find_lt_iff]
    rfl
  · intro later type t h
    rw [Monitor.after, List.foldl_append]
    exact lastCollectionTimes_le _ later type t h
  · intro s resource entry hignore
    rw [updateMetadata, if_pos hignore]

example : (Monitor.init.after [.setUnhealthy (lit "kubernetes_pod_thread"),
    .store (.updateMetadata ⟨lit "my_resource", .empty⟩ ⟨[], false, 0, 5, .null, false⟩),
    .store (.updateMetadata ⟨lit "my_resource", .empty⟩ ⟨[], false, 0, 3, .null, false⟩)]
    ).store.lastCollectionTimes.find (lit "my_resource") = some 5 := by decide +kernel

end HealthChecker

end MetadataAgent
