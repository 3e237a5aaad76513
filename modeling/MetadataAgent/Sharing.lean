import MetadataAgent.Health
import MetadataAgent.Lib.Interleavings

/-! # What threads share

The updaters and the reporter run in threads of their own, and every call of the store and of the
health checker is made under a lock. What can be read about a resource that one thread alone
reports, about an id that it alone registers and about a type that it alone collects is decided by
the calls of that thread. The calls of the others come in between without an effect, and so do the
purges of the reporter, as far as the entries that are not deleted are concerned. -/
namespace MetadataAgent.HealthChecker
open Lib Json MetadataStore
set_option autoImplicit false

/-! ## Views of the shared state -/

/-- The entry of a resource, unless it is deleted. -/
def live (r : MonitoredResource) (m : Monitor) : Option Metadata :=
  (m.store.metadataMap.find r).filter fun entry => !entry.isDeleted

def lookedUp (id : Bytes) (m : Monitor) : Option MonitoredResource := m.store.lookupResource id

def lastCollected (type : Bytes) (m : Monitor) : Option Timestamp :=
  m.store.lastCollectionTimes.find type

/-- The entry that an event records for a resource. -/
def Event.recorded (r : MonitoredResource) : Event → Option Metadata
  | .setUnhealthy _ => none
  | .store call => call.recorded r

/-- The resource that an event registers under an id. -/
def Event.registered (id : Bytes) : Event → Option MonitoredResource
  | .setUnhealthy _ => none
  | .store call => call.registered id

def undeleted (entry : Metadata) : Option Metadata := if entry.isDeleted then none else some entry

def liveStep (r : MonitoredResource) (entry : Option Metadata) (e : Event) : Option Metadata :=
  ((e.recorded r).map undeleted).getD entry

def lookupStep (id : Bytes) (resource : Option MonitoredResource) (e : Event) :
    Option MonitoredResource :=
  resource.or (e.registered id)

def collectedStep (type : Bytes) (time : Option Timestamp) (e : Event) : Option Timestamp :=
  time.merge max (e.collected type)

theorem live_apply (r : MonitoredResource) (m : Monitor) (e : Event) :
    live r (m.apply e) = liveStep r (live r m) e := by
  rcases e with component | call
  · rfl
  · cases call with
    | updateMetadata resource entry =>
      rw [live, Monitor.apply, MetadataStore.apply, find_updateMetadata, liveStep, Event.recorded,
        Call.recorded]
      by_cases h : entry.ignore = false ∧ r = resource
      · rw [if_pos h, if_pos h, Option.map_some, Option.getD_some, undeleted]
        cases hdeleted : entry.isDeleted <;> simp [Option.filter, hdeleted]
      · rw [if_neg h, if_neg h]
        rfl
    | updateResource ids resource => rfl
    | purgeDeletedEntries =>
      rw [live, Monitor.apply, MetadataStore.apply, find_purgeDeletedEntries, Option.filter_filter]
      simp only [Bool.and_self]
      rfl

theorem lookedUp_apply (id : Bytes) (m : Monitor) (e : Event) :
    lookedUp id (m.apply e) = lookupStep id (lookedUp id m) e := by
  rcases e with component | call
  · exact (Option.or_none).symm
  · have hcall := lookupResource_after m.store [call] id
    rw [List.findSome?_singleton] at hcall
    exact hcall

theorem registered_eq_some {id : Bytes} {e : Event} {r : MonitoredResource} :
    e.registered id = some r ↔ ∃ ids, e = .store (.updateResource ids r) ∧ id ∈ ids := by
  cases e with
  | setUnhealthy component => simp [Event.registered]
  | store call =>
    rw [Event.registered, MetadataStore.registered_eq_some]
    simp only [Event.store.injEq]

theorem registered_eq_none {id : Bytes} {e : Event} :
    e.registered id = none ↔ ∀ ids r, e = .store (.updateResource ids r) → id ∉ ids := by
  rw [← Option.not_isSome_iff_eq_none, Option.isSome_iff_exists]
  simp only [registered_eq_some, not_exists, not_and]
  exact ⟨fun h ids r => h r ids, fun h r ids => h ids r⟩

/-- An id keeps the resource that was registered first. -/
theorem lookupResource_monitor (m : Monitor) (history : List Event) (id : Bytes) :
    (m.after history).store.lookupResource id =
      (m.store.lookupResource id).or (history.findSome? (Event.registered id)) := by
  induction history generalizing m with
  | nil => exact Option.or_none.symm
  | cons e history ih =>
    have hrest := ih (m.apply e)
    have hstep := lookedUp_apply id m e
    rw [lookedUp, lookedUp, lookupStep] at hstep
    rw [hstep, Option.or_assoc] at hrest
    rw [Monitor.after, List.foldl_cons, ← Monitor.after, hrest, List.findSome?_cons]
    cases e.registered id <;> rfl

theorem lastCollected_apply (type : Bytes) (m : Monitor) (e : Event) :
    lastCollected type (m.apply e) = collectedStep type (lastCollected type m) e :=
  find_apply_collected m e type

/-- The live entry is the last one recorded, unless that one is deleted. -/
theorem live_eq_latest (r : MonitoredResource) (history : List Event) :
    live r (Monitor.init.after history) =
      (latest (Event.recorded r) history).bind fun last => undeleted last.1 := by
  rw [Monitor.after, observe_foldl (Event.recorded r) Monitor.apply (live r) undeleted
    (live_apply r)]
  cases latest (Event.recorded r) history <;> rfl

theorem ignore_of_live {r : MonitoredResource} {history : List Event} {entry : Metadata}
    (h : live r (Monitor.init.after history) = some entry) : entry.ignore = false := by
  rw [live_eq_latest, Option.bind_eq_some_iff] at h
  obtain ⟨last, hlast, hentry⟩ := h
  obtain ⟨before, e, -, hrecorded, -⟩ := (latest_eq_some _).mp hlast
  rw [undeleted, Option.ite_none_left_eq_some, Option.some.injEq] at hentry
  rw [← hentry.2]
  rcases e with component | call
  · cases hrecorded
  · exact (recorded_eq_some.mp hrecorded).2

/-- A purge leaves the live entries, and a snapshot shows them as they were recorded. -/
theorem find_getMetadataMap_purged (r : MonitoredResource) (history : List Event) :
    (Monitor.init.after history).store.purgeDeletedEntries.getMetadataMap.find r =
      live r (Monitor.init.after history) := by
  have hpurged := find_purgeDeletedEntries (Monitor.init.after history).store r
  rw [getMetadataMap, OrderedMap.find_mapValues, hpurged]
  cases hlive : live r (Monitor.init.after history) with
  | none =>
    rw [live] at hlive
    rw [hlive, Option.map_none]
  | some entry =>
    have hignore := ignore_of_live hlive
    rw [live] at hlive
    rw [hlive, Option.map_some, clone_of_not_ignore hignore]

/-! ## Threads -/

section Threads
variable {ι : Type} [DecidableEq ι]

/-- The state after the events of all threads, in the order in which they took the locks. -/
def shared (run : List (ι × Event)) : Monitor := Monitor.init.after (run.map Prod.snd)

/-- No other thread reports the resource. -/
def ReportsAlone (run : List (ι × Event)) (i : ι) (r : MonitoredResource) : Prop :=
  ∀ x ∈ run, x.1 ≠ i → x.2.recorded r = none

def RegistersAlone (run : List (ι × Event)) (i : ι) (id : Bytes) : Prop :=
  ∀ x ∈ run, x.1 ≠ i → x.2.registered id = none

def CollectsAlone (run : List (ι × Event)) (i : ι) (type : Bytes) : Prop :=
  ∀ x ∈ run, x.1 ≠ i → x.2.collected type = none

theorem live_shared {run : List (ι × Event)} {i : ι} {r : MonitoredResource}
    (halone : ReportsAlone run i r) :
    live r (shared run) = live r (Monitor.init.after (own i run)) := by
  refine view_eq_own (live_apply r) Monitor.init run fun x hx hother entry => ?_
  rw [liveStep, halone x hx hother]
  rfl

theorem lookedUp_shared {run : List (ι × Event)} {i : ι} {id : Bytes}
    (halone : RegistersAlone run i id) :
    lookedUp id (shared run) = lookedUp id (Monitor.init.after (own i run)) := by
  refine view_eq_own (lookedUp_apply id) Monitor.init run fun x hx hother resource => ?_
  rw [lookupStep, halone x hx hother, Option.or_none]

theorem lastCollected_shared {run : List (ι × Event)} {i : ι} {type : Bytes}
    (halone : CollectsAlone run i type) :
    lastCollected type (shared run) = lastCollected type (Monitor.init.after (own i run)) := by
  refine view_eq_own (lastCollected_apply type) Monitor.init run fun x hx hother time => ?_
  rw [collectedStep, halone x hx hother, Option.merge_none_right]

/-- Whatever the other threads do in between, the entry of a resource is the live one that the
thread which reports it has left, the resource of an id is the one that the thread which registers
it has put there, and the last time of a type is the last of the thread which collects it. -/
theorem threads_do_not_interfere (run : List (ι × Event)) (i : ι) :
    (∀ r, ReportsAlone run i r →
      live r (shared run) = live r (Monitor.init.after (own i run)) ∧
        (shared run).store.purgeDeletedEntries.getMetadataMap.find r =
          live r (Monitor.init.after (own i run))) ∧
    (∀ id, RegistersAlone run i id →
      (shared run).store.lookupResource id =
        (Monitor.init.after (own i run)).store.lookupResource id) ∧
    ∀ type, CollectsAlone run i type →
      (shared run).store.lastCollectionTimes.find type =
        (Monitor.init.after (own i run)).store.lastCollectionTimes.find type := by
  refine ⟨fun r halone => ⟨live_shared halone, ?_⟩, fun id halone => lookedUp_shared halone,
    fun type halone => lastCollected_shared halone⟩
  rw [shared, find_getMetadataMap_purged]
  exact live_shared halone

end Threads

end MetadataAgent.HealthChecker
