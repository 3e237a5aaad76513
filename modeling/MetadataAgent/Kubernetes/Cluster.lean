import MetadataAgent.Kubernetes.Services
import MetadataAgent.Store
import Mathlib.Logic.Function.Basic

/-! # The cluster entry under two watches

`ServiceCallback` and `EndpointsCallback` run in two threads. Each event is three critical
sections: the thread updates its own cache, builds the cluster metadata from both caches, and
writes it to the store. A run is an interleaving of these steps; what the store ends up with is
decided by what the other thread did between the build and the write. -/
namespace MetadataAgent.KubernetesReader
open Lib Json
set_option autoImplicit false

inductive Watch where
  | services | endpoints
  deriving DecidableEq

def Watch.other : Watch → Watch
  | .services => .endpoints
  | .endpoints => .services

def Watch.event : Watch → Object → Bool → ServiceEvent
  | .services, service, isDeleted => .service service isDeleted
  | .endpoints, object, isDeleted => .endpoints object isDeleted

inductive Phase where
  | idle
  | updated
  | built (serviceList : List Value)
  deriving DecidableEq

structure ClusterState where
  caches : ServiceCaches
  store : MetadataStore
  phase : Watch → Phase

/-- `update` is the first step of an event, `build` and `write` are the other two. -/
inductive ClusterStep where
  | update (w : Watch) (object : Object) (isDeleted : Bool)
  | build (w : Watch)
  | write (w : Watch) (collectedAt : Timestamp)
  deriving DecidableEq

def ClusterState.init : ClusterState := ⟨.empty, .empty, fun _ => .idle⟩

def ClusterState.quiet (s : ClusterState) : Prop := ∀ w, s.phase w = .idle

def clusterResource (clusterName location : Bytes) : MonitoredResource :=
  .ofLabels (lit "k8s_cluster") [(lit "cluster_name", clusterName), (lit "location", location)]

/-- `GetClusterMetadata`, from the service list on. -/
def clusterMetadata (version : Bytes) (serviceList : List Value) (collectedAt : Timestamp) :
    Metadata where
  version := version
  isDeleted := false
  createdAt := 0
  collectedAt := collectedAt
  metadata := object [
    (lit "blobs", some (object [(lit "services", some (array (serviceList.map some)))]))]
  ignore := false

theorem clusterMetadata_injective {version : Bytes} {l l' : List Value} {t t' : Timestamp}
    (h : clusterMetadata version l t = clusterMetadata version l' t') : l = l' := by
  have hlists : array (l.map some) = array (l'.map some) := by
    have hmetadata := congrArg Metadata.metadata h
    simpa [clusterMetadata, object, OrderedMap.ofList, OrderedMap.emplace, OrderedMap.empty,
      insertNew] using hmetadata
  simpa [array] using hlists

section Run
variable (clusterName location version : Bytes)

def clusterStep (s : ClusterState) : ClusterStep → Option ClusterState
  | .update w object isDeleted =>
    match s.phase w with
    | .idle =>
      match s.caches.apply (w.event object isDeleted) with
      | (caches, .ok ()) =>
        some { s with caches := caches, phase := Function.update s.phase w .updated }
      | (caches, .error _) => some { s with caches := caches }
    | _ => none
  | .build w =>
    match s.phase w with
    | .updated =>
      some { s with
        phase := Function.update s.phase w
          (.built (getServiceList s.caches clusterName location)) }
    | _ => none
  | .write w collectedAt =>
    match s.phase w with
    | .built serviceList =>
      some { s with
        store := s.store.updateMetadata (clusterResource clusterName location)
          (clusterMetadata version serviceList collectedAt)
        phase := Function.update s.phase w .idle }
    | _ => none

def ClusterStep.event? : ClusterStep → Option ServiceEvent
  | .update w object isDeleted => some (w.event object isDeleted)
  | .build _ => none
  | .write _ _ => none

def events (steps : List ClusterStep) : List ServiceEvent := steps.filterMap ClusterStep.event?

def serviceListAfter (h : List ServiceEvent) : List Value :=
  getServiceList (ServiceCaches.empty.after h) clusterName location

/-! ## What a step does -/

theorem step_update {s t : ClusterState} {w : Watch} {o : Object} {d : Bool}
    (h : clusterStep clusterName location version s (.update w o d) = some t) :
    s.phase w = .idle ∧ t.caches = (s.caches.apply (w.event o d)).1 ∧ t.store = s.store ∧
      (t.phase = Function.update s.phase w .updated ∨ t.phase = s.phase ∧ t.caches = s.caches) := by
  rw [clusterStep] at h
  split at h
  · rename_i hw
    refine ⟨hw, ?_⟩
    split at h
    · rename_i caches hok
      rw [Option.some.injEq] at h
      rw [← h, hok]
      exact ⟨rfl, rfl, .inl rfl⟩
    · rename_i caches x herror
      rw [Option.some.injEq] at h
      have hsame : (s.caches.apply (w.event o d)).1 = s.caches :=
        apply_error (congrArg Prod.snd herror)
      rw [herror] at hsame
      rw [← h, herror]
      exact ⟨rfl, rfl, .inr ⟨rfl, hsame⟩⟩
  · cases h

theorem step_build {s t : ClusterState} {w : Watch}
    (h : clusterStep clusterName location version s (.build w) = some t) :
    t.caches = s.caches ∧ t.store = s.store ∧
      t.phase = Function.update s.phase w
        (.built (getServiceList s.caches clusterName location)) := by
  rw [clusterStep] at h
  split at h
  · rw [Option.some.injEq] at h
    rw [← h]
    exact ⟨rfl, rfl, rfl⟩
  · cases h

theorem step_write {s t : ClusterState} {w : Watch} {collectedAt : Timestamp}
    (h : clusterStep clusterName location version s (.write w collectedAt) = some t) :
    ∃ serviceList, s.phase w = .built serviceList ∧ t.caches = s.caches ∧
      t.store = s.store.updateMetadata (clusterResource clusterName location)
        (clusterMetadata version serviceList collectedAt) ∧
      t.phase = Function.update s.phase w .idle := by
  rw [clusterStep] at h
  split at h
  · rename_i serviceList hw
    rw [Option.some.injEq] at h
    rw [← h]
    exact ⟨serviceList, hw, rfl, rfl, rfl⟩
  · cases h

/-! ## The caches and the lists of a run -/

theorem run_caches (steps : List ClusterStep) (s : ClusterState)
    (h : run (clusterStep clusterName location version) .init steps = some s) :
    s.caches = ServiceCaches.empty.after (events steps) := by
  refine run_induction (clusterStep clusterName location version)
    (P := fun ls s => s.caches = ServiceCaches.empty.after (events ls)) rfl ?_ steps s h
  intro ls m l t _ hm hl
  have hevents : events (ls ++ [l]) = events ls ++ l.event?.toList := by
    rw [events, List.filterMap_append]
    cases l <;> rfl
  rw [hevents, ServiceCaches.after_append, ← hm]
  cases l with
  | update w o d => exact (step_update clusterName location version hl).2.1
  | build w => exact (step_build clusterName location version hl).1
  | write w collectedAt =>
    obtain ⟨_, _, hcaches, _⟩ := step_write clusterName location version hl
    exact hcaches

theorem run_built (steps : List ClusterStep) (s : ClusterState)
    (h : run (clusterStep clusterName location version) .init steps = some s) :
    ∀ w serviceList, s.phase w = .built serviceList → ∃ before mid,
      steps = before ++ .build w :: mid ∧ .build w ∉ mid ∧
        serviceList = serviceListAfter clusterName location (events before) := by
  refine run_induction (clusterStep clusterName location version) (P := fun ls s =>
    ∀ w serviceList, s.phase w = .built serviceList → ∃ before mid,
      ls = before ++ .build w :: mid ∧ .build w ∉ mid ∧
        serviceList = serviceListAfter clusterName location (events before)) ?_ ?_ steps s h
  · intro w serviceList hw
    cases hw
  intro ls m l t hrun hm hl w serviceList hw
  -- a step that is not this thread's build only makes the rest longer
  have hextend : m.phase w = .built serviceList → l ≠ .build w → ∃ before mid,
      ls ++ [l] = before ++ .build w :: mid ∧ .build w ∉ mid ∧
        serviceList = serviceListAfter clusterName location (events before) := by
    intro hmw hne
    obtain ⟨before, mid, rfl, hmid, hlist⟩ := hm w serviceList hmw
    refine ⟨before, mid ++ [l], by simp, ?_, hlist⟩
    simpa [hmid] using Ne.symm hne
  cases l with
  | update v o d =>
    obtain ⟨_, _, _, hphase | ⟨hphase, _⟩⟩ := step_update clusterName location version hl
    · rw [hphase] at hw
      by_cases hv : w = v
      · subst hv
        rw [Function.update_self] at hw
        cases hw
      · rw [Function.update_of_ne hv] at hw
        exact hextend hw (by simp)
    · rw [hphase] at hw
      exact hextend hw (by simp)
  | build v =>
    rw [(step_build clusterName location version hl).2.2] at hw
    by_cases hv : w = v
    · subst hv
      rw [Function.update_self, Phase.built.injEq] at hw
      refine ⟨ls, [], rfl, by simp, ?_⟩
      rw [← hw, serviceListAfter, run_caches clusterName location version ls m hrun]
    · rw [Function.update_of_ne hv] at hw
      exact hextend hw (by simpa using Ne.symm hv)
  | write v collectedAt =>
    obtain ⟨_, _, _, _, hphase⟩ := step_write clusterName location version hl
    rw [hphase] at hw
    by_cases hv : w = v
    · subst hv
      rw [Function.update_self] at hw
      cases hw
    · rw [Function.update_of_ne hv] at hw
      exact hextend hw (by simp)

/-! ## When the cluster entry is current -/

def Written (steps : List ClusterStep) : Prop := ∃ w collectedAt, .write w collectedAt ∈ steps

/-- The cluster entry carries the list that the present caches give. -/
def ClusterCurrent (s : ClusterState) : Prop :=
  ∃ collectedAt, s.store.getMetadataMap.find (clusterResource clusterName location) =
    some (clusterMetadata version (getServiceList s.caches clusterName location) collectedAt)

/-- In every state of the run with no event under way, the cluster entry is current. -/
def NoLostUpdate (steps : List ClusterStep) : Prop :=
  ∀ before after, steps = before ++ after →
    ∀ s, run (clusterStep clusterName location version) .init before = some s →
      s.quiet → Written before → ClusterCurrent clusterName location version s

/-- At every write with the other thread between two events, the events begun since the list was
built have not changed it. -/
def WritesFresh (steps : List ClusterStep) : Prop :=
  ∀ before w mid collectedAt after,
    steps = before ++ .build w :: mid ++ .write w collectedAt :: after → .build w ∉ mid →
      ∀ s, run (clusterStep clusterName location version) .init (before ++ .build w :: mid) =
          some s → s.phase w.other = .idle →
        serviceListAfter clusterName location (events before) =
          serviceListAfter clusterName location (events before ++ events mid)

theorem WritesFresh.of_append {before after : List ClusterStep}
    (h : WritesFresh clusterName location version (before ++ after)) :
    WritesFresh clusterName location version before := by
  intro pre w mid collectedAt post hsplit hmid s hs hother
  refine h pre w mid collectedAt (post ++ after) ?_ hmid s hs hother
  rw [hsplit, List.append_assoc, List.cons_append]

theorem events_append (ls ms : List ClusterStep) : events (ls ++ ms) = events ls ++ events ms :=
  List.filterMap_append

theorem events_build {before mid : List ClusterStep} {w : Watch} :
    events (before ++ .build w :: mid) = events before ++ events mid := by
  rw [events_append]
  rfl

theorem Watch.other_ne (w : Watch) : w.other ≠ w := by
  cases w <;> decide

theorem current_of_writesFresh (steps : List ClusterStep) (s : ClusterState)
    (h : run (clusterStep clusterName location version) .init steps = some s) :
    WritesFresh clusterName location version steps → s.quiet → Written steps →
      ClusterCurrent clusterName location version s := by
  refine run_induction (clusterStep clusterName location version) (P := fun ls s =>
    WritesFresh clusterName location version ls → s.quiet → Written ls →
      ClusterCurrent clusterName location version s) ?_ ?_ steps s h
  · rintro _ _ ⟨w, collectedAt, hmem⟩
    simp at hmem
  intro ls m l t hrun ih hl hfresh hquiet hwritten
  cases l with
  | update w o d =>
    obtain ⟨_, _, hstore, hphase | ⟨hphase, hcaches⟩⟩ :=
      step_update clusterName location version hl
    · have hw := hquiet w
      rw [hphase, Function.update_self] at hw
      cases hw
    · have hquiet' : m.quiet := fun v => hphase ▸ hquiet v
      have hwritten' : Written ls := by
        obtain ⟨v, collectedAt, hmem⟩ := hwritten
        exact ⟨v, collectedAt, by simpa using hmem⟩
      have hcurrent := ih hfresh.of_append hquiet' hwritten'
      unfold ClusterCurrent at hcurrent ⊢
      rw [hstore, hcaches]
      exact hcurrent
  | build w =>
    have hw := hquiet w
    rw [(step_build clusterName location version hl).2.2, Function.update_self] at hw
    cases hw
  | write w collectedAt =>
    obtain ⟨serviceList, hbuilt, hcaches, hstore, hphase⟩ :=
      step_write clusterName location version hl
    obtain ⟨before, mid, hsplit, hmid, hlist⟩ :=
      run_built clusterName location version ls m hrun w serviceList hbuilt
    have hother : m.phase w.other = .idle := by
      have hquiet' := hquiet w.other
      rw [hphase, Function.update_of_ne w.other_ne] at hquiet'
      exact hquiet'
    have hrun' : run (clusterStep clusterName location version) .init (before ++ .build w :: mid) =
        some m := by
      rw [← hsplit]
      exact hrun
    have hsame := hfresh before w mid collectedAt [] (by rw [hsplit]) hmid m hrun' hother
    have hnow : getServiceList t.caches clusterName location = serviceList := by
      rw [hcaches, run_caches clusterName location version ls m hrun, hsplit, events_build,
        hlist, hsame, serviceListAfter]
    refine ⟨collectedAt, ?_⟩
    rw [hstore, hnow]
    exact MetadataStore.find_getMetadataMap_updateMetadata _ _ rfl

/-- No cluster update is lost in a run exactly when no quiet write of it brings a list that the
other thread's events have changed since it was built. -/
theorem no_lost_update_iff (steps : List ClusterStep) (t : ClusterState)
    (h : run (clusterStep clusterName location version) .init steps = some t) :
    NoLostUpdate clusterName location version steps ↔
      WritesFresh clusterName location version steps := by
  constructor
  · intro hcurrent before w mid collectedAt after hsplit hmid s hs hother
    rw [hsplit, run_append, hs, Option.bind_some, run, Option.bind_eq_some_iff] at h
    obtain ⟨u, hu, _⟩ := h
    obtain ⟨serviceList, hbuilt, hcaches, hstore, hphase⟩ :=
      step_write clusterName location version hu
    obtain ⟨before', mid', hsplit', hmid', hlist⟩ :=
      run_built clusterName location version _ s hs w serviceList hbuilt
    obtain ⟨rfl, rfl⟩ := last_split_unique hmid hmid' hsplit'
    have hquiet : u.quiet := by
      intro v
      rw [hphase]
      by_cases hv : v = w
      · rw [hv, Function.update_self]
      · have hvo : v = w.other := by cases v <;> cases w <;> first | rfl | exact absurd rfl hv
        rw [Function.update_of_ne hv, hvo, hother]
    have hrun : run (clusterStep clusterName location version) .init
        (before ++ .build w :: mid ++ [.write w collectedAt]) = some u :=
      (run_concat _).mpr ⟨s, hs, hu⟩
    obtain ⟨t', hfind⟩ := hcurrent (before ++ .build w :: mid ++ [.write w collectedAt]) after
      (by rw [hsplit]; simp) u hrun hquiet ⟨w, collectedAt, by simp⟩
    rw [hstore, MetadataStore.find_getMetadataMap_updateMetadata _ _ rfl, Option.some.injEq]
      at hfind
    have hlists := clusterMetadata_injective hfind
    rw [← hlist, hlists, hcaches, run_caches clusterName location version _ s hs, events_build,
      serviceListAfter]
  · intro hfresh before after hsplit s hs hquiet hwritten
    rw [hsplit] at hfresh
    exact current_of_writesFresh clusterName location version before s hs hfresh.of_append hquiet
      hwritten

/-- Whether the write `n` steps behind the build at `i` is fresh, if the two belong together. -/
def freshAt (steps : List ClusterStep) (i n : ℕ) : Bool :=
  match steps[i]?, steps[i + 1 + n]? with
  | some (.build w), some (.write v _) =>
    let before := steps.take i
    let mid := (steps.drop (i + 1)).take n
    decide (v = w → .build w ∉ mid →
      ((run (clusterStep clusterName location version) .init (before ++ .build w :: mid)).any
        fun s => decide (s.phase w.other = .idle)) = true →
      serviceListAfter clusterName location (events before) =
        serviceListAfter clusterName location (events before ++ events mid))
  | _, _ => true

theorem writesFresh_of_freshAt {steps : List ClusterStep}
    (h : ∀ i < steps.length, ∀ n < steps.length,
      freshAt clusterName location version steps i n = true) :
    WritesFresh clusterName location version steps := by
  intro before w mid collectedAt after hsplit hmid s hs hother
  have hsteps : steps.length = before.length + 1 + mid.length + 1 + after.length := by
    rw [hsplit]
    simp only [List.length_append, List.length_cons]
    omega
  have hfresh := h before.length (by omega) mid.length (by omega)
  have hbuild : steps[before.length]? = some (.build w) := by simp [hsplit]
  have hwrite : steps[before.length + 1 + mid.length]? = some (.write w collectedAt) := by
    have hlength : before.length + 1 + mid.length = (before ++ .build w :: mid).length := by
      simp only [List.length_append, List.length_cons]
      omega
    rw [hsplit, hlength, List.getElem?_append_right le_rfl, Nat.sub_self]
    rfl
  have hbefore : steps.take before.length = before := by simp [hsplit]
  have hmiddle : (steps.drop (before.length + 1)).take mid.length = mid := by
    have hrest : steps.drop (before.length + 1) = mid ++ .write w collectedAt :: after := by
      rw [hsplit, List.append_assoc, List.drop_length_add_append]
      rfl
    rw [hrest, List.take_left]
  have hidle : ((run (clusterStep clusterName location version) .init
      (before ++ .build w :: mid)).any fun s => decide (s.phase w.other = .idle)) = true := by
    rw [hs]
    exact decide_eq_true hother
  simp only [freshAt, hbuild, hwrite, hbefore, hmiddle, decide_eq_true_eq] at hfresh
  exact hfresh trivial hmid hidle

end Run

def webMetadata : Value :=
  .object [(lit "name", .string (lit "web")), (lit "namespace", .string (lit "default"))]

def webService : Object := [(lit "metadata", webMetadata)]

def webEndpoints : Object := [
  (lit "metadata", webMetadata),
  (lit "subsets", .array [.object [(lit "addresses", .array [.object [
    (lit "targetRef", .object [
      (lit "kind", .string (lit "Pod")),
      (lit "name", .string (lit "web-0"))])]])]])]

/-- The service thread builds its list, the endpoints thread goes through a whole event, and then
the service thread writes. -/
def overtakenWrite : List ClusterStep :=
  [.update .services webService false, .build .services, .update .endpoints webEndpoints false,
    .build .endpoints, .write .endpoints 1, .write .services 2]

theorem overtakenWrite_runs :
    (run (clusterStep (lit "cluster") (lit "us-east1") (lit "0.1")) .init
      overtakenWrite).isSome = true := by decide +kernel

def overtakenState : ClusterState :=
  (run (clusterStep (lit "cluster") (lit "us-east1") (lit "0.1")) .init overtakenWrite).get
    overtakenWrite_runs

theorem overtaken_write_lost :
    ¬NoLostUpdate (lit "cluster") (lit "us-east1") (lit "0.1") overtakenWrite := by
  intro h
  have hrun : run (clusterStep (lit "cluster") (lit "us-east1") (lit "0.1")) .init
      overtakenWrite = some overtakenState := (Option.some_get _).symm
  have hquiet : overtakenState.quiet := by
    intro w
    cases w <;> decide +kernel
  obtain ⟨collectedAt, hfind⟩ := h overtakenWrite [] (by simp) overtakenState hrun hquiet
    ⟨.services, 2, by simp [overtakenWrite]⟩
  have hstored : (overtakenState.store.getMetadataMap.find
      (clusterResource (lit "cluster") (lit "us-east1"))).map Metadata.metadata =
      some (clusterMetadata (lit "0.1")
        (getServiceList overtakenState.caches (lit "cluster") (lit "us-east1")) 0).metadata :=
    congrArg (Option.map Metadata.metadata) hfind
  exact absurd hstored (by decide +kernel)

/-- The endpoints thread goes through the same event twice, the second time between the build and
the write of the service thread. -/
def interleavedWrites : List ClusterStep :=
  [.update .endpoints webEndpoints false, .build .endpoints, .update .services webService false,
    .write .endpoints 1, .build .services, .update .endpoints webEndpoints false,
    .build .endpoints, .write .endpoints 2, .write .services 3]

theorem interleaved_writes_not_lost :
    NoLostUpdate (lit "cluster") (lit "us-east1") (lit "0.1") interleavedWrites := by
  have hsome : (run (clusterStep (lit "cluster") (lit "us-east1") (lit "0.1")) .init
      interleavedWrites).isSome = true := by decide +kernel
  obtain ⟨t, ht⟩ := Option.isSome_iff_exists.mp hsome
  refine (no_lost_update_iff (lit "cluster") (lit "us-east1") (lit "0.1") interleavedWrites t
    ht).mpr (writesFresh_of_freshAt _ _ _ ?_)
  decide +kernel

end MetadataAgent.KubernetesReader
