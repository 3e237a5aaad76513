import MetadataAgent.Kubernetes.Query
import MetadataAgent.Kubernetes.WatchMaster
import MetadataAgent.Serving

/-! # The threads of the watches

With watches the Kubernetes updater has a thread for each of them. A thread goes from connection
to connection in `WatchMaster`, at its own pace, and when that is over it reports a component
as unhealthy; nothing starts it again, and a stop request does not reach it. The thread that polls
when there are no watches is left out. -/
namespace MetadataAgent.KubernetesUpdater
open Lib MetadataStore
open KubernetesReader hiding Connection
open HealthChecker (Monitor mem_unhealthy)
open MetadataApiServer (handleHealthz component_in_body)
set_option autoImplicit false

/-! ## Threads -/

structure UpdaterOptions extends QueryOptions, WatchOptions where
  kubernetesUseWatch : Bool
  kubernetesServiceMetadata : Bool

inductive WatchThread where
  | nodes
  | pods
  | services
  | endpoints
  deriving DecidableEq

/-- What a thread passes to `SetUnhealthy` in the end. -/
def WatchThread.component : WatchThread → Bytes
  | .nodes => lit "kubernetes_node_thread"
  | .pods => lit "kubernetes_pod_thread"
  | .services => lit "kubernetes_service_thread"
  | .endpoints => lit "kubernetes_endpoints_thread"

/-- What a thread passes to `WatchMaster`. -/
def WatchThread.path (options : UpdaterOptions) : WatchThread → Bytes
  | .nodes => kubernetesEndpointPath ++ lit "/watch/nodes/" ++ options.nodeName
  | .pods => options.podsPath
  | .services => kubernetesEndpointPath ++ lit "/watch/services/"
  | .endpoints => kubernetesEndpointPath ++ lit "/watch/endpoints/"

/-- The threads that `StartUpdater` creates. -/
def startUpdater (options : UpdaterOptions) : List WatchThread :=
  if options.kubernetesUseWatch then
    if options.kubernetesClusterLevelMetadata && options.kubernetesServiceMetadata then
      [.nodes, .pods, .services, .endpoints]
    else [.nodes, .pods]
  else []

/-- A thread is in the loop, or has left it. -/
structure UpdaterState where
  threads : WatchThread → Option (Watched ⊕ WatchLoop)
  monitor : Monitor

/-- A turn of a loop, a call of the store by whatever thread, or `NotifyStop`. -/
inductive UpdaterStep where
  | turn (thread : WatchThread)
  | store (call : Call)
  | notifyStop
  deriving DecidableEq

section Updater
variable (config : Configuration) (options : UpdaterOptions)
variable (connections : WatchThread → ℕ → KubernetesReader.Connection)

def started : UpdaterState where
  threads thread := if thread ∈ startUpdater options then some (.inr ⟨0, 0⟩) else none
  monitor := .init

def loopTurn (thread : WatchThread) : WatchLoop → Watched ⊕ WatchLoop :=
  watchTurn options.toWatchOptions (watchEndpoint config (thread.path options))
    (connections thread)

def turn (s : UpdaterState) (thread : WatchThread) : UpdaterState :=
  match s.threads thread with
  | some (.inr loop) =>
    match loopTurn config options connections thread loop with
    | .inr next => { s with threads := Function.update s.threads thread (some (.inr next)) }
    | .inl ended => {
        threads := Function.update s.threads thread (some (.inl ended))
        monitor := s.monitor.apply (.setUnhealthy thread.component) }
  | _ => s

def step (s : UpdaterState) : UpdaterStep → UpdaterState
  | .turn thread => turn config options connections s thread
  | .store call => { s with monitor := s.monitor.apply (.store call) }
  | .notifyStop => s

/-- The state after the steps of all threads, in any order. -/
def after (run : List UpdaterStep) : UpdaterState :=
  run.foldl (step config options connections) (started options)

/-! ## Their steps -/

variable {config options connections}

theorem turn_threads (s : UpdaterState) (thread other : WatchThread) :
    (turn config options connections s thread).threads other =
      if other = thread then
        (s.threads other).map (advance (loopTurn config options connections other))
      else s.threads other := by
  by_cases hother : other = thread
  · subst hother
    rw [if_pos rfl, turn]
    rcases hthread : s.threads other with _ | ended | loop
    · exact hthread
    · exact hthread
    · rw [Option.map_some, advance]
      simp only
      cases loopTurn config options connections other loop with
      | inl ended => exact Function.update_self other _ _
      | inr next => exact Function.update_self other _ _
  · rw [if_neg hother, turn]
    rcases s.threads thread with _ | ended | loop
    · rfl
    · rfl
    · simp only
      cases loopTurn config options connections thread loop with
      | inl ended => exact Function.update_of_ne hother _ _
      | inr next => exact Function.update_of_ne hother _ _

theorem after_concat (run : List UpdaterStep) (l : UpdaterStep) :
    after config options connections (run ++ [l]) =
      step config options connections (after config options connections run) l := by
  rw [after, List.foldl_append]
  rfl

/-- A thread is where its own turns have taken it. -/
theorem threads_after (run : List UpdaterStep) (thread : WatchThread) :
    (after config options connections run).threads thread =
      ((started options).threads thread).map
        (advance (loopTurn config options connections thread))^[run.count (.turn thread)] := by
  induction run using List.reverseRecOn with
  | nil => exact (congrFun Option.map_id _).symm
  | append_singleton run l ih =>
    rw [after_concat, List.count_append]
    cases l with
    | turn other =>
      rw [step, turn_threads, ih]
      by_cases hother : thread = other
      · subst hother
        rw [if_pos rfl, List.count_singleton_self, Function.iterate_succ', Option.map_map]
      · have hcount : [UpdaterStep.turn other].count (.turn thread) = 0 := by
          rw [List.count_eq_zero, List.mem_singleton, UpdaterStep.turn.injEq]
          exact hother
        rw [if_neg hother, hcount, Nat.add_zero]
    | store call => exact ih
    | notifyStop => exact ih

theorem component_injective : Function.Injective WatchThread.component := by
  intro thread other h
  revert h
  cases thread <;> cases other <;> decide

/-- A component is reported by the turn in which its thread leaves the loop. -/
theorem component_turn (s : UpdaterState) (thread other : WatchThread) :
    other.component ∈ (turn config options connections s thread).monitor.checker.unhealthyComponents ↔
      other.component ∈ s.monitor.checker.unhealthyComponents ∨
        other = thread ∧ ∃ loop ended, s.threads thread = some (.inr loop) ∧
          loopTurn config options connections thread loop = .inl ended := by
  rw [turn]
  rcases hthread : s.threads thread with _ | ended | loop
  · simp
  · simp
  · simp only
    cases hturn : loopTurn config options connections thread loop with
    | inr next => simp [hturn]
    | inl ended =>
      have hset : (s.monitor.apply (.setUnhealthy thread.component)).checker.unhealthyComponents =
          insert thread.component s.monitor.checker.unhealthyComponents := rfl
      simp only [hset, Finset.mem_insert, component_injective.eq_iff]
      constructor
      · rintro (rfl | h)
        · exact .inr ⟨rfl, loop, ended, rfl, hturn⟩
        · exact .inl h
      · rintro (h | ⟨rfl, -⟩)
        · exact .inr h
        · exact .inl rfl

/-- The components that are reported are those of the threads that have left their loops. -/
theorem component_after (run : List UpdaterStep) (thread : WatchThread) :
    thread.component ∈
        (after config options connections run).monitor.checker.unhealthyComponents ↔
      ∃ ended, (after config options connections run).threads thread = some (.inl ended) := by
  induction run using List.reverseRecOn with
  | nil =>
    refine iff_of_false (Finset.notMem_empty _) ?_
    rintro ⟨ended, h⟩
    rw [after, List.foldl_nil, started] at h
    simp only at h
    split at h <;> cases h
  | append_singleton run l ih =>
    rw [after_concat]
    cases l with
    | turn other =>
      rw [step, component_turn, turn_threads, ih]
      by_cases hother : thread = other
      · subst hother
        rw [if_pos rfl]
        rcases (after config options connections run).threads thread with _ | ended | loop
        · simp
        · simp [advance]
        · simp [advance]
      · rw [if_neg hother]
        simp [hother]
    | store call => exact ih
    | notifyStop => exact ih

theorem ended_iff (run : List UpdaterStep) (thread : WatchThread) (ended : Watched) :
    (after config options connections run).threads thread = some (.inl ended) ↔
      thread ∈ startUpdater options ∧
        watchMaster options.toWatchOptions (connections thread) config (thread.path options)
          (run.count (.turn thread)) = some ended := by
  rw [threads_after, watchMaster, iterate_eq_some_iff_advance, started]
  simp only
  by_cases hthread : thread ∈ startUpdater options
  · rw [if_pos hthread, Option.map_some, Option.some.injEq]
    exact (and_iff_right hthread).symm
  · rw [if_neg hthread]
    exact iff_of_false nofun fun h => hthread h.1

theorem component_stays {run : List UpdaterStep} {thread : WatchThread}
    (h : thread.component ∈
      (after config options connections run).monitor.checker.unhealthyComponents)
    (later : List UpdaterStep) :
    thread.component ∈
      (after config options connections (run ++ later)).monitor.checker.unhealthyComponents := by
  induction later using List.reverseRecOn with
  | nil =>
    rw [List.append_nil]
    exact h
  | append_singleton later l ih =>
    rw [← List.append_assoc, after_concat]
    cases l with
    | turn other => exact (component_turn _ other thread).mpr (.inl ih)
    | store call => exact ih
    | notifyStop => exact ih

/-- Whatever order the threads take their turns in, a thread is reported exactly if it was started
and `WatchMaster`, called alone with the turns that the thread has had, is over; from then on every
health response names it, for all that the store is told later. -/
theorem ended_watch_reported (config : Configuration) (options : UpdaterOptions)
    (connections : WatchThread → ℕ → KubernetesReader.Connection) (run : List UpdaterStep)
    (thread : WatchThread) :
    (thread.component ∈
        (after config options connections run).monitor.checker.unhealthyComponents ↔
      thread ∈ startUpdater options ∧ ∃ ended,
        watchMaster options.toWatchOptions (connections thread) config (thread.path options)
          (run.count (.turn thread)) = some ended) ∧
    (thread.component ∈
        (after config options connections run).monitor.checker.unhealthyComponents →
      ∀ later healthCheckMaxDataAgeSeconds now,
        let m := (after config options connections (run ++ later)).monitor
        (handleHealthz (some m.checker) m.store healthCheckMaxDataAgeSeconds now).status =
            .internalServerError ∧
          thread.component ++ [0x0a] <:+:
            (handleHealthz (some m.checker) m.store healthCheckMaxDataAgeSeconds now).body) := by
  constructor
  · rw [component_after]
    simp only [ended_iff, exists_and_left]
  · intro h later maxAge now
    have hmem := (mem_unhealthy _ (after config options connections (run ++ later)).monitor.store
      maxAge now _).mpr (.inl (component_stays h later))
    exact component_in_body hmem

end Updater

end MetadataAgent.KubernetesUpdater
