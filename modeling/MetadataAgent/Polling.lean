import MetadataAgent.Kubernetes.Pods
import MetadataAgent.Reporter.Stop

/-! # Stopping a polling updater

`PollingMetadataUpdater` queries and stores in a thread of its own until a `Wait` finds the lock of
the timer free. `StartUpdater` takes the lock before there is a thread, so a stop request that
comes after `Start` is never undone. -/
namespace MetadataAgent.PollingMetadataUpdater
open Lib
open KubernetesReader (ResourceMetadata)
open MetadataReporter (TimerImpl)
set_option autoImplicit false

/-! ## The updater and a stop request -/

/-- The store updates for one result: `UpdateResourceCallback`, then `UpdateMetadataCallback`. -/
def storeCalls (result : ResourceMetadata) : List MetadataStore.Call :=
  [.updateResource result.ids result.resource, .updateMetadata result.resource result.metadata]

/-- Where `StartUpdater` is. -/
inductive StartPoint where
  | constructed
  | timerInitialized
  | started
  deriving DecidableEq

/-- Where the thread is in `PollForMetadata`, with the store updates still to make. -/
inductive PollPoint where
  | notCreated
  | beforeQuery
  | querying
  | updating (calls : List MetadataStore.Call)
  | waiting
  | exited

structure PollState where
  timer : TimerImpl
  start : StartPoint
  thread : PollPoint
  store : MetadataStore

/-- A step of `StartUpdater` or of the thread, or the call of `NotifyStop`. -/
inductive PollLabel where
  | initTimer
  | createThread
  | beginQuery
  | endQuery (results : List ResourceMetadata)
  | updateStore
  | endUpdates
  | wait
  | notifyStop
  deriving DecidableEq

/-- The state in which the constructor leaves the updater. -/
def PollState.constructed (store : MetadataStore) : PollState :=
  ⟨⟨false⟩, .constructed, .notCreated, store⟩

def pollStep (s : PollState) : PollLabel → Option PollState
  | .initTimer =>
    match s.start with
    | .constructed => s.timer.init.map fun timer =>
        { s with timer := timer, start := .timerInitialized }
    | _ => none
  | .createThread =>
    match s.start with
    | .timerInitialized => some { s with start := .started, thread := .beforeQuery }
    | _ => none
  | .beginQuery =>
    match s.thread with
    | .beforeQuery => some { s with thread := .querying }
    | _ => none
  | .endQuery results =>
    match s.thread with
    | .querying => some { s with thread := .updating (results.flatMap storeCalls) }
    | _ => none
  | .updateStore =>
    match s.thread with
    | .updating (call :: calls) =>
      some { s with thread := .updating calls, store := s.store.apply call }
    | _ => none
  | .endUpdates =>
    match s.thread with
    | .updating [] => some { s with thread := .waiting }
    | _ => none
  | .wait =>
    match s.thread with
    | .waiting =>
      some { s with
        timer := s.timer.wait.2
        thread := if s.timer.wait.1 then .beforeQuery else .exited }
    | _ => none
  | .notifyStop => some { s with timer := s.timer.cancel }

/-- What a step can do. -/
inductive PollMove : PollState → PollLabel → PollState → Prop
  | initTimer {thread : PollPoint} {store : MetadataStore} :
      PollMove ⟨⟨false⟩, .constructed, thread, store⟩ .initTimer
        ⟨⟨true⟩, .timerInitialized, thread, store⟩
  | createThread {timer : TimerImpl} {thread : PollPoint} {store : MetadataStore} :
      PollMove ⟨timer, .timerInitialized, thread, store⟩ .createThread
        ⟨timer, .started, .beforeQuery, store⟩
  | beginQuery {timer : TimerImpl} {start : StartPoint} {store : MetadataStore} :
      PollMove ⟨timer, start, .beforeQuery, store⟩ .beginQuery ⟨timer, start, .querying, store⟩
  | endQuery {timer : TimerImpl} {start : StartPoint} {store : MetadataStore}
      {results : List ResourceMetadata} :
      PollMove ⟨timer, start, .querying, store⟩ (.endQuery results)
        ⟨timer, start, .updating (results.flatMap storeCalls), store⟩
  | updateStore {timer : TimerImpl} {start : StartPoint} {store : MetadataStore}
      {call : MetadataStore.Call} {calls : List MetadataStore.Call} :
      PollMove ⟨timer, start, .updating (call :: calls), store⟩ .updateStore
        ⟨timer, start, .updating calls, store.apply call⟩
  | endUpdates {timer : TimerImpl} {start : StartPoint} {store : MetadataStore} :
      PollMove ⟨timer, start, .updating [], store⟩ .endUpdates ⟨timer, start, .waiting, store⟩
  | timedOut {start : StartPoint} {store : MetadataStore} :
      PollMove ⟨⟨true⟩, start, .waiting, store⟩ .wait ⟨⟨true⟩, start, .beforeQuery, store⟩
  | signalled {start : StartPoint} {store : MetadataStore} :
      PollMove ⟨⟨false⟩, start, .waiting, store⟩ .wait ⟨⟨true⟩, start, .exited, store⟩
  | notifyStop {timer : TimerImpl} {start : StartPoint} {thread : PollPoint}
      {store : MetadataStore} :
      PollMove ⟨timer, start, thread, store⟩ .notifyStop ⟨⟨false⟩, start, thread, store⟩

theorem pollMove_of_step {s t : PollState} {l : PollLabel} (h : pollStep s l = some t) :
    PollMove s l t := by
  obtain ⟨⟨locked⟩, start, thread, store⟩ := s
  cases l with
  | initTimer =>
    cases start <;> cases locked <;> cases h
    exact .initTimer
  | createThread =>
    cases start <;> cases h
    exact .createThread
  | beginQuery =>
    cases thread <;> cases h
    exact .beginQuery
  | endQuery results =>
    cases thread <;> cases h
    exact .endQuery
  | updateStore =>
    cases thread with
    | updating calls =>
      cases calls with
      | nil => cases h
      | cons call calls =>
        cases h
        exact .updateStore
    | _ => cases h
  | endUpdates =>
    cases thread with
    | updating calls =>
      cases calls with
      | nil =>
        cases h
        exact .endUpdates
      | cons call calls => cases h
    | _ => cases h
  | wait =>
    cases thread <;> cases locked <;> cases h
    · exact .signalled
    · exact .timedOut
  | notifyStop =>
    cases h
    exact .notifyStop

/-! ## After the request -/

/-- The updater is started, and the signal is there for the next `Wait` unless the thread is
over. -/
structure Stopping (s : PollState) : Prop where
  started : s.start = .started
  signal : s.thread = .exited ∨ s.timer.locked = false

/-- The queries that may still begin. -/
def pendingQueries : PollPoint → ℕ
  | .beforeQuery => 1
  | _ => 0

/-- The thread has stored the results of its last query. -/
def PollState.stored (s : PollState) : Prop := s.thread = .waiting ∨ s.thread = .exited

theorem pollMove_stopping {s t : PollState} {l : PollLabel} (hs : Stopping s)
    (h : PollMove s l t) :
    Stopping t ∧ pendingQueries t.thread + [l].count .beginQuery ≤ pendingQueries s.thread := by
  obtain ⟨hstarted, hsignal⟩ := hs
  cases h with
  | initTimer => cases hstarted
  | createThread => cases hstarted
  | beginQuery =>
    have hunlocked := hsignal.resolve_left (by simp)
    exact ⟨⟨hstarted, .inr hunlocked⟩, Nat.le_refl _⟩
  | endQuery =>
    have hunlocked := hsignal.resolve_left (by simp)
    exact ⟨⟨hstarted, .inr hunlocked⟩, Nat.le_refl _⟩
  | updateStore =>
    have hunlocked := hsignal.resolve_left (by simp)
    exact ⟨⟨hstarted, .inr hunlocked⟩, Nat.le_refl _⟩
  | endUpdates =>
    have hunlocked := hsignal.resolve_left (by simp)
    exact ⟨⟨hstarted, .inr hunlocked⟩, Nat.le_refl _⟩
  | timedOut => simp at hsignal
  | signalled => exact ⟨⟨hstarted, .inl rfl⟩, Nat.le_refl _⟩
  | notifyStop => exact ⟨⟨hstarted, .inr rfl⟩, Nat.le_refl _⟩

theorem pollMove_stored {s t : PollState} {l : PollLabel} (hs : Stopping s) (hstored : s.stored)
    (h : PollMove s l t) : t.stored ∧ l ≠ .beginQuery ∧ l ≠ .updateStore ∧ t.store = s.store := by
  obtain ⟨hstarted, hsignal⟩ := hs
  unfold PollState.stored at hstored ⊢
  cases h with
  | initTimer => cases hstarted
  | createThread => cases hstarted
  | beginQuery => simp at hstored
  | endQuery => simp at hstored
  | updateStore => simp at hstored
  | endUpdates => simp at hstored
  | timedOut => simp at hsignal
  | signalled => simp
  | notifyStop => simpa using hstored

theorem stopping_of_run {s t : PollState} (hs : Stopping s) (after : List PollLabel)
    (h : run pollStep s after = some t) :
    Stopping t ∧ pendingQueries t.thread + after.count .beginQuery ≤ pendingQueries s.thread := by
  have hstep : ∀ u l v, Stopping u → True → pollStep u l = some v →
      Stopping v ∧ pendingQueries v.thread + [l].count .beginQuery ≤ pendingQueries u.thread := by
    intro u l v hu _ huv
    exact pollMove_stopping hu (pollMove_of_step huv)
  exact run_count_le (fun _ => True) (fun s => pendingQueries s.thread) hstep hs
    (fun _ _ => trivial) h

theorem silent_of_stored {s t : PollState} (hs : Stopping s) (hstored : s.stored)
    (after : List PollLabel) (h : run pollStep s after = some t) :
    .beginQuery ∉ after ∧ .updateStore ∉ after ∧ t.store = s.store := by
  have hstep : ∀ u l v, Stopping u ∧ u.stored ∧ u.store = s.store → pollStep u l = some v →
      (Stopping v ∧ v.stored ∧ v.store = s.store) ∧ l ≠ .beginQuery ∧ l ≠ .updateStore := by
    rintro u l v ⟨hu, hustored, hstore⟩ huv
    have hmove := pollMove_of_step huv
    obtain ⟨hvstored, hquery, hupdate, hkept⟩ := pollMove_stored hu hustored hmove
    exact ⟨⟨(pollMove_stopping hu hmove).1, hvstored, hkept.trans hstore⟩, hquery, hupdate⟩
  obtain ⟨⟨_, _, hstore⟩, hall⟩ := run_keeps hstep ⟨hs, hstored, rfl⟩ h
  exact ⟨fun hmem => (hall _ hmem).1 rfl, fun hmem => (hall _ hmem).2 rfl, hstore⟩

/-! ## Every run -/

theorem started_of_run {store : MetadataStore} {before : List PollLabel} {s : PollState}
    (h : run pollStep (.constructed store) before = some s) (hcreated : .createThread ∈ before) :
    s.start = .started := by
  revert hcreated
  refine run_induction pollStep (P := fun before s => .createThread ∈ before →
    s.start = .started) ?_ ?_ before s h
  · intro hnil
    cases hnil
  · intro ls m l t _ hm hl hcreated
    rw [List.mem_append, List.mem_singleton] at hcreated
    cases pollMove_of_step hl with
    | createThread => rfl
    | initTimer =>
      have hstarted := hm (hcreated.resolve_right (by simp))
      cases hstarted
    | beginQuery => exact hm (hcreated.resolve_right (by simp))
    | endQuery => exact hm (hcreated.resolve_right (by simp))
    | updateStore => exact hm (hcreated.resolve_right (by simp))
    | endUpdates => exact hm (hcreated.resolve_right (by simp))
    | timedOut => exact hm (hcreated.resolve_right (by simp))
    | signalled => exact hm (hcreated.resolve_right (by simp))
    | notifyStop => exact hm (hcreated.resolve_right (by simp))

theorem stopping_of_notifyStop {store : MetadataStore} {before : List PollLabel} {u : PollState}
    (hcreated : .createThread ∈ before)
    (h : run pollStep (.constructed store) (before ++ [.notifyStop]) = some u) : Stopping u := by
  obtain ⟨s, hs, hstop⟩ := (run_concat pollStep).mp h
  have hstarted := started_of_run hs hcreated
  cases pollMove_of_step hstop with
  | notifyStop => exact ⟨hstarted, .inr rfl⟩

/-- Wherever a stop request comes in a run of a started updater, at most one query begins after it,
and from the moment at which the thread has stored its results nothing is queried or stored. -/
theorem polling_stops {store : MetadataStore} {before after : List PollLabel} {t : PollState}
    (hcreated : .createThread ∈ before)
    (h : run pollStep (.constructed store) (before ++ .notifyStop :: after) = some t) :
    after.count .beginQuery ≤ 1 ∧
      ∀ a b u, after = a ++ b →
        run pollStep (.constructed store) (before ++ .notifyStop :: a) = some u → u.stored →
        .beginQuery ∉ b ∧ .updateStore ∉ b ∧ t.store = u.store := by
  rw [List.append_cons, run_append, Option.bind_eq_some_iff] at h
  obtain ⟨s, hs, hafter⟩ := h
  have hstopping := stopping_of_notifyStop hcreated hs
  constructor
  · have hcount := (stopping_of_run hstopping after hafter).2
    have hpending : pendingQueries s.thread ≤ 1 := by
      cases s.thread <;> simp [pendingQueries]
    omega
  · rintro a b u rfl hu hstored
    rw [List.append_cons, run_append, hs, Option.bind_some] at hu
    rw [run_append, hu, Option.bind_some] at hafter
    exact silent_of_stored (stopping_of_run hstopping a hu).1 hstored b hafter

/-- The updater starts, and its first wait times out. -/
def timedOutTurn : List PollLabel :=
  [.initTimer, .createThread, .beginQuery, .endQuery [], .endUpdates, .wait]

/-- One more query, with one result. -/
def lastTurn : List PollLabel := [
  .beginQuery,
  .endQuery [⟨[lit "container"], .ofLabels (lit "docker_container") [], .ignored⟩],
  .updateStore, .updateStore, .endUpdates, .wait]

theorem timedOutTurn_then_lastTurn : ∃ t,
    run pollStep (.constructed .empty) (timedOutTurn ++ .notifyStop :: lastTurn) = some t :=
  ⟨_, rfl⟩

/-- A request between a wait that timed out and the next query, which is still made. -/
theorem stop_before_query : ∃ t,
    run pollStep (.constructed .empty) (timedOutTurn ++ .notifyStop :: lastTurn) = some t ∧
      lastTurn.count .beginQuery ≤ 1 ∧
      ∀ a b u, lastTurn = a ++ b →
        run pollStep (.constructed .empty) (timedOutTurn ++ .notifyStop :: a) = some u →
          u.stored → .beginQuery ∉ b ∧ .updateStore ∉ b ∧ t.store = u.store := by
  obtain ⟨t, ht⟩ := timedOutTurn_then_lastTurn
  have hcreated : .createThread ∈ timedOutTurn := by
    simp [timedOutTurn]
  exact ⟨t, ht, polling_stops hcreated ht⟩

end MetadataAgent.PollingMetadataUpdater
