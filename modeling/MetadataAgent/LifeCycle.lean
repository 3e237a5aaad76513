import MetadataAgent.Polling
import Mathlib.Data.Rat.Defs

/-! # The timer in the life of an updater

The mutex of the timer is locked by `Init` in the thread that starts the updater, taken by the last
`Wait` in the polling thread, and unlocked by every `Cancel`: once for each `NotifyStop`, and once
more when the timer is destroyed. -/
namespace MetadataAgent.PollingMetadataUpdater
open Lib
open MetadataReporter (TimerImpl)
set_option autoImplicit false

/-! ## A life cycle -/

/-- The threads that lock the mutex. -/
inductive Holder where
  | starter
  | poller
  deriving DecidableEq

structure LifeState where
  holder : Option Holder
  start : StartPoint
  thread : PollPoint
  store : MetadataStore
  destroyed : Bool

/-- A step of the updater, or its destruction. -/
inductive LifeLabel where
  | poll (label : PollLabel)
  | destroy
  deriving DecidableEq

namespace LifeState

/-- The state in which the constructor leaves the updater. -/
def constructed (store : MetadataStore) : LifeState :=
  ⟨none, .constructed, .notCreated, store, false⟩

/-- The updater, with the mutex as a bit. -/
def updater (s : LifeState) : PollState := ⟨⟨s.holder.isSome⟩, s.start, s.thread, s.store⟩

/-- Who has the mutex after a step. -/
def nextHolder (s : LifeState) : PollLabel → Option Holder
  | .initTimer => some .starter
  | .wait => if s.holder.isSome then s.holder else some .poller
  | .notifyStop => none
  | _ => s.holder

/-- The destructor joins the polling thread; `Start` is over by then, or was never called. -/
def mayDestroy (s : LifeState) : Bool :=
  match s.start, s.thread with
  | .timerInitialized, _ => false
  | _, .notCreated => true
  | _, .exited => true
  | _, _ => false

end LifeState

/-- `Start` calls `StartUpdater` only for a positive period; `~TimerImpl` calls `Cancel`. -/
def lifeStep (period : ℚ) (s : LifeState) : LifeLabel → Option LifeState
  | .poll label =>
    if s.destroyed ∨ (label = .initTimer ∧ ¬ 0 < period) then none
    else (pollStep s.updater label).map fun t =>
      ⟨s.nextHolder label, t.start, t.thread, t.store, false⟩
  | .destroy =>
    if s.destroyed ∨ s.mayDestroy = false then none
    else some { s with holder := none, destroyed := true }

/-- A run of an updater from its construction. -/
structure LifeCycle (period : ℚ) (store : MetadataStore) where
  labels : List LifeLabel
  last : LifeState
  runs : run (lifeStep period) (.constructed store) labels = some last

/-! ## The lock discipline -/

/-- The calls of `Cancel`. -/
def LifeLabel.unlocks : LifeLabel → Bool
  | .poll .notifyStop => true
  | .destroy => true
  | _ => false

/-- No thread that comes to a lock operation holds the mutex. -/
structure LifeState.NoRelock (s : LifeState) : Prop where
  starter : s.start = .constructed → s.holder ≠ some .starter
  poller : s.thread = .waiting → s.holder ≠ some .poller

section Cycle
variable {period : ℚ} {store : MetadataStore}

/-- What holds whenever the mutex is unlocked, of the history and the state before. -/
def LifeCycle.AtUnlocks (c : LifeCycle period store) (P : List LifeLabel → LifeState → Prop) :
    Prop :=
  ∀ before l after s, c.labels = before ++ l :: after →
    run (lifeStep period) (.constructed store) before = some s → l.unlocks = true → P before s

/-- Every `unlock` finds the mutex locked, and no thread locks it while it has it. -/
structure LifeCycle.Disciplined (c : LifeCycle period store) : Prop where
  unlocks : c.AtUnlocks fun _ s => s.holder.isSome = true
  locks : ∀ before after s, c.labels = before ++ after →
    run (lifeStep period) (.constructed store) before = some s → s.NoRelock

/-- The timer was initialized, and this is the first `unlock`, or the second one and the polling
thread is over. -/
def FirstOrLast (before : List LifeLabel) (s : LifeState) : Prop :=
  .poll .initTimer ∈ before ∧
    (before.countP LifeLabel.unlocks = 0 ∨
      before.countP LifeLabel.unlocks = 1 ∧ s.thread = .exited)

end Cycle

/-! ## Steps -/

/-- What a step can do. -/
inductive LifeMove (period : ℚ) : LifeState → LifeLabel → LifeState → Prop
  | initTimer {thread : PollPoint} {store : MetadataStore} (hperiod : 0 < period) :
      LifeMove period ⟨none, .constructed, thread, store, false⟩ (.poll .initTimer)
        ⟨some .starter, .timerInitialized, thread, store, false⟩
  | createThread {holder : Option Holder} {thread : PollPoint} {store : MetadataStore} :
      LifeMove period ⟨holder, .timerInitialized, thread, store, false⟩ (.poll .createThread)
        ⟨holder, .started, .beforeQuery, store, false⟩
  | beginQuery {holder : Option Holder} {start : StartPoint} {store : MetadataStore} :
      LifeMove period ⟨holder, start, .beforeQuery, store, false⟩ (.poll .beginQuery)
        ⟨holder, start, .querying, store, false⟩
  | endQuery {holder : Option Holder} {start : StartPoint} {store : MetadataStore}
      {results : List KubernetesReader.ResourceMetadata} :
      LifeMove period ⟨holder, start, .querying, store, false⟩ (.poll (.endQuery results))
        ⟨holder, start, .updating (results.flatMap storeCalls), store, false⟩
  | updateStore {holder : Option Holder} {start : StartPoint} {store : MetadataStore}
      {call : MetadataStore.Call} {calls : List MetadataStore.Call} :
      LifeMove period ⟨holder, start, .updating (call :: calls), store, false⟩
        (.poll .updateStore) ⟨holder, start, .updating calls, store.apply call, false⟩
  | endUpdates {holder : Option Holder} {start : StartPoint} {store : MetadataStore} :
      LifeMove period ⟨holder, start, .updating [], store, false⟩ (.poll .endUpdates)
        ⟨holder, start, .waiting, store, false⟩
  | timedOut {who : Holder} {start : StartPoint} {store : MetadataStore} :
      LifeMove period ⟨some who, start, .waiting, store, false⟩ (.poll .wait)
        ⟨some who, start, .beforeQuery, store, false⟩
  | signalled {start : StartPoint} {store : MetadataStore} :
      LifeMove period ⟨none, start, .waiting, store, false⟩ (.poll .wait)
        ⟨some .poller, start, .exited, store, false⟩
  | notifyStop {holder : Option Holder} {start : StartPoint} {thread : PollPoint}
      {store : MetadataStore} :
      LifeMove period ⟨holder, start, thread, store, false⟩ (.poll .notifyStop)
        ⟨none, start, thread, store, false⟩
  | destroy {holder : Option Holder} {start : StartPoint} {thread : PollPoint}
      {store : MetadataStore} (hstart : start ≠ .timerInitialized)
      (hthread : thread = .notCreated ∨ thread = .exited) :
      LifeMove period ⟨holder, start, thread, store, false⟩ .destroy
        ⟨none, start, thread, store, true⟩

section Step
variable {period : ℚ} {s t : LifeState}

theorem LifeState.joined_of_mayDestroy (h : s.mayDestroy = true) :
    s.start ≠ .timerInitialized ∧ (s.thread = .notCreated ∨ s.thread = .exited) := by
  obtain ⟨holder, start, thread, store, destroyed⟩ := s
  unfold LifeState.mayDestroy at h
  cases start with
  | timerInitialized => cases h
  | constructed => cases thread <;> simp at h <;> simp
  | started => cases thread <;> simp at h <;> simp

theorem lifeStep_poll {label : PollLabel} (h : lifeStep period s (.poll label) = some t) :
    s.destroyed = false ∧ (label = .initTimer → 0 < period) ∧
      ∃ u, pollStep s.updater label = some u ∧
        t = ⟨s.nextHolder label, u.start, u.thread, u.store, false⟩ := by
  rw [lifeStep] at h
  split at h
  · cases h
  · rename_i hallowed
    rw [not_or, not_and, not_not, Bool.not_eq_true] at hallowed
    obtain ⟨u, hu, rfl⟩ := Option.map_eq_some_iff.mp h
    exact ⟨hallowed.1, hallowed.2, u, hu, rfl⟩

theorem lifeMove_of_step {l : LifeLabel} (h : lifeStep period s l = some t) :
    LifeMove period s l t := by
  cases l with
  | poll label =>
    obtain ⟨hdestroyed, hperiod, u, hu, rfl⟩ := lifeStep_poll h
    have hmove := pollMove_of_step hu
    obtain ⟨holder, start, thread, store, destroyed⟩ := s
    cases hdestroyed
    cases holder with
    | none =>
      cases hmove with
      | initTimer => exact .initTimer (hperiod rfl)
      | createThread => exact .createThread
      | beginQuery => exact .beginQuery
      | endQuery => exact .endQuery
      | updateStore => exact .updateStore
      | endUpdates => exact .endUpdates
      | signalled => exact .signalled
      | notifyStop => exact .notifyStop
    | some who =>
      cases hmove with
      | createThread => exact .createThread
      | beginQuery => exact .beginQuery
      | endQuery => exact .endQuery
      | updateStore => exact .updateStore
      | endUpdates => exact .endUpdates
      | timedOut => exact .timedOut
      | notifyStop => exact .notifyStop
  | destroy =>
    rw [lifeStep] at h
    split at h
    · cases h
    · rename_i hallowed
      rw [not_or, Bool.not_eq_true, Bool.not_eq_false] at hallowed
      obtain ⟨hdestroyed, hmay⟩ := hallowed
      obtain ⟨holder, start, thread, store, destroyed⟩ := s
      cases hdestroyed
      cases h
      obtain ⟨hstart, hthread⟩ := LifeState.joined_of_mayDestroy hmay
      exact .destroy hstart hthread

/-- Seen through its bit, the mutex is the one of the stop protocol. -/
theorem updater_of_step {label : PollLabel} (h : lifeStep period s (.poll label) = some t) :
    pollStep s.updater label = some t.updater := by
  obtain ⟨_, _, u, hu, rfl⟩ := lifeStep_poll h
  have hlocked : (s.nextHolder label).isSome = u.timer.locked := by
    obtain ⟨holder, start, thread, store, destroyed⟩ := s
    cases holder with
    | none => cases pollMove_of_step hu <;> rfl
    | some who => cases pollMove_of_step hu <;> rfl
  rw [hu, LifeState.updater, hlocked]

theorem updater_of_run {store : MetadataStore} {labels : List PollLabel}
    (h : run (lifeStep period) (.constructed store) (labels.map .poll) = some t) :
    run pollStep (.constructed store) labels = some t.updater := by
  induction labels using List.reverseRecOn generalizing t with
  | nil =>
    cases h
    rfl
  | append_singleton labels label ih =>
    rw [List.map_append, List.map_singleton, run_concat] at h
    obtain ⟨m, hm, hlabel⟩ := h
    exact (run_concat pollStep).mpr ⟨m.updater, ih hm, updater_of_step hlabel⟩

/-! ## Locks -/

/-- A thread is created after the timer was initialized, and has the mutex only when it is over. -/
structure Placed (s : LifeState) : Prop where
  constructed : s.start = .constructed → s.holder = none
  notCreated : s.start ≠ .started → s.thread = .notCreated
  poller : s.holder = some .poller → s.thread = .exited

theorem lifeMove_placed {l : LifeLabel} (hs : Placed s) (h : LifeMove period s l t) :
    Placed t := by
  obtain ⟨hconstructed, hnotCreated, hpoller⟩ := hs
  cases h with
  | initTimer =>
    have hthread := hnotCreated (by simp)
    exact ⟨by simp, fun _ => hthread, by simp⟩
  | createThread =>
    have hthread := hnotCreated (by simp)
    refine ⟨by simp, by simp, fun hholder => ?_⟩
    have hexited := hpoller hholder
    rw [hthread] at hexited
    cases hexited
  | beginQuery => exact ⟨hconstructed, by simpa using hnotCreated, by simpa using hpoller⟩
  | endQuery => exact ⟨hconstructed, by simpa using hnotCreated, by simpa using hpoller⟩
  | updateStore => exact ⟨hconstructed, by simpa using hnotCreated, by simpa using hpoller⟩
  | endUpdates => exact ⟨hconstructed, by simpa using hnotCreated, by simpa using hpoller⟩
  | timedOut => exact ⟨hconstructed, by simpa using hnotCreated, by simpa using hpoller⟩
  | @signalled start store =>
    have hstarted : start = .started := not_imp_comm.mp hnotCreated (by simp)
    exact ⟨by simp [hstarted], by simp [hstarted], fun _ => rfl⟩
  | notifyStop => exact ⟨fun _ => rfl, hnotCreated, by simp⟩
  | destroy => exact ⟨fun _ => rfl, hnotCreated, by simp⟩

theorem placed_of_run {store : MetadataStore} {labels : List LifeLabel}
    (h : run (lifeStep period) (.constructed store) labels = some t) : Placed t := by
  refine run_induction (lifeStep period) (P := fun _ t => Placed t) ?_ ?_ labels t h
  · exact ⟨fun _ => rfl, fun _ => rfl, by simp [LifeState.constructed]⟩
  · intro ls m l t _ hm hl
    exact lifeMove_placed hm (lifeMove_of_step hl)

theorem Placed.noRelock (hs : Placed s) : s.NoRelock := by
  refine ⟨fun hstart hholder => ?_, fun hthread hholder => ?_⟩
  · rw [hs.constructed hstart] at hholder
    cases hholder
  · have hexited := hs.poller hholder
    rw [hthread] at hexited
    cases hexited

/-! ## Unlocks -/

/-- The state after some unlocks, as long as each of them found the mutex locked. -/
inductive Phase : ℕ → LifeState → Prop
  | idle {store : MetadataStore} : Phase 0 (.constructed store)
  | running {start : StartPoint} {thread : PollPoint} {store : MetadataStore}
      (hstart : start ≠ .constructed) (hthread : thread ≠ .exited) {destroyed : Bool} :
      Phase 0 ⟨some .starter, start, thread, store, destroyed⟩
  | signalled {start : StartPoint} {thread : PollPoint} {store : MetadataStore}
      (hstart : start ≠ .constructed) (hthread : thread ≠ .exited) {destroyed : Bool} :
      Phase 1 ⟨none, start, thread, store, destroyed⟩
  | left {start : StartPoint} {store : MetadataStore} (hstart : start ≠ .constructed)
      {destroyed : Bool} : Phase 1 ⟨some .poller, start, .exited, store, destroyed⟩
  | released {start : StartPoint} {store : MetadataStore} (hstart : start ≠ .constructed)
      {destroyed : Bool} : Phase 2 ⟨none, start, .exited, store, destroyed⟩

theorem lifeMove_phase {n : ℕ} {l : LifeLabel} (hs : Phase n s) (hplaced : Placed s)
    (h : LifeMove period s l t) (hlocked : l.unlocks = true → s.holder.isSome = true) :
    Phase (if l.unlocks then n + 1 else n) t := by
  cases hs with
  | idle =>
    cases h with
    | initTimer hperiod => exact .running (by simp) (by simp)
    | notifyStop => cases hlocked rfl
    | destroy => cases hlocked rfl
  | running hstart hthread =>
    cases h with
    | createThread => exact .running (by simp) (by simp)
    | beginQuery => exact .running hstart (by simp)
    | endQuery => exact .running hstart (by simp)
    | updateStore => exact .running hstart (by simp)
    | endUpdates => exact .running hstart (by simp)
    | timedOut => exact .running hstart (by simp)
    | notifyStop => exact .signalled hstart hthread
    | destroy => exact .signalled hstart hthread
  | signalled hstart hthread =>
    cases h with
    | initTimer => exact absurd rfl hstart
    | createThread => exact .signalled (by simp) (by simp)
    | beginQuery => exact .signalled hstart (by simp)
    | endQuery => exact .signalled hstart (by simp)
    | updateStore => exact .signalled hstart (by simp)
    | endUpdates => exact .signalled hstart (by simp)
    | signalled => exact .left hstart
    | notifyStop => cases hlocked rfl
    | destroy => cases hlocked rfl
  | left hstart =>
    cases h with
    | createThread => cases hplaced.notCreated (by simp)
    | notifyStop => exact .released hstart
    | destroy => exact .released hstart
  | released hstart =>
    cases h with
    | initTimer => exact absurd rfl hstart
    | createThread => cases hplaced.notCreated (by simp)
    | notifyStop => cases hlocked rfl
    | destroy => cases hlocked rfl

theorem Phase.locked_iff {n : ℕ} (hs : Phase n s) : s.holder.isSome = true ↔
    s.start ≠ .constructed ∧ (n = 0 ∨ n = 1 ∧ s.thread = .exited) := by
  cases hs with
  | idle => simp [LifeState.constructed]
  | running hstart hthread => simp [hstart]
  | signalled hstart hthread => simp [hthread]
  | left hstart => simp [hstart]
  | released hstart => simp

theorem initialized_iff_of_run {store : MetadataStore} {labels : List LifeLabel}
    (h : run (lifeStep period) (.constructed store) labels = some t) :
    t.start ≠ .constructed ↔ .poll .initTimer ∈ labels := by
  refine run_induction (lifeStep period) (P := fun labels t =>
    t.start ≠ .constructed ↔ .poll .initTimer ∈ labels) ?_ ?_ labels t h
  · simp [LifeState.constructed]
  · intro ls m l t _ hm hl
    rw [List.mem_append, List.mem_singleton, ← hm]
    cases lifeMove_of_step hl <;> simp

theorem phase_of_run {store : MetadataStore} {labels : List LifeLabel}
    (h : run (lifeStep period) (.constructed store) labels = some t)
    (hunlocks : ∀ before l after s, labels = before ++ l :: after →
      run (lifeStep period) (.constructed store) before = some s → l.unlocks = true →
        Phase (before.countP LifeLabel.unlocks) s → s.holder.isSome = true) :
    Phase (labels.countP LifeLabel.unlocks) t := by
  revert hunlocks
  refine run_induction (lifeStep period) (P := fun labels t =>
    (∀ before l after s, labels = before ++ l :: after →
      run (lifeStep period) (.constructed store) before = some s → l.unlocks = true →
        Phase (before.countP LifeLabel.unlocks) s → s.holder.isSome = true) →
      Phase (labels.countP LifeLabel.unlocks) t) ?_ ?_ labels t h
  · intro _
    exact .idle
  · intro ls m l t hls hm hl hunlocks
    have hphase := hm fun before k after s heq => by
      refine hunlocks before k (after ++ [l]) s ?_
      rw [heq, List.append_assoc, List.cons_append]
    have hlocked : l.unlocks = true → m.holder.isSome = true := fun hunlock =>
      hunlocks ls l [] m rfl hls hunlock hphase
    have hcount : (ls ++ [l]).countP LifeLabel.unlocks =
        if l.unlocks then ls.countP LifeLabel.unlocks + 1 else ls.countP LifeLabel.unlocks := by
      rw [List.countP_append, List.countP_singleton]
      split <;> rfl
    rw [hcount]
    exact lifeMove_phase hphase (placed_of_run hls) (lifeMove_of_step hl) hlocked

end Step

/-! ## Every life cycle -/

section Cycle
variable {period : ℚ} {store : MetadataStore}

theorem LifeCycle.prefix_unlocks {c : LifeCycle period store}
    {P : List LifeLabel → LifeState → Prop} (h : c.AtUnlocks P) {ls after : List LifeLabel}
    (hls : c.labels = ls ++ after) {before : List LifeLabel} {l : LifeLabel}
    {rest : List LifeLabel} {s : LifeState} (heq : ls = before ++ l :: rest)
    (hrun : run (lifeStep period) (.constructed store) before = some s)
    (hunlock : l.unlocks = true) : P before s := by
  refine h before l (rest ++ after) s ?_ hrun hunlock
  rw [hls, heq, List.append_assoc, List.cons_append]

theorem locked_iff_firstOrLast {before : List LifeLabel} {s : LifeState}
    (hrun : run (lifeStep period) (.constructed store) before = some s)
    (hphase : Phase (before.countP LifeLabel.unlocks) s) :
    s.holder.isSome = true ↔ FirstOrLast before s := by
  rw [hphase.locked_iff, initialized_iff_of_run hrun]
  exact Iff.rfl

/-- A life cycle keeps the lock discipline exactly when the timer is initialized before the first
`unlock`, and a second one, the last, comes after the polling thread is over. -/
theorem lock_discipline_iff (c : LifeCycle period store) :
    c.Disciplined ↔ c.AtUnlocks FirstOrLast := by
  constructor
  · rintro ⟨hunlocks, _⟩ before l after s heq hrun hunlock
    have hphase := phase_of_run hrun fun before' k rest u heq' hrun' hunlock' _ =>
      LifeCycle.prefix_unlocks hunlocks heq heq' hrun' hunlock'
    exact (locked_iff_firstOrLast hrun hphase).mp (hunlocks before l after s heq hrun hunlock)
  · intro hfirst
    constructor
    · intro before l after s heq hrun hunlock
      have hphase := phase_of_run hrun fun before' k rest u heq' hrun' hunlock' hphase' =>
        (locked_iff_firstOrLast hrun' hphase').mpr
          (LifeCycle.prefix_unlocks hfirst heq heq' hrun' hunlock')
      exact (locked_iff_firstOrLast hrun hphase).mpr (hfirst before l after s heq hrun hunlock)
    · intro before after s _ hrun
      exact (placed_of_run hrun).noRelock

end Cycle

/-- An updater that is not started, because its period is zero, and is destroyed. -/
def neverStarted : LifeCycle 0 .empty := ⟨[.destroy], _, rfl⟩

/-- An updater that is started and notified twice before its thread comes to the next wait. -/
def notifiedTwice : LifeCycle 60 .empty :=
  ⟨[.poll .initTimer, .poll .createThread, .poll .notifyStop, .poll .notifyStop], _, rfl⟩

theorem unlock_of_unlocked : ¬ neverStarted.Disciplined ∧ ¬ notifiedTwice.Disciplined := by
  constructor
  · rintro ⟨hunlocks, _⟩
    have hlocked := hunlocks [] .destroy [] _ rfl rfl rfl
    cases hlocked
  · rintro ⟨hunlocks, _⟩
    have hlocked := hunlocks [.poll .initTimer, .poll .createThread, .poll .notifyStop]
      (.poll .notifyStop) [] _ rfl rfl rfl
    cases hlocked

end MetadataAgent.PollingMetadataUpdater
