import MetadataAgent.Lib.Histories

/-! # Stopping the reporter

The stop signal is the lock bit of the timer, cleared by `NotifyStopReporter` in another thread. A
`Wait` that finds it clear takes it, so the signal is there for one `Wait` only. The first `Wait`
of the reporter thread ignores its result, and the thread sets the bit itself when it starts. -/
namespace MetadataAgent.MetadataReporter
open Lib
set_option autoImplicit false

/-! ## The timer -/

/-- `TimerImpl`, by its lock bit. -/
structure TimerImpl where
  locked : Bool
  deriving DecidableEq

namespace TimerImpl

/-- `none` if the call blocks. -/
def init (timer : TimerImpl) : Option TimerImpl := if timer.locked then none else some ⟨true⟩

/-- The moment at which `Wait` returns: it has the lock, or it has waited for the whole time. -/
def wait (timer : TimerImpl) : Bool × TimerImpl :=
  if timer.locked then (true, timer) else (false, ⟨true⟩)

def cancel (_timer : TimerImpl) : TimerImpl := ⟨false⟩

end TimerImpl

/-! ## The reporter thread and a stop request -/

/-- Where the thread is in `ReportMetadata`. -/
inductive ReportPoint where
  | started
  | initialized
  | beforeSend
  | sending
  | afterSend
  | exited
  deriving DecidableEq

structure StopState where
  timer : TimerImpl
  thread : ReportPoint
  deriving DecidableEq

/-- A step of the thread, or the call of `NotifyStopReporter`. -/
inductive StopLabel where
  | init
  | wait
  | beginSend
  | endSend
  | notifyStop
  deriving DecidableEq

/-- The state in which the constructor leaves the timer and the thread. -/
def StopState.constructed : StopState := ⟨⟨false⟩, .started⟩

def stopStep (s : StopState) : StopLabel → Option StopState
  | .init =>
    match s.thread with
    | .started => s.timer.init.map fun timer => ⟨timer, .initialized⟩
    | _ => none
  | .wait =>
    match s.thread with
    | .initialized => some ⟨s.timer.wait.2, .beforeSend⟩
    | .afterSend => some ⟨s.timer.wait.2, if s.timer.wait.1 then .beforeSend else .exited⟩
    | _ => none
  | .beginSend =>
    match s.thread with
    | .beforeSend => some { s with thread := .sending }
    | _ => none
  | .endSend =>
    match s.thread with
    | .sending => some { s with thread := .afterSend }
    | _ => none
  | .notifyStop => some { s with timer := s.timer.cancel }

/-- What a step can do. -/
inductive StopMove : StopState → StopLabel → StopState → Prop
  | init : StopMove ⟨⟨false⟩, .started⟩ .init ⟨⟨true⟩, .initialized⟩
  | firstWait {locked : Bool} :
      StopMove ⟨⟨locked⟩, .initialized⟩ .wait ⟨⟨true⟩, .beforeSend⟩
  | timedOut : StopMove ⟨⟨true⟩, .afterSend⟩ .wait ⟨⟨true⟩, .beforeSend⟩
  | signalled : StopMove ⟨⟨false⟩, .afterSend⟩ .wait ⟨⟨true⟩, .exited⟩
  | beginSend {timer : TimerImpl} :
      StopMove ⟨timer, .beforeSend⟩ .beginSend ⟨timer, .sending⟩
  | endSend {timer : TimerImpl} : StopMove ⟨timer, .sending⟩ .endSend ⟨timer, .afterSend⟩
  | notifyStop {timer : TimerImpl} {thread : ReportPoint} :
      StopMove ⟨timer, thread⟩ .notifyStop ⟨⟨false⟩, thread⟩

theorem stopMove_of_step {s t : StopState} {l : StopLabel} (h : stopStep s l = some t) :
    StopMove s l t := by
  obtain ⟨⟨locked⟩, thread⟩ := s
  cases l with
  | init =>
    cases thread <;> cases locked <;> cases h
    exact .init
  | wait =>
    cases thread <;> cases locked <;> cases h
    · exact .firstWait
    · exact .firstWait
    · exact .signalled
    · exact .timedOut
  | beginSend =>
    cases thread <;> cases h
    exact .beginSend
  | endSend =>
    cases thread <;> cases h
    exact .endSend
  | notifyStop =>
    cases h
    exact .notifyStop

/-- Every run that goes on after the stop request, without another one, begins at most one more
send. -/
def HonoursStop (before : List StopLabel) : Prop :=
  ∀ after s, .notifyStop ∉ after →
    run stopStep .constructed (before ++ .notifyStop :: after) = some s →
      after.count .beginSend ≤ 1

/-! ## A request after the first wait -/

/-- The signal is there for the `Wait` that decides, or that `Wait` has returned. -/
def Stopping (s : StopState) : Prop :=
  s.thread = .exited ∨
    s.timer.locked = false ∧ s.thread ≠ .started ∧ s.thread ≠ .initialized

/-- The sends that may still begin. -/
def pendingSends (s : StopState) : ℕ := if s.thread = .beforeSend then 1 else 0

theorem stopMove_stopping {s t : StopState} {l : StopLabel} (hs : Stopping s)
    (hl : l ≠ .notifyStop) (h : StopMove s l t) :
    Stopping t ∧ pendingSends t + [l].count .beginSend ≤ pendingSends s := by
  unfold Stopping at hs ⊢
  cases h with
  | init => simp at hs
  | firstWait => simp at hs
  | timedOut => simp at hs
  | signalled => exact ⟨.inl rfl, Nat.le_refl _⟩
  | beginSend =>
    have hunlocked := hs.resolve_left (by simp)
    exact ⟨.inr ⟨hunlocked.1, by simp, by simp⟩, Nat.le_refl _⟩
  | endSend =>
    have hunlocked := hs.resolve_left (by simp)
    exact ⟨.inr ⟨hunlocked.1, by simp, by simp⟩, Nat.le_refl _⟩
  | notifyStop => exact absurd rfl hl

theorem count_beginSend_le {s t : StopState} (hs : Stopping s) (after : List StopLabel)
    (hafter : .notifyStop ∉ after) (h : run stopStep s after = some t) :
    after.count .beginSend ≤ pendingSends s := by
  have hother : ∀ l ∈ after, l ≠ .notifyStop := by
    rintro l hl rfl
    exact hafter hl
  have hcount := (run_count_le (· ≠ .notifyStop) pendingSends
    (fun _ _ _ hs hl h => stopMove_stopping hs hl (stopMove_of_step h)) hs hother h).2
  omega

/-! ## Where the thread is -/

/-- The thread has returned from its first `Wait`, or it is in one of two states. -/
def FirstWaitOver (before : List StopLabel) (s : StopState) : Prop :=
  (.wait ∈ before → s.thread ≠ .started ∧ s.thread ≠ .initialized) ∧
    (.wait ∉ before → s = ⟨⟨false⟩, .started⟩ ∨ s = ⟨⟨true⟩, .initialized⟩)

theorem firstWaitOver_of_run {before : List StopLabel} {s : StopState}
    (h : run stopStep .constructed before = some s) (hnotify : .notifyStop ∉ before) :
    FirstWaitOver before s := by
  revert hnotify
  refine run_induction stopStep (P := fun before s => .notifyStop ∉ before →
    FirstWaitOver before s) ?_ ?_ before s h
  · intro _
    refine ⟨fun hwait => ?_, fun _ => .inl rfl⟩
    cases hwait
  · intro ls m l t _ hm hl hnotify
    rw [List.mem_append, List.mem_singleton, not_or] at hnotify
    obtain ⟨hover, hnot⟩ := hm hnotify.1
    unfold FirstWaitOver
    rw [List.mem_append, List.mem_singleton]
    by_cases hwait : .wait ∈ ls
    · have hthread := hover hwait
      refine ⟨fun _ => ?_, fun hno => absurd (.inl hwait) hno⟩
      cases stopMove_of_step hl <;> simp at hthread ⊢
      exact hthread
    · rcases hnot hwait with rfl | rfl
      · cases stopMove_of_step hl with
        | init => exact ⟨fun hw => by simp [hwait] at hw, fun _ => .inr rfl⟩
        | notifyStop => exact absurd rfl hnotify.2
      · cases stopMove_of_step hl with
        | firstWait => exact ⟨fun _ => by simp, fun hno => absurd (.inr rfl) hno⟩
        | notifyStop => exact absurd rfl hnotify.2

/-- The lost signal: two sends begin after the request. -/
def twoSends : List StopLabel := [.wait, .beginSend, .endSend, .wait, .beginSend]

/-- A stop request that comes in a run is honoured exactly when the thread has returned from its
first `Wait` by then. -/
theorem honours_stop_iff {before : List StopLabel} {s : StopState}
    (h : run stopStep .constructed before = some s) (hnotify : .notifyStop ∉ before) :
    HonoursStop before ↔ .wait ∈ before := by
  obtain ⟨hover, hnot⟩ := firstWaitOver_of_run h hnotify
  constructor
  · intro hhonours
    by_contra hwait
    rcases hnot hwait with rfl | rfl
    · have hrun : run stopStep .constructed (before ++ .notifyStop :: .init :: twoSends) =
          some ⟨⟨true⟩, .sending⟩ := by
        rw [run_append, h]
        rfl
      have hcount := hhonours _ _ (by decide) hrun
      revert hcount
      decide
    · have hrun : run stopStep .constructed (before ++ .notifyStop :: twoSends) =
          some ⟨⟨true⟩, .sending⟩ := by
        rw [run_append, h]
        rfl
      have hcount := hhonours _ _ (by decide) hrun
      revert hcount
      decide
  · intro hwait after t hafter hrun
    rw [run_append, h, Option.bind_some, run, Option.bind_eq_some_iff] at hrun
    obtain ⟨u, hu, hrest⟩ := hrun
    have hstopping : Stopping u := by
      cases stopMove_of_step hu with
      | notifyStop => exact .inr ⟨rfl, hover hwait⟩
    have hpending : pendingSends u ≤ 1 := by
      unfold pendingSends
      split <;> omega
    have hcount := count_beginSend_le hstopping after hafter hrest
    omega

/-- A request before the timer is initialized, and one during the first `Wait`. -/
theorem early_stop_lost : ¬HonoursStop [] ∧ ¬HonoursStop [.init] := by
  constructor
  · intro h
    have hcount := h (.init :: twoSends) ⟨⟨true⟩, .sending⟩ (by decide) rfl
    revert hcount
    decide
  · intro h
    have hcount := h twoSends ⟨⟨true⟩, .sending⟩ (by decide) rfl
    revert hcount
    decide

theorem stop_during_send_honoured : HonoursStop [.init, .wait, .beginSend] :=
  (honours_stop_iff (show run stopStep .constructed [.init, .wait, .beginSend] =
    some ⟨⟨true⟩, .sending⟩ from rfl) (by decide)).mpr (by decide)

end MetadataAgent.MetadataReporter
