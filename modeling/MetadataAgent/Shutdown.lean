import MetadataAgent.Polling
import Mathlib.Data.List.Nodup
import Mathlib.Logic.Function.Basic

/-! # Stopping the agent

The program starts its three updaters and then the server, and waits. A signal may come at any time
once its handler is registered, before the updaters are started. The handler stops the server,
which is not there before the program has started it, and then notifies every updater, whether it
polls or not: that unlocks the timer of the updater, which only an updater that polls has locked. -/
namespace MetadataAgent.Agent
open Lib
open PollingMetadataUpdater
set_option autoImplicit false

/-! ## The program and the handler -/

inductive Updater where
  | instanceUpdater
  | dockerUpdater
  | kubernetesUpdater
  deriving DecidableEq

structure AgentOptions where
  instanceUpdaterIntervalSeconds : ℤ
  dockerUpdaterIntervalSeconds : ℤ
  kubernetesUpdaterIntervalSeconds : ℤ
  kubernetesUseWatch : Bool

section Options
variable (options : AgentOptions)

def interval : Updater → ℤ
  | .instanceUpdater => options.instanceUpdaterIntervalSeconds
  | .dockerUpdater => options.dockerUpdaterIntervalSeconds
  | .kubernetesUpdater => options.kubernetesUpdaterIntervalSeconds

def shouldStartUpdater : Updater → Bool
  | .kubernetesUpdater =>
    decide (0 < interval options .kubernetesUpdater) || options.kubernetesUseWatch
  | updater => decide (0 < interval options updater)

/-- `StartUpdater` and `NotifyStopUpdater` are those of `PollingMetadataUpdater`. -/
def usesTimer : Updater → Bool
  | .kubernetesUpdater => !options.kubernetesUseWatch
  | _ => true

inductive MainStep where
  | validateStaticConfiguration (updater : Updater)
  | validateDynamicConfiguration (updater : Updater)
  | initTimer (updater : Updater)
  | createThread (updater : Updater)
  | startServer
  deriving DecidableEq

/-- `MetadataUpdater::Start`; the threads of the watches are left out. -/
def startSteps (updater : Updater) : List MainStep :=
  .validateStaticConfiguration updater ::
    if shouldStartUpdater options updater then
      .validateDynamicConfiguration updater ::
        if usesTimer options updater then [.initTimer updater, .createThread updater] else []
    else []

/-- `main`, behind the registration of the handler and up to `Wait`. -/
def mainSteps : List MainStep :=
  startSteps options .instanceUpdater ++ startSteps options .dockerUpdater ++
    startSteps options .kubernetesUpdater ++ [.startServer]

inductive HandlerStep where
  | stopServer
  | notifyStop (updater : Updater)
  | unlockWait
  | exit
  deriving DecidableEq

/-- The updaters whose timers are cancelled. -/
def notified : List Updater :=
  [.instanceUpdater, .dockerUpdater, .kubernetesUpdater].filter (usesTimer options)

/-- `StartShutdown` and the exit behind it. -/
def handlerSteps : List HandlerStep :=
  .stopServer :: ((notified options).map .notifyStop ++ [.unlockWait, .exit])

end Options

/-- The null server is dereferenced, or a mutex is unlocked that is not locked. -/
inductive Fault where
  | nullServer
  | unlockedTimer (updater : Updater)
  deriving DecidableEq

inductive End where
  | terminated
  | returned
  | exited
  deriving DecidableEq

/-- What the program and the handler have still to do, the updaters, the store that they share, and
what went wrong. -/
structure AgentState where
  main : List MainStep
  handler : Option (List HandlerStep)
  updaters : Updater → PollState
  store : MetadataStore
  faults : List Fault
  ended : Option End

inductive AgentLabel where
  | main
  | validationFails
  | poll (updater : Updater) (label : PollLabel)
  | signal
  | handler
  | mainReturns
  deriving DecidableEq

/-- The steps of the thread of an updater. -/
def threadLabel : PollLabel → Bool
  | .initTimer => false
  | .createThread => false
  | .notifyStop => false
  | _ => true

/-- A step of an updater, or of its timer. -/
def updaterStep (s : AgentState) (updater : Updater) (label : PollLabel) : Option AgentState :=
  (pollStep { s.updaters updater with store := s.store } label).map fun next =>
    { s with updaters := Function.update s.updaters updater next, store := next.store }

section Step
variable (options : AgentOptions)

def AgentState.constructed (store : MetadataStore) : AgentState :=
  ⟨mainSteps options, none, fun _ => .constructed store, store, [], none⟩

/-- An updater that does not start throws through `main`. -/
def mainStep (s : AgentState) : Option AgentState :=
  match s.main with
  | [] => none
  | .validateStaticConfiguration updater :: rest =>
    if interval options updater < 0 then some { s with ended := some .terminated }
    else some { s with main := rest }
  | .validateDynamicConfiguration _ :: rest => some { s with main := rest }
  | .initTimer updater :: rest => updaterStep { s with main := rest } updater .initTimer
  | .createThread updater :: rest => updaterStep { s with main := rest } updater .createThread
  | .startServer :: rest => some { s with main := rest }

def validationStep (s : AgentState) : Option AgentState :=
  match s.main with
  | .validateDynamicConfiguration _ :: _ => some { s with ended := some .terminated }
  | _ => none

def handlerStep (s : AgentState) : Option AgentState :=
  match s.handler with
  | some (.stopServer :: rest) =>
    some { s with
      handler := some rest
      faults := if .startServer ∈ s.main then s.faults ++ [.nullServer] else s.faults }
  | some (.notifyStop updater :: rest) =>
    updaterStep { s with
      handler := some rest
      faults := if (s.updaters updater).timer.locked then s.faults
        else s.faults ++ [.unlockedTimer updater] } updater .notifyStop
  | some (.unlockWait :: rest) => some { s with handler := some rest }
  | some (.exit :: rest) => some { s with handler := some rest, ended := some .exited }
  | _ => none

def agentStep (s : AgentState) (label : AgentLabel) : Option AgentState :=
  if s.ended.isSome then none
  else
    match label with
    | .main => mainStep options s
    | .validationFails => validationStep s
    | .poll updater label => if threadLabel label then updaterStep s updater label else none
    | .signal =>
      match s.handler with
      | none => some { s with handler := some (handlerSteps options) }
      | some _ => none
    | .handler => handlerStep s
    | .mainReturns =>
      if s.main = [] ∧ s.handler = some [.exit] then some { s with ended := some .returned }
      else none

end Step

/-! ## Timers -/

/-- Nothing but `Init` and the end of a `Wait` locks the timer, and without `Init` there is no
thread. -/
structure TimerIs (p : PollState) (locked : Bool) : Prop where
  timer : p.timer.locked = locked
  idle : locked = false → p.start = .constructed ∧ p.thread = .notCreated

theorem timerIs_thread {p q : PollState} {locked : Bool} {label : PollLabel} (hp : TimerIs p locked)
    (hlabel : threadLabel label = true) (h : PollMove p label q) : TimerIs q locked := by
  have hlocked : p.thread ≠ .notCreated → locked = true := by
    intro hthread
    cases locked with
    | true => rfl
    | false => exact absurd (hp.idle rfl).2 hthread
  obtain ⟨htimer, -⟩ := hp
  cases h with
  | initTimer | createThread | notifyStop => cases hlabel
  | beginQuery | endQuery | updateStore | endUpdates | timedOut =>
    obtain rfl := hlocked (fun h => by cases h)
    exact ⟨htimer, fun h => by cases h⟩
  | signalled =>
    obtain rfl := hlocked (fun h => by cases h)
    cases htimer

theorem timerIs_initTimer {p q : PollState} (h : PollMove p .initTimer q) : TimerIs q true := by
  cases h
  exact ⟨rfl, fun h => by cases h⟩

theorem timerIs_createThread {p q : PollState} {locked : Bool} (hp : TimerIs p locked)
    (h : PollMove p .createThread q) : TimerIs q locked := by
  obtain ⟨htimer, hidle⟩ := hp
  cases h
  refine ⟨htimer, fun hlocked => ?_⟩
  cases (hidle hlocked).1

theorem updaterStep_eq_some {s t : AgentState} {updater : Updater} {label : PollLabel}
    (h : updaterStep s updater label = some t) :
    ∃ next, PollMove { s.updaters updater with store := s.store } label next ∧
      t = { s with updaters := Function.update s.updaters updater next, store := next.store } := by
  obtain ⟨next, hnext, rfl⟩ := Option.map_eq_some_iff.mp h
  exact ⟨next, pollMove_of_step hnext, rfl⟩

/-- A step of one updater leaves the timers of the others alone. -/
theorem timerIs_update {updaters : Updater → PollState} {updater : Updater} {next : PollState}
    {locked : Updater → Bool} (hothers : ∀ other ≠ updater, TimerIs (updaters other) (locked other))
    (hnext : TimerIs next (locked updater)) (other : Updater) :
    TimerIs (Function.update updaters updater next other) (locked other) := by
  by_cases hother : other = updater
  · rw [hother, Function.update_self]
    exact hnext
  · rw [Function.update_of_ne hother]
    exact hothers other hother

/-! ## Before the handler -/

section Shutdown
variable (options : AgentOptions)

/-- The updater has a thread that polls. -/
def polls (updater : Updater) : Bool :=
  shouldStartUpdater options updater && usesTimer options updater

/-- The timer of the updater has been initialized if this is left of the program. -/
def initialized (main : List MainStep) (updater : Updater) : Bool :=
  polls options updater && decide (MainStep.initTimer updater ∉ main)

theorem initTimer_mem_startSteps {updater other : Updater}
    (h : MainStep.initTimer updater ∈ startSteps options other) : polls options updater = true := by
  rw [startSteps] at h
  split at h
  · rename_i hstart
    split at h
    · rename_i htimer
      simp only [List.mem_cons, reduceCtorEq, MainStep.initTimer.injEq, List.not_mem_nil, or_false,
        false_or] at h
      rw [h, polls, hstart, htimer]
      rfl
    · simp at h
  · simp at h

theorem initTimer_mem_mainSteps {updater : Updater}
    (h : MainStep.initTimer updater ∈ mainSteps options) : polls options updater = true := by
  simp only [mainSteps, List.mem_append, List.mem_singleton, reduceCtorEq, or_false] at h
  rcases h with (h | h) | h <;> exact initTimer_mem_startSteps options h

theorem startSteps_sublist (updater : Updater) :
    (startSteps options updater).Sublist [.validateStaticConfiguration updater,
      .validateDynamicConfiguration updater, .initTimer updater, .createThread updater] := by
  rw [startSteps]
  split
  · split
    · exact List.Sublist.refl _
    · simp
  · simp

theorem mainSteps_nodup : (mainSteps options).Nodup := by
  refine List.Nodup.sublist ((((startSteps_sublist options .instanceUpdater).append
    (startSteps_sublist options .dockerUpdater)).append
      (startSteps_sublist options .kubernetesUpdater)).append (List.Sublist.refl _)) ?_
  decide

theorem startServer_mem {main : List MainStep} (h : main <:+ mainSteps options) (hne : main ≠ []) :
    MainStep.startServer ∈ main := by
  obtain ⟨done, hdone⟩ := h
  rcases List.eq_nil_or_concat main with rfl | ⟨rest, last, rfl⟩
  · exact absurd rfl hne
  · rw [List.concat_eq_append, mainSteps, ← List.append_assoc] at hdone
    have hlast := (List.append_inj' hdone rfl).2
    rw [List.cons.injEq] at hlast
    rw [hlast.1, List.concat_eq_append]
    exact List.mem_append_right _ List.mem_cons_self

/-- What holds until the handler begins. -/
structure Starting (s : AgentState) : Prop where
  main : s.main <:+ mainSteps options
  handler : s.handler = none ∨ s.handler = some (handlerSteps options)
  faults : s.faults = []
  timers : ∀ updater, TimerIs (s.updaters updater) (initialized options s.main updater)

theorem initialized_cons {step : MainStep} {rest : List MainStep}
    (hstep : ∀ updater, step ≠ .initTimer updater) (updater : Updater) :
    initialized options (step :: rest) updater = initialized options rest updater := by
  rw [initialized, initialized]
  congr 1
  rw [decide_eq_decide, List.mem_cons, not_or]
  exact and_iff_right (hstep updater).symm

variable {options}

theorem starting_main {s t : AgentState} (hs : Starting options s)
    (h : mainStep options s = some t) : Starting options t := by
  obtain ⟨hmain, hhandler, hfaults, htimers⟩ := hs
  rw [mainStep] at h
  rcases hsteps : s.main with _ | ⟨step, rest⟩
  · rw [hsteps] at h
    cases h
  rw [hsteps] at h hmain htimers
  have hrest : rest <:+ mainSteps options := (List.suffix_cons step rest).trans hmain
  have hskip : (∀ updater, step ≠ .initTimer updater) → ∀ updater,
      TimerIs (s.updaters updater) (initialized options rest updater) := by
    intro hstep updater
    rw [← initialized_cons options hstep updater]
    exact htimers updater
  cases step with
  | validateStaticConfiguration updater =>
    simp only at h
    split at h
    · cases h
      exact ⟨hmain, hhandler, hfaults, htimers⟩
    · cases h
      exact ⟨hrest, hhandler, hfaults, hskip fun _ h => by cases h⟩
  | validateDynamicConfiguration updater =>
    cases h
    exact ⟨hrest, hhandler, hfaults, hskip fun _ h => by cases h⟩
  | startServer =>
    cases h
    exact ⟨hrest, hhandler, hfaults, hskip fun _ h => by cases h⟩
  | createThread updater =>
    obtain ⟨next, hmove, rfl⟩ := updaterStep_eq_some h
    have hold := hskip fun _ h => by cases h
    have htimer : TimerIs { s.updaters updater with store := s.store }
        (initialized options rest updater) := ⟨(hold updater).timer, (hold updater).idle⟩
    exact ⟨hrest, hhandler, hfaults,
      timerIs_update (fun other _ => hold other) (timerIs_createThread htimer hmove)⟩
  | initTimer updater =>
    obtain ⟨next, hmove, rfl⟩ := updaterStep_eq_some h
    have hnodup := (mainSteps_nodup options).sublist hmain.sublist
    have hgone : MainStep.initTimer updater ∉ rest := (List.nodup_cons.mp hnodup).1
    have hpolls := initTimer_mem_mainSteps options (hmain.mem List.mem_cons_self)
    have hnow : initialized options rest updater = true := by
      rw [initialized, hpolls, decide_eq_true hgone]
      rfl
    refine ⟨hrest, hhandler, hfaults, timerIs_update (fun other hother => ?_) ?_⟩
    · have hsame : initialized options (.initTimer updater :: rest) other =
          initialized options rest other := by
        rw [initialized, initialized]
        congr 1
        rw [decide_eq_decide, List.mem_cons, not_or, MainStep.initTimer.injEq]
        exact and_iff_right hother
      rw [← hsame]
      exact htimers other
    · rw [hnow]
      exact timerIs_initTimer hmove

theorem starting_step {s t : AgentState} {label : AgentLabel} (hs : Starting options s)
    (hlabel : label ≠ .handler) (h : agentStep options s label = some t) : Starting options t := by
  unfold agentStep at h
  split at h
  · cases h
  cases label with
  | main => exact starting_main hs h
  | validationFails =>
    have ht : t = { s with ended := some .terminated } := by
      simp only [validationStep] at h
      split at h
      · cases h
        rfl
      · cases h
    subst ht
    exact ⟨hs.main, hs.handler, hs.faults, hs.timers⟩
  | poll updater label =>
    simp only at h
    split at h
    · rename_i hthread
      obtain ⟨next, hmove, rfl⟩ := updaterStep_eq_some h
      have htimer : TimerIs { s.updaters updater with store := s.store }
          (initialized options s.main updater) :=
        ⟨(hs.timers updater).timer, (hs.timers updater).idle⟩
      exact ⟨hs.main, hs.handler, hs.faults,
        timerIs_update (fun other _ => hs.timers other) (timerIs_thread htimer hthread hmove)⟩
    · cases h
  | signal =>
    simp only at h
    split at h
    · cases h
      exact ⟨hs.main, .inr rfl, hs.faults, hs.timers⟩
    · cases h
  | handler => exact absurd rfl hlabel
  | mainReturns =>
    simp only at h
    split at h
    · cases h
      exact ⟨hs.main, hs.handler, hs.faults, hs.timers⟩
    · cases h

theorem starting_run {store : MetadataStore} {before : List AgentLabel} {s : AgentState}
    (hbefore : AgentLabel.handler ∉ before)
    (h : run (agentStep options) (.constructed options store) before = some s) :
    Starting options s := by
  have hinit : Starting options (.constructed options store) := by
    refine ⟨List.suffix_rfl, .inl rfl, rfl, fun updater => ⟨?_, fun _ => ⟨rfl, rfl⟩⟩⟩
    change false = initialized options (mainSteps options) updater
    rw [initialized]
    cases hpolls : polls options updater with
    | false => rfl
    | true =>
      have hmem : MainStep.initTimer updater ∈ mainSteps options := by
        rw [polls, Bool.and_eq_true] at hpolls
        have hown : MainStep.initTimer updater ∈ startSteps options updater := by
          rw [startSteps, if_pos hpolls.1, if_pos hpolls.2]
          exact List.mem_cons_of_mem _ (List.mem_cons_of_mem _ List.mem_cons_self)
        rw [mainSteps]
        cases updater with
        | instanceUpdater =>
          exact List.mem_append_left _ (List.mem_append_left _ (List.mem_append_left _ hown))
        | dockerUpdater =>
          exact List.mem_append_left _ (List.mem_append_left _ (List.mem_append_right _ hown))
        | kubernetesUpdater =>
          exact List.mem_append_left _ (List.mem_append_right _ hown)
      rw [decide_eq_false (not_not_intro hmem)]
      rfl
  refine run_induction (agentStep options)
    (P := fun ls t => AgentLabel.handler ∉ ls → Starting options t) (fun _ => hinit) ?_ before s h
    hbefore
  intro ls m l t _ hm hstep hls
  rw [List.mem_append, List.mem_singleton, not_or] at hls
  exact starting_step (hm hls.1) (Ne.symm hls.2) hstep

/-! ## The handler -/

def HandlerStep.notifies : HandlerStep → Option Updater
  | .notifyStop updater => some updater
  | _ => none

/-- The updaters that the handler has still to notify. -/
def pending (s : AgentState) : List Updater := (s.handler.getD []).filterMap HandlerStep.notifies

/-- What holds from the end of `Stop` on, if the program had started everything. -/
structure Stopping (options : AgentOptions) (s : AgentState) : Prop where
  main : s.main = []
  handler : ∃ steps, s.handler = some steps ∧ HandlerStep.stopServer ∉ steps
  nodup : (pending s).Nodup
  notified : pending s ⊆ notified options
  timers : ∀ updater ∈ pending s, TimerIs (s.updaters updater) (polls options updater)
  faults : s.faults = [] ↔
    ∀ updater ∈ Agent.notified options, updater ∉ pending s → polls options updater = true

theorem pending_of_handler {s : AgentState} {steps : List HandlerStep}
    (h : s.handler = some steps) : pending s = steps.filterMap HandlerStep.notifies := by
  rw [pending, h]
  rfl

theorem filterMap_notifies (updaters : List Updater) :
    (updaters.map HandlerStep.notifyStop ++ [HandlerStep.unlockWait, .exit]).filterMap
      HandlerStep.notifies = updaters := by
  induction updaters with
  | nil => rfl
  | cons updater updaters ih => exact congrArg (updater :: ·) ih

theorem mem_notified (updater : Updater) :
    updater ∈ notified options ↔ usesTimer options updater = true := by
  rw [notified, List.mem_filter]
  refine and_iff_right ?_
  cases updater <;> decide

theorem polls_iff {updater : Updater} (htimer : usesTimer options updater = true) :
    polls options updater = true ↔ 0 < interval options updater := by
  rw [polls, htimer, Bool.and_true]
  cases updater with
  | instanceUpdater => exact decide_eq_true_iff
  | dockerUpdater => exact decide_eq_true_iff
  | kubernetesUpdater =>
    have hwatch : options.kubernetesUseWatch = false := by
      rw [usesTimer, Bool.not_eq_true'] at htimer
      exact htimer
    rw [shouldStartUpdater, hwatch, Bool.or_false]
    exact decide_eq_true_iff

/-- The server is stopped when the program has started everything. -/
theorem stopping_first {s : AgentState} (hs : Starting options s) (hmain : s.main = []) :
    Stopping options
      { s with handler := some ((notified options).map .notifyStop ++ [.unlockWait, .exit]) } := by
  have hpending : pending
      { s with handler := some ((notified options).map .notifyStop ++ [.unlockWait, .exit]) } =
        notified options := filterMap_notifies (notified options)
  refine ⟨hmain, ⟨_, rfl, ?_⟩, ?_, ?_, ?_, ?_⟩
  · simp
  · rw [hpending, notified]
    exact List.Nodup.filter _ (by decide)
  · rw [hpending]
    exact List.Subset.refl _
  · intro updater _
    have htimer := hs.timers updater
    rw [hmain, initialized, decide_eq_true List.not_mem_nil, Bool.and_true] at htimer
    exact htimer
  · rw [hpending]
    exact iff_of_true hs.faults fun updater hmem hnone => absurd hmem hnone

theorem stopping_notify {s t : AgentState} {updater : Updater} {rest : List HandlerStep}
    (hs : Stopping options s) (hhandler : s.handler = some (.notifyStop updater :: rest))
    (h : handlerStep s = some t) : Stopping options t := by
  obtain ⟨hmain, ⟨steps, hsteps, hstop⟩, hnodup, hsub, htimers, hfaults⟩ := hs
  have hpending : pending s = updater :: rest.filterMap HandlerStep.notifies :=
    pending_of_handler hhandler
  rw [handlerStep, hhandler] at h
  obtain ⟨next, hmove, rfl⟩ := updaterStep_eq_some h
  have hafter : ∀ (updaters : Updater → PollState) (store : MetadataStore) (faults : List Fault),
      pending ⟨s.main, some rest, updaters, store, faults, s.ended⟩ =
        rest.filterMap HandlerStep.notifies := fun _ _ _ => rfl
  rw [hpending] at hnodup hsub htimers hfaults
  obtain ⟨hgone, hrestNodup⟩ := List.nodup_cons.mp hnodup
  have hlocked := (htimers updater List.mem_cons_self).timer
  have hrestStop : HandlerStep.stopServer ∉ rest := by
    rw [hhandler, Option.some.injEq] at hsteps
    rw [← hsteps] at hstop
    exact fun hmem => hstop (List.mem_cons_of_mem _ hmem)
  refine ⟨hmain, ⟨rest, rfl, hrestStop⟩, ?_, ?_, ?_, ?_⟩
  · rw [hafter]
    exact hrestNodup
  · rw [hafter]
    exact fun other hother => hsub (List.mem_cons_of_mem _ hother)
  · rw [hafter]
    intro other hother
    have hne : other ≠ updater := by
      rintro rfl
      exact hgone hother
    have hsame := htimers other (List.mem_cons_of_mem _ hother)
    simp only
    rw [Function.update_of_ne hne]
    exact hsame
  · rw [hafter]
    have hsplit : (if (s.updaters updater).timer.locked then s.faults
        else s.faults ++ [.unlockedTimer updater]) = [] ↔
        s.faults = [] ∧ polls options updater = true := by
      rw [hlocked]
      cases polls options updater with
      | true => simp
      | false => simp
    simp only
    rw [hsplit, hfaults]
    constructor
    · rintro ⟨hall, hown⟩ other hother hrest
      by_cases hne : other = updater
      · rw [hne]
        exact hown
      · refine hall other hother ?_
        rw [List.mem_cons, not_or]
        exact ⟨hne, hrest⟩
    · intro hall
      refine ⟨fun other hother hrest => hall other hother fun hmem =>
        hrest (List.mem_cons_of_mem _ hmem), hall updater (hsub List.mem_cons_self) hgone⟩

/-- A step of the handler that notifies nobody. -/
theorem stopping_quiet {s : AgentState} {step : HandlerStep} {rest : List HandlerStep}
    {ended : Option End} (hs : Stopping options s) (hsteps : s.handler = some (step :: rest))
    (hquiet : step.notifies = none) :
    Stopping options { s with handler := some rest, ended := ended } := by
  obtain ⟨hmain, ⟨steps, hhandler, hstop⟩, hnodup, hsub, htimers, hfaults⟩ := hs
  have hsame : pending { s with handler := some rest, ended := ended } = pending s := by
    rw [pending_of_handler hsteps, List.filterMap_cons_none hquiet]
    rfl
  have hrest : HandlerStep.stopServer ∉ rest := by
    rw [hsteps, Option.some.injEq] at hhandler
    rw [← hhandler] at hstop
    exact fun hmem => hstop (List.mem_cons_of_mem _ hmem)
  rw [← hsame] at hnodup hsub htimers hfaults
  exact ⟨hmain, ⟨rest, rfl, hrest⟩, hnodup, hsub, htimers, hfaults⟩

theorem stopping_step {s t : AgentState} {label : AgentLabel} (hs : Stopping options s)
    (h : agentStep options s label = some t) : Stopping options t := by
  obtain ⟨steps, hsteps, hstop⟩ := hs.handler
  unfold agentStep at h
  split at h
  · cases h
  cases label with
  | main =>
    simp only [mainStep, hs.main] at h
    cases h
  | validationFails =>
    simp only [validationStep, hs.main] at h
    cases h
  | poll updater label =>
    simp only at h
    split at h
    · rename_i hthread
      obtain ⟨next, hmove, rfl⟩ := updaterStep_eq_some h
      refine ⟨hs.main, hs.handler, hs.nodup, hs.notified, fun other hother => ?_, hs.faults⟩
      by_cases hne : other = updater
      · subst hne
        have hold := hs.timers other hother
        have htimer : TimerIs { s.updaters other with store := s.store } (polls options other) :=
          ⟨hold.timer, hold.idle⟩
        simp only
        rw [Function.update_self]
        exact timerIs_thread htimer hthread hmove
      · simp only
        rw [Function.update_of_ne hne]
        exact hs.timers other hother
    · cases h
  | signal =>
    simp only [hsteps] at h
    cases h
  | mainReturns =>
    simp only at h
    split at h
    · cases h
      exact ⟨hs.main, hs.handler, hs.nodup, hs.notified, hs.timers, hs.faults⟩
    · cases h
  | handler =>
    have hpending := pending_of_handler hsteps
    rcases steps with _ | ⟨step, rest⟩
    · simp only [handlerStep, hsteps] at h
      cases h
    cases step with
    | stopServer => exact absurd List.mem_cons_self hstop
    | notifyStop updater => exact stopping_notify hs hsteps h
    | unlockWait =>
      simp only [handlerStep, hsteps] at h
      cases h
      exact stopping_quiet hs hsteps rfl
    | exit =>
      simp only [handlerStep, hsteps] at h
      cases h
      exact stopping_quiet hs hsteps rfl

/-- A fault is not undone. -/
theorem faults_step {s t : AgentState} {label : AgentLabel} (hs : s.faults ≠ [])
    (h : agentStep options s label = some t) : t.faults ≠ [] := by
  unfold agentStep at h
  split at h
  · cases h
  have hupdater : ∀ {s t : AgentState} {updater : Updater} {label : PollLabel},
      updaterStep s updater label = some t → s.faults ≠ [] → t.faults ≠ [] := by
    intro s t updater label h hs
    obtain ⟨next, -, rfl⟩ := updaterStep_eq_some h
    exact hs
  cases label with
  | main =>
    simp only [mainStep] at h
    split at h
    · cases h
    · split at h <;> cases h <;> exact hs
    · cases h
      exact hs
    · exact hupdater h hs
    · exact hupdater h hs
    · cases h
      exact hs
  | validationFails =>
    simp only [validationStep] at h
    split at h
    · cases h
      exact hs
    · cases h
  | poll updater label =>
    simp only at h
    split at h
    · exact hupdater h hs
    · cases h
  | signal | mainReturns =>
    simp only at h
    split at h
    · cases h
      exact hs
    · cases h
  | handler =>
    simp only [handlerStep] at h
    split at h
    · cases h
      simp only
      split
      · exact List.append_ne_nil_of_left_ne_nil hs _
      · exact hs
    · refine hupdater h ?_
      simp only
      split
      · exact hs
      · exact List.append_ne_nil_of_left_ne_nil hs _
    · cases h
      exact hs
    · cases h
      exact hs
    · cases h

/-- Whatever the updaters do in between and wherever the signal comes, the handler goes through
without a fault exactly if the program had started everything when it began and all the updaters
that it notifies have an interval; an updater of the default interval zero is enough for a fault. -/
theorem shutdown_clean_iff {store : MetadataStore} {before after : List AgentLabel}
    {asked stopped : AgentState} (hbefore : AgentLabel.handler ∉ before)
    (hasked : run (agentStep options) (.constructed options store) before = some asked)
    (hstopped : run (agentStep options) asked (.handler :: after) = some stopped)
    (hnotified : pending stopped = []) :
    stopped.faults = [] ↔ asked.main = [] ∧
      ∀ updater, usesTimer options updater = true → 0 < interval options updater := by
  have hstarting := starting_run hbefore hasked
  rw [run, Option.bind_eq_some_iff] at hstopped
  obtain ⟨first, hfirst, hrest⟩ := hstopped
  unfold agentStep at hfirst
  split at hfirst
  · cases hfirst
  have hhandler : asked.handler = some (handlerSteps options) := by
    refine hstarting.handler.resolve_left fun hnone => ?_
    simp only [handlerStep, hnone] at hfirst
    cases hfirst
  simp only [handlerStep, hhandler, handlerSteps, hstarting.faults] at hfirst
  cases hfirst
  by_cases hmain : asked.main = []
  · rw [hmain, if_neg List.not_mem_nil] at hrest
    have hstopping : Stopping options stopped := by
      refine run_induction (agentStep options) (P := fun _ t => Stopping options t) ?_
        (fun _ _ _ _ _ hm h => stopping_step hm h) after stopped hrest
      have hfirst := stopping_first hstarting hmain
      rw [hstarting.faults] at hfirst
      exact hmain ▸ hfirst
    rw [hstopping.faults, hnotified]
    constructor
    · intro hall
      exact ⟨hmain, fun updater htimer => (polls_iff htimer).mp
        (hall updater ((mem_notified updater).mpr htimer) List.not_mem_nil)⟩
    · rintro ⟨-, hall⟩ updater hupdater -
      have htimer := (mem_notified updater).mp hupdater
      exact (polls_iff htimer).mpr (hall updater htimer)
  · refine iff_of_false ?_ fun h => hmain h.1
    have hserver := startServer_mem options hstarting.main hmain
    refine run_induction (agentStep options) (P := fun _ t => t.faults ≠ []) ?_
      (fun _ _ _ _ _ hm h => faults_step hm h) after stopped hrest
    simp only
    rw [if_pos hserver]
    exact List.cons_ne_nil _ _

end Shutdown

/-- The defaults, by which only the instance updater polls. -/
def defaultAgentOptions : AgentOptions := ⟨3600, 0, 0, false⟩

def pollingOptions : AgentOptions := ⟨3600, 60, 60, false⟩

/-- The program has started everything when the signal comes. If all the updaters poll, the timers
that the handler unlocks are locked; by default two of them are not. -/
theorem shutdown_clean_if_polling :
    (∃ stopped, run (agentStep pollingOptions) (.constructed pollingOptions .empty)
        (List.replicate 13 .main ++ [.signal] ++ List.replicate 6 .handler) = some stopped ∧
      stopped.faults = []) ∧
    ∃ stopped, run (agentStep defaultAgentOptions) (.constructed defaultAgentOptions .empty)
        (List.replicate 7 .main ++ [.signal] ++ List.replicate 6 .handler) = some stopped ∧
      stopped.faults ≠ [] := by
  constructor
  · obtain ⟨asked, hasked, hmain⟩ : ∃ asked, run (agentStep pollingOptions)
        (.constructed pollingOptions .empty) (List.replicate 13 .main ++ [.signal]) =
          some asked ∧ asked.main = [] := ⟨_, rfl, rfl⟩
    obtain ⟨stopped, hstopped, hnotified⟩ : ∃ stopped, run (agentStep pollingOptions) asked
        (.handler :: List.replicate 5 .handler) = some stopped ∧ pending stopped = [] := by
      cases hasked
      exact ⟨_, rfl, rfl⟩
    refine ⟨stopped, ?_, ?_⟩
    · rw [run_append, hasked]
      exact hstopped
    · refine (shutdown_clean_iff (by decide) hasked hstopped hnotified).mpr ⟨hmain, ?_⟩
      intro updater _
      cases updater <;> decide
  · obtain ⟨asked, hasked⟩ : ∃ asked, run (agentStep defaultAgentOptions)
        (.constructed defaultAgentOptions .empty) (List.replicate 7 .main ++ [.signal]) =
          some asked := ⟨_, rfl⟩
    obtain ⟨stopped, hstopped, hnotified⟩ : ∃ stopped, run (agentStep defaultAgentOptions) asked
        (.handler :: List.replicate 5 .handler) = some stopped ∧ pending stopped = [] := by
      cases hasked
      exact ⟨_, rfl, rfl⟩
    refine ⟨stopped, ?_, fun hnone => ?_⟩
    · rw [run_append, hasked]
      exact hstopped
    · have hclean := (shutdown_clean_iff (by decide) hasked hstopped hnotified).mp hnone
      exact absurd (hclean.2 .dockerUpdater rfl) (by decide)

end MetadataAgent.Agent
