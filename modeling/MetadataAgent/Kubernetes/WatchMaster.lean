import MetadataAgent.Kubernetes.Owners
import MetadataAgent.Lib.Streaks
import Mathlib.Data.Int.Notation

/-! # The connections of a watch

`WatchMaster` makes one connection after another. A connection ends without an error, or with a
`system_error`; two counters, the attempts and the errors in a row, decide when the loop is over.
The pause after an error and the timers of a connection are left out. -/
namespace MetadataAgent.KubernetesReader
open Lib Json
set_option autoImplicit false

/-! ## The loop -/

/-- The options of the loop, with the defaults of the configuration. -/
structure WatchOptions where
  kubernetesUpdaterWatchConnectionRetries : ℤ := 0
  kubernetesUpdaterWatchMaxConnectionFailures : ℤ := 15
  deriving DecidableEq

/-- How a connection ended. -/
inductive Connection where
  | completed
  | systemError (what : Bytes)
  deriving DecidableEq

def Connection.failed : Connection → Bool
  | .completed => false
  | .systemError _ => true

/-- The variables `i` and `failures` of the loop. -/
structure WatchLoop where
  i : ℕ
  failures : ℕ
  deriving DecidableEq

/-- How the call ended and how many connections it has made. -/
structure Watched where
  outcome : Except QueryException Unit
  attempts : ℕ
  deriving DecidableEq

def watchParam : Bytes := lit "watch=true"

def watchEndpoint (config : Configuration) (path : Bytes) : Bytes :=
  let query := if path.all fun c => c ≠ 0x3F then lit "?" else lit "&"
  config.kubernetesEndpointHost ++ path ++ (query ++ watchParam)

section WatchMaster
variable (options : WatchOptions) (endpoint : Bytes) (connection : ℕ → Connection)

/-- The condition of the loop. -/
def Attempted (i : ℕ) : Prop :=
  options.kubernetesUpdaterWatchConnectionRetries ≤ 0 ∨
    (i : ℤ) < options.kubernetesUpdaterWatchConnectionRetries

instance (i : ℕ) : Decidable (Attempted options i) :=
  inferInstanceAs (Decidable (_ ∨ _))

def watchTurn (s : WatchLoop) : Watched ⊕ WatchLoop :=
  if Attempted options s.i then
    match connection s.i with
    | .completed => .inr ⟨s.i + 1, 0⟩
    | .systemError what =>
      let failures := s.failures + 1
      if (failures : ℤ) > options.kubernetesUpdaterWatchMaxConnectionFailures then
        .inl ⟨.error ⟨endpoint ++ lit " -> " ++ what, false⟩, s.i + 1⟩
      else .inr ⟨s.i + 1, failures⟩
  else .inl ⟨.ok (), s.i⟩

def watchMaster (config : Configuration) (path : Bytes) (fuel : ℕ) : Option Watched :=
  iterate (watchTurn options (watchEndpoint config path) connection) fuel ⟨0, 0⟩

/-! ## What ends it -/

/-- Attempt `k` is the last of `maximum + 1` errors in a row. -/
def CompletesErrors (maximum : ℤ) (k : ℕ) : Prop :=
  maximum ≤ k ∧ ∀ j : ℕ, (k : ℤ) ≤ j + maximum → j ≤ k → (connection j).failed = true

/-- The first attempt of the call that completes a run of too many errors. -/
structure Exhausts (k : ℕ) : Prop where
  attempted : Attempted options k
  completes : CompletesErrors connection options.kubernetesUpdaterWatchMaxConnectionFailures k
  first : ∀ j < k,
    ¬ CompletesErrors connection options.kubernetesUpdaterWatchMaxConnectionFailures j

variable {options endpoint connection}

/-! ## Its states -/

/-- The errors in a row before attempt `i`. -/
def errorsBefore (connection : ℕ → Connection) (i : ℕ) : ℕ :=
  streak (fun j => (connection j).failed) i

theorem completesErrors_iff {maximum : ℤ} (hmaximum : 0 ≤ maximum) (k : ℕ) :
    CompletesErrors connection maximum k ↔ maximum < errorsBefore connection (k + 1) := by
  obtain ⟨m, rfl⟩ := Int.eq_ofNat_of_zero_le hmaximum
  have hstreak := le_streak_iff (p := fun j => (connection j).failed) (n := m + 1) (k := k + 1)
  have hcast : (m : ℤ) < errorsBefore connection (k + 1) ↔
      m + 1 ≤ streak (fun j => (connection j).failed) (k + 1) := by
    unfold errorsBefore
    omega
  unfold CompletesErrors
  rw [hcast, hstreak]
  constructor
  · rintro ⟨hk, hall⟩
    refine ⟨by omega, ?_⟩
    intro j hkj hj
    exact hall j (by omega) (by omega)
  · rintro ⟨hk, hall⟩
    refine ⟨by omega, ?_⟩
    intro j hkj hj
    exact hall j (by omega) (by omega)

theorem errorsBefore_succ_of_completed {i : ℕ} (h : connection i = .completed) :
    errorsBefore connection (i + 1) = 0 := by
  refine streak_succ_of_false ?_
  rw [h]
  rfl

theorem errorsBefore_succ_of_systemError {i : ℕ} {what : Bytes}
    (h : connection i = .systemError what) :
    errorsBefore connection (i + 1) = errorsBefore connection i + 1 := by
  refine streak_succ_of_true ?_
  rw [h]
  rfl

/-- The loop goes on after attempt `j`. -/
structure GoesOn (options : WatchOptions) (connection : ℕ → Connection) (j : ℕ) : Prop where
  attempted : Attempted options j
  tolerated : (errorsBefore connection (j + 1) : ℤ) ≤
    options.kubernetesUpdaterWatchMaxConnectionFailures

/-- What a turn does. -/
inductive WatchMove (options : WatchOptions) (endpoint : Bytes) (connection : ℕ → Connection)
    (i : ℕ) : Watched ⊕ WatchLoop → Prop
  | goesOn : GoesOn options connection i →
      WatchMove options endpoint connection i (.inr ⟨i + 1, errorsBefore connection (i + 1)⟩)
  | retriesOver : ¬ Attempted options i →
      WatchMove options endpoint connection i (.inl ⟨.ok (), i⟩)
  | failuresOver {what : Bytes} : Attempted options i → connection i = .systemError what →
      options.kubernetesUpdaterWatchMaxConnectionFailures < errorsBefore connection (i + 1) →
      WatchMove options endpoint connection i
        (.inl ⟨.error ⟨endpoint ++ lit " -> " ++ what, false⟩, i + 1⟩)

theorem watchMove_of_turn (hmaximum : 0 ≤ options.kubernetesUpdaterWatchMaxConnectionFailures)
    (i : ℕ) :
    WatchMove options endpoint connection i
      (watchTurn options endpoint connection ⟨i, errorsBefore connection i⟩) := by
  unfold watchTurn
  by_cases hattempted : Attempted options i
  · rw [if_pos hattempted]
    cases hconnection : connection i with
    | completed =>
      have hzero := errorsBefore_succ_of_completed hconnection
      simp only
      rw [← hzero]
      exact .goesOn ⟨hattempted, by rw [hzero]; exact hmaximum⟩
    | systemError what =>
      have hsucc := errorsBefore_succ_of_systemError hconnection
      by_cases hover : options.kubernetesUpdaterWatchMaxConnectionFailures <
          ((errorsBefore connection i + 1 : ℕ) : ℤ)
      · simp only
        rw [if_pos hover]
        exact .failuresOver hattempted hconnection (by rw [hsucc]; exact hover)
      · simp only
        rw [if_neg hover, ← hsucc]
        exact .goesOn ⟨hattempted, by rw [hsucc]; omega⟩
  · rw [if_neg hattempted]
    exact .retriesOver hattempted

theorem WatchMove.unique {i : ℕ} {turn turn' : Watched ⊕ WatchLoop}
    (h : WatchMove options endpoint connection i turn)
    (h' : WatchMove options endpoint connection i turn') : turn = turn' := by
  cases h with
  | goesOn hgoes =>
    cases h' with
    | goesOn _ => rfl
    | retriesOver hover => exact absurd hgoes.attempted hover
    | failuresOver _ _ hover => exact absurd hgoes.tolerated (by omega)
  | retriesOver hover =>
    cases h' with
    | goesOn hgoes => exact absurd hgoes.attempted hover
    | retriesOver _ => rfl
    | failuresOver hattempted _ _ => exact absurd hattempted hover
  | failuresOver hattempted hconnection hover =>
    cases h' with
    | goesOn hgoes => exact absurd hgoes.tolerated (by omega)
    | retriesOver hover => exact absurd hattempted hover
    | failuresOver _ hconnection' _ =>
      rw [hconnection, Connection.systemError.injEq] at hconnection'
      rw [hconnection']

theorem watchTurn_eq_iff (hmaximum : 0 ≤ options.kubernetesUpdaterWatchMaxConnectionFailures)
    (i : ℕ) (turn : Watched ⊕ WatchLoop) :
    watchTurn options endpoint connection ⟨i, errorsBefore connection i⟩ = turn ↔
      WatchMove options endpoint connection i turn := by
  constructor
  · rintro rfl
    exact watchMove_of_turn hmaximum i
  · intro h
    exact (watchMove_of_turn hmaximum i).unique h

/-- The states of the loop: all attempts before were made and tolerated. -/
theorem reached_iff (hmaximum : 0 ≤ options.kubernetesUpdaterWatchMaxConnectionFailures)
    (t : WatchLoop) :
    Relation.ReflTransGen (GoesTo (watchTurn options endpoint connection)) ⟨0, 0⟩ t ↔
      t = ⟨t.i, errorsBefore connection t.i⟩ ∧ ∀ j < t.i, GoesOn options connection j := by
  constructor
  · intro h
    induction h with
    | refl =>
      refine ⟨rfl, ?_⟩
      intro j hj
      exact absurd hj (Nat.not_lt_zero j)
    | @tail s t _ hturn ih =>
      obtain ⟨hs, hbefore⟩ := ih
      rw [hs, GoesTo, watchTurn_eq_iff hmaximum] at hturn
      cases hturn with
      | goesOn hgoes =>
        refine ⟨rfl, ?_⟩
        intro j hj
        rcases Nat.lt_succ_iff_lt_or_eq.mp hj with hj | rfl
        · exact hbefore j hj
        · exact hgoes
  · rintro ⟨ht, hbefore⟩
    rw [ht]
    generalize t.i = i at hbefore
    induction i with
    | zero => exact .refl
    | succ i ih =>
      refine .tail (ih fun j hj => hbefore j (Nat.lt_succ_of_lt hj)) ?_
      rw [GoesTo, watchTurn_eq_iff hmaximum]
      exact .goesOn (hbefore i (Nat.lt_succ_self i))

/-- What the call ends with, from the turn that ends it. -/
theorem watchMaster_eq_some_iff
    (hmaximum : 0 ≤ options.kubernetesUpdaterWatchMaxConnectionFailures) (config : Configuration)
    (path : Bytes) (r : Watched) :
    (∃ fuel, watchMaster options connection config path fuel = some r) ↔
      ∃ i, (∀ j < i, GoesOn options connection j) ∧
        WatchMove options (watchEndpoint config path) connection i (.inl r) := by
  unfold watchMaster
  rw [iterate_eq_some_iff]
  constructor
  · rintro ⟨t, hreached, hturn⟩
    obtain ⟨ht, hbefore⟩ := (reached_iff hmaximum t).mp hreached
    rw [ht, watchTurn_eq_iff hmaximum] at hturn
    exact ⟨t.i, hbefore, hturn⟩
  · rintro ⟨i, hbefore, hends⟩
    refine ⟨⟨i, errorsBefore connection i⟩, (reached_iff hmaximum _).mpr ⟨rfl, hbefore⟩, ?_⟩
    rw [watchTurn_eq_iff hmaximum]
    exact hends

/-! ## The accounting -/

theorem Attempted.of_lt {j k : ℕ} (h : Attempted options k) (hj : j < k) : Attempted options j := by
  unfold Attempted at h ⊢
  omega

theorem exhausts_iff (hmaximum : 0 ≤ options.kubernetesUpdaterWatchMaxConnectionFailures)
    (k : ℕ) :
    Exhausts options connection k ↔ (∀ j < k, GoesOn options connection j) ∧
      Attempted options k ∧
      options.kubernetesUpdaterWatchMaxConnectionFailures < errorsBefore connection (k + 1) := by
  constructor
  · rintro ⟨hattempted, hcompletes, hfirst⟩
    refine ⟨?_, hattempted, (completesErrors_iff hmaximum k).mp hcompletes⟩
    intro j hj
    refine ⟨hattempted.of_lt hj, ?_⟩
    have hnot := hfirst j hj
    rw [completesErrors_iff hmaximum] at hnot
    omega
  · rintro ⟨hbefore, hattempted, hover⟩
    refine ⟨hattempted, (completesErrors_iff hmaximum k).mpr hover, ?_⟩
    intro j hj
    rw [completesErrors_iff hmaximum]
    have htolerated := (hbefore j hj).tolerated
    omega

/-- The attempts are over after as many as the option says, and never if it is not positive. -/
theorem retries_of_over {n : ℕ} (hbefore : ∀ j < n, Attempted options j)
    (hover : ¬ Attempted options n) :
    0 < options.kubernetesUpdaterWatchConnectionRetries ∧
      (n : ℤ) = options.kubernetesUpdaterWatchConnectionRetries := by
  unfold Attempted at hbefore hover
  cases n with
  | zero => omega
  | succ n =>
    have hlast := hbefore n (Nat.lt_succ_self n)
    omega

/-- If the attempts before `n` complete no run of too many errors, the loop goes on past them. -/
theorem goesOn_of_not_exhausts
    (hmaximum : 0 ≤ options.kubernetesUpdaterWatchMaxConnectionFailures) {n : ℕ}
    (hattempted : ∀ j < n, Attempted options j) (h : ∀ k, ¬ Exhausts options connection k) :
    ∀ j < n, GoesOn options connection j := by
  intro j
  induction j using Nat.strongRecOn with
  | ind j ih =>
    intro hj
    refine ⟨hattempted j hj, ?_⟩
    by_contra hover
    refine h j ((exhausts_iff hmaximum j).mpr ⟨?_, hattempted j hj, by omega⟩)
    intro l hl
    exact ih l hl (by omega)

/-- The call throws at the first attempt that completes a run of one error more than the maximum,
and makes no other; without such an attempt it returns only if the retries are bounded, after all
of them. A connection that ends without an error resets the count. -/
theorem watch_accounting (hmaximum : 0 ≤ options.kubernetesUpdaterWatchMaxConnectionFailures)
    (config : Configuration) (path : Bytes) :
    (∀ e n, (∃ fuel, watchMaster options connection config path fuel = some ⟨.error e, n⟩) ↔
      ∃ k what, Exhausts options connection k ∧ connection k = .systemError what ∧
        e = ⟨watchEndpoint config path ++ lit " -> " ++ what, false⟩ ∧ n = k + 1) ∧
    (∀ n, (∃ fuel, watchMaster options connection config path fuel = some ⟨.ok (), n⟩) ↔
      0 < options.kubernetesUpdaterWatchConnectionRetries ∧
        (n : ℤ) = options.kubernetesUpdaterWatchConnectionRetries ∧
        ∀ k, ¬ Exhausts options connection k) ∧
    (∀ i failures, Relation.ReflTransGen
      (GoesTo (watchTurn options (watchEndpoint config path) connection)) ⟨0, 0⟩
        ⟨i + 1, failures⟩ → connection i = .completed → failures = 0) := by
  refine ⟨?_, ?_, ?_⟩
  · intro e n
    rw [watchMaster_eq_some_iff hmaximum]
    constructor
    · rintro ⟨k, hbefore, hends⟩
      cases hends with
      | @failuresOver what hattempted hconnection hover =>
        exact ⟨k, what, (exhausts_iff hmaximum k).mpr ⟨hbefore, hattempted, hover⟩, hconnection,
          rfl, rfl⟩
    · rintro ⟨k, what, hexhausts, hconnection, rfl, rfl⟩
      obtain ⟨hbefore, hattempted, hover⟩ := (exhausts_iff hmaximum k).mp hexhausts
      exact ⟨k, hbefore, .failuresOver hattempted hconnection hover⟩
  · intro n
    rw [watchMaster_eq_some_iff hmaximum]
    constructor
    · rintro ⟨i, hbefore, hends⟩
      cases hends with
      | retriesOver hover =>
        obtain ⟨hpos, hn⟩ := retries_of_over (fun j hj => (hbefore j hj).attempted) hover
        refine ⟨hpos, hn, ?_⟩
        intro k hk
        obtain ⟨_, hattempted, hmany⟩ := (exhausts_iff hmaximum k).mp hk
        have hlt : k < n := by
          unfold Attempted at hattempted
          omega
        have htolerated := (hbefore k hlt).tolerated
        omega
    · rintro ⟨hpos, hn, hnone⟩
      refine ⟨n, goesOn_of_not_exhausts hmaximum ?_ hnone, .retriesOver ?_⟩
      · intro j hj
        unfold Attempted
        omega
      · unfold Attempted
        omega
  · intro i failures hreached hcompleted
    have hstate := ((reached_iff hmaximum _).mp hreached).1
    have hfailures := congrArg WatchLoop.failures hstate
    rw [errorsBefore_succ_of_completed hcompleted] at hfailures
    exact hfailures

end WatchMaster

/-- An error, a connection that ends without one, and then only errors. -/
def flappingMaster : ℕ → Connection
  | 1 => .completed
  | _ => .systemError (lit "Connection refused")

def watchedMaster : Configuration := ⟨lit "https://master", lit "0.1", lit "."⟩

/-- With one error tolerated, the error before the clean end does not count. -/
theorem flappingMaster_exhausts : ∃ fuel,
    watchMaster ⟨0, 1⟩ flappingMaster watchedMaster (lit "/api/v1/pods") fuel =
      some ⟨.error ⟨lit "https://master/api/v1/pods?watch=true -> Connection refused", false⟩,
        4⟩ := by
  have hmaximum : 0 ≤ (⟨0, 1⟩ : WatchOptions).kubernetesUpdaterWatchMaxConnectionFailures := by
    decide
  refine ((watch_accounting hmaximum watchedMaster (lit "/api/v1/pods")).1 _ 4).mpr
    ⟨3, lit "Connection refused", ⟨?_, ?_, ?_⟩, rfl, ?_, rfl⟩
  · exact .inl (le_refl 0)
  · refine ⟨by decide, ?_⟩
    intro j hkj hj
    have hcases : j = 2 ∨ j = 3 := by
      simp only at hkj
      omega
    rcases hcases with rfl | rfl
    · rfl
    · rfl
  · rintro j hj ⟨hle, hall⟩
    have hcases : j = 1 ∨ j = 2 := by
      simp only at hle
      omega
    have hone : (flappingMaster 1).failed = true := by
      refine hall 1 ?_ ?_
      · simp only
        omega
      · omega
    cases hone
  · rfl

end MetadataAgent.KubernetesReader
