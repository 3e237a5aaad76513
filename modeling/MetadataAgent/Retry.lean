import Mathlib.Data.Int.Notation
import Mathlib.Data.Nat.Find
import Mathlib.Order.Bounds.Basic

/-! # Retries

`util::Retry` calls its work until it succeeds or throws `Terminate`, an exception that is not a
`Fail`, or a `Fail` on the last attempt. The number of the decisive attempt is all there is to know
about a run. -/
namespace MetadataAgent.Util
set_option autoImplicit false

inductive RetryEvent where
  | call
  | sleep
  deriving DecidableEq

/-- What happened in a run, and how it ended. -/
structure RetryRun (ε : Type) where
  events : List RetryEvent
  outcome : Except ε Unit
  deriving DecidableEq

/-- How often the work was called. -/
def RetryRun.calls {ε : Type} (run : RetryRun ε) : ℕ := run.events.count .call

/-- A sleep between any two consecutive calls, and no other. -/
def callsWithSleeps : ℕ → List RetryEvent
  | 0 => []
  | 1 => [.call]
  | k + 2 => .call :: .sleep :: callsWithSleeps (k + 1)

theorem count_callsWithSleeps (k : ℕ) :
    (callsWithSleeps k).count .call = k ∧ (callsWithSleeps k).count .sleep = k - 1 := by
  induction k using callsWithSleeps.induct with
  | case1 => exact ⟨rfl, rfl⟩
  | case2 => exact ⟨rfl, rfl⟩
  | case3 k ih =>
    obtain ⟨hcalls, hsleeps⟩ := ih
    simp only [callsWithSleeps, List.count_cons, beq_self_eq_true, if_true] at *
    constructor
    · rw [hcalls]
      simp
    · rw [hsleeps]
      simp

@[simp] theorem calls_callsWithSleeps {ε : Type} (k : ℕ) (outcome : Except ε Unit) :
    RetryRun.calls ⟨callsWithSleeps k, outcome⟩ = k :=
  (count_callsWithSleeps k).1

section Retry
variable {ε : Type} (asTerminate asFail : ε → Option ε) (maxRetries : ℤ)
  (work : ℕ → Except ε Unit)

/-- The loop of `Retry`; `work i` is the outcome of the call with the counter at `i`. The handlers
are tried in this order, and each of them throws what it binds. -/
def retryFrom (i : ℕ) : RetryRun ε :=
  match work i with
  | .ok () => ⟨[.call], .ok ()⟩
  | .error e =>
    match asTerminate e with
    | some terminate => ⟨[.call], .error terminate⟩
    | none =>
      match asFail e with
      | some fail =>
        if (i : ℤ) < maxRetries - 1 then
          let rest := retryFrom (i + 1)
          ⟨.call :: .sleep :: rest.events, rest.outcome⟩
        else ⟨[.call], .error fail⟩
      | none => ⟨[.call], .error e⟩
termination_by (maxRetries - i).toNat

def retry : RetryRun ε := retryFrom asTerminate asFail maxRetries work 0

/-- The exceptions that are retried. -/
def PlainFail (outcome : Except ε Unit) : Prop :=
  ∃ e, outcome = .error e ∧ asTerminate e = none ∧ (asFail e).isSome = true

/-- A handler binds the object that was thrown and not a base of it. -/
structure BindsThrown : Prop where
  terminate : ∀ e bound, asTerminate e = some bound → bound = e
  fail : ∀ e bound, asTerminate e = none → asFail e = some bound → bound = e

/-- Attempt `k` decides: all before it are plain failures, and it is not, or it is the last one. -/
structure Decides (k : ℕ) : Prop where
  failed : ∀ j < k, PlainFail asTerminate asFail (work j)
  within : (k : ℤ) < maxRetries
  decisive : (k : ℤ) = maxRetries - 1 ∨ ¬ PlainFail asTerminate asFail (work k)

variable {asTerminate asFail maxRetries work}

theorem retryFrom_of_plainFail {i : ℕ} (h : PlainFail asTerminate asFail (work i))
    (hi : (i : ℤ) < maxRetries - 1) :
    retryFrom asTerminate asFail maxRetries work i =
      ⟨.call :: .sleep :: (retryFrom asTerminate asFail maxRetries work (i + 1)).events,
        (retryFrom asTerminate asFail maxRetries work (i + 1)).outcome⟩ := by
  obtain ⟨e, he, hterminate, hfail⟩ := h
  obtain ⟨bound, hbound⟩ := Option.isSome_iff_exists.mp hfail
  rw [retryFrom, he]
  simp [hterminate, hbound, hi]

theorem retryFrom_of_decisive (hbinds : BindsThrown asTerminate asFail) {i : ℕ}
    (h : maxRetries - 1 ≤ (i : ℤ) ∨ ¬ PlainFail asTerminate asFail (work i)) :
    retryFrom asTerminate asFail maxRetries work i = ⟨[.call], work i⟩ := by
  rw [retryFrom]
  cases hwork : work i with
  | ok u => rfl
  | error e =>
    simp only
    cases hterminate : asTerminate e with
    | some bound => rw [hbinds.terminate e bound hterminate]
    | none =>
      simp only
      cases hfail : asFail e with
      | none => rfl
      | some bound =>
        have hplain : PlainFail asTerminate asFail (work i) :=
          ⟨e, hwork, hterminate, by rw [hfail]; rfl⟩
        have hlast : ¬ (i : ℤ) < maxRetries - 1 := by
          rcases h with h | h
          · omega
          · exact absurd hplain h
        simp only [if_neg hlast, hbinds.fail e bound hterminate hfail]

/-- From a counter, the run goes on to the decisive attempt. -/
theorem retryFrom_of_decides (hbinds : BindsThrown asTerminate asFail) {k : ℕ}
    (h : Decides asTerminate asFail maxRetries work k) {i d : ℕ} (hi : i + d = k) :
    retryFrom asTerminate asFail maxRetries work i = ⟨callsWithSleeps (d + 1), work k⟩ := by
  induction d generalizing i with
  | zero =>
    obtain rfl : i = k := hi
    refine retryFrom_of_decisive hbinds ?_
    rcases h.decisive with hlast | hother
    · left
      omega
    · exact Or.inr hother
  | succ d ih =>
    have hwithin := h.within
    rw [retryFrom_of_plainFail (h.failed i (by omega)) (by omega), ih (by omega)]
    rfl

theorem retry_of_decides (hbinds : BindsThrown asTerminate asFail) {k : ℕ}
    (h : Decides asTerminate asFail maxRetries work k) :
    retry asTerminate asFail maxRetries work = ⟨callsWithSleeps (k + 1), work k⟩ :=
  retryFrom_of_decides hbinds h (Nat.zero_add k)

/-- An earlier attempt than the decisive one is retried. -/
theorem Decides.le {k l : ℕ} (hk : Decides asTerminate asFail maxRetries work k)
    (hl : Decides asTerminate asFail maxRetries work l) : l ≤ k := by
  by_contra hlt
  have hwithin := hl.within
  rcases hk.decisive with hlast | hother
  · omega
  · exact hother (hl.failed k (not_le.mp hlt))

theorem Decides.unique {k l : ℕ} (hk : Decides asTerminate asFail maxRetries work k)
    (hl : Decides asTerminate asFail maxRetries work l) : k = l :=
  le_antisymm (hl.le hk) (hk.le hl)

/-- With at least one attempt, one of them decides. -/
theorem exists_decides (h : 1 ≤ maxRetries) :
    ∃ k, Decides asTerminate asFail maxRetries work k := by
  obtain ⟨last, hlast⟩ : ∃ last : ℕ, (last : ℤ) = maxRetries - 1 :=
    ⟨(maxRetries - 1).toNat, by omega⟩
  by_cases hall : ∀ j < last, PlainFail asTerminate asFail (work j)
  · exact ⟨last, hall, by omega, Or.inl hlast⟩
  · have hexists : ∃ k, k < last ∧ ¬ PlainFail asTerminate asFail (work k) := by
      by_contra hnone
      exact hall fun j hj => by_contra fun hfail => hnone ⟨j, hj, hfail⟩
    classical
    obtain ⟨hfirst, hdecisive⟩ := Nat.find_spec hexists
    refine ⟨Nat.find hexists, ?_, by omega, Or.inr hdecisive⟩
    intro j hj
    by_contra hfail
    exact Nat.find_min hexists hj ⟨by omega, hfail⟩

end Retry

/-! ## Terminate and Fail -/

/-- What the work may throw; the class `Terminate` may be derived from `Fail`. -/
inductive Thrown (α : Type) where
  | fail (what : α)
  | terminate (derived : Bool) (what : α)
  | other (what : α)
  deriving DecidableEq

/-- What `catch (const Terminate& e)` binds, and `throw e` throws there. -/
def Thrown.asTerminate {α : Type} : Thrown α → Option (Thrown α)
  | .terminate derived what => some (.terminate derived what)
  | _ => none

/-- What `catch (const Fail& e)` binds, which is the base of a derived object. -/
def Thrown.asFail {α : Type} : Thrown α → Option (Thrown α)
  | .fail what => some (.fail what)
  | .terminate true what => some (.fail what)
  | _ => none

/-- No base is thrown: a derived object is caught before. -/
theorem Thrown.bindsThrown {α : Type} : BindsThrown (@Thrown.asTerminate α) Thrown.asFail where
  terminate e bound h := by
    cases e with
    | terminate derived what => exact (Option.some.inj h).symm
    | fail what => cases h
    | other what => cases h
  fail e bound hterminate h := by
    cases e with
    | terminate derived what => cases hterminate
    | fail what => exact (Option.some.inj h).symm
    | other what => cases h

section Events
variable {α : Type} (maxRetries : ℤ) (work : ℕ → Except (Thrown α) Unit)

def retryRun : RetryRun (Thrown α) := retry Thrown.asTerminate Thrown.asFail maxRetries work

/-- A call that throws a `Fail` which is no `Terminate`. -/
def ThrowsPlainFail (i : ℕ) : Prop := ∃ what, work i = .error (.fail what)

variable {maxRetries work}

theorem throwsPlainFail_iff {i : ℕ} :
    ThrowsPlainFail work i ↔ PlainFail Thrown.asTerminate Thrown.asFail (work i) := by
  constructor
  · rintro ⟨what, h⟩
    exact ⟨.fail what, h, rfl, rfl⟩
  · rintro ⟨e, h, hterminate, hfail⟩
    cases e with
    | fail what => exact ⟨what, h⟩
    | terminate derived what => cases hterminate
    | other what => cases hfail

/-- The least attempt at which a run can end, counted from one. -/
def LastCall (maxRetries : ℤ) (work : ℕ → Except (Thrown α) Unit) (k : ℕ) : Prop :=
  IsLeast {n : ℕ | (n : ℤ) = maxRetries ∨ ∃ j, n = j + 1 ∧ ¬ ThrowsPlainFail work j} k

theorem Decides.lastCall {k : ℕ} (h : Decides Thrown.asTerminate Thrown.asFail maxRetries work k) :
    LastCall maxRetries work (k + 1) := by
  have hwithin := h.within
  constructor
  · rcases h.decisive with hlast | hother
    · left
      push_cast
      omega
    · exact Or.inr ⟨k, rfl, fun hplain => hother (throwsPlainFail_iff.mp hplain)⟩
  · rintro n (hlast | ⟨j, rfl, hother⟩)
    · omega
    · by_contra hlt
      exact hother (throwsPlainFail_iff.mpr (h.failed j (by omega)))

/-- A run ends with the first call that is decisive, or with the last one allowed. -/
theorem retry_law (h : 1 ≤ maxRetries) (work : ℕ → Except (Thrown α) Unit) :
    ∃ k, LastCall maxRetries work k ∧
      (retryRun maxRetries work).events = callsWithSleeps k ∧
      (retryRun maxRetries work).events.count .call = k ∧
      (retryRun maxRetries work).events.count .sleep = k - 1 ∧
      (retryRun maxRetries work).outcome = work (k - 1) := by
  have hexists : ∃ k, Decides Thrown.asTerminate Thrown.asFail maxRetries work k := exists_decides h
  obtain ⟨k, hk⟩ := hexists
  obtain ⟨hcalls, hsleeps⟩ := count_callsWithSleeps (k + 1)
  have hrun : retryRun maxRetries work = ⟨callsWithSleeps (k + 1), work k⟩ :=
    retry_of_decides Thrown.bindsThrown hk
  rw [hrun]
  exact ⟨k + 1, hk.lastCall, rfl, hcalls, hsleeps, rfl⟩

/-- Four failures, and then a `Terminate` that is a `Fail` too. -/
def failingFourTimes (i : ℕ) : Except (Thrown Unit) Unit :=
  if i < 4 then .error (.fail ()) else .error (.terminate true ())

theorem retry_law_failingFourTimes : ∃ k, LastCall 10 failingFourTimes k ∧
    (retryRun 10 failingFourTimes).events = callsWithSleeps k ∧
    (retryRun 10 failingFourTimes).events.count .call = k ∧
    (retryRun 10 failingFourTimes).events.count .sleep = k - 1 ∧
    (retryRun 10 failingFourTimes).outcome = failingFourTimes (k - 1) :=
  retry_law (by decide) failingFourTimes

end Events

end MetadataAgent.Util
