import MetadataAgent.Instance
import MetadataAgent.Kubernetes.Query
import MetadataAgent.Retry

/-! # Dynamic validation

Before an updater starts, its reader tries its queries, ten times at most. A failure is to be
reported as a `ConfigurationValidationError`, the one exception that `ValidateDynamicConfiguration`
declares. The body of an answer is parsed, too, and nothing handles the `json::Exception` of that;
and for an empty node name the Kubernetes reader throws a pointer. -/
namespace MetadataAgent
open Lib Json Util
open KubernetesReader (QueryException)
set_option autoImplicit false

/-- What leaves `ValidateDynamicConfiguration`: the declared exception, a pointer to one, or an
exception of a query. -/
inductive ValidationThrown (ε : Type) where
  | validation (what : Bytes)
  | pointer (what : Bytes)
  | query (e : ε)

section Queries
variable {ε : Type} (asQuery : ε → Option QueryException)

def isNonRetriable (e : ε) : Bool := (asQuery e).any QueryException.nonRetriable

def isQueryException (e : ε) : Bool := (asQuery e).isSome

/-- `catch (const NonRetriableError& e)`. -/
def asNonRetriable (e : ε) : Option ε := Option.guard (isNonRetriable asQuery) e

/-- `catch (const QueryException& e)`. -/
def asQueryException (e : ε) : Option ε := Option.guard (isQueryException asQuery) e

theorem asNonRetriable_bindsThrown :
    BindsThrown (asNonRetriable asQuery) (asQueryException asQuery) where
  terminate _ _ h := (Option.guard_eq_some_iff.mp h).1.symm
  fail _ _ _ h := (Option.guard_eq_some_iff.mp h).1.symm

/-- One validation query: `Retry`, and the handlers around it with the texts for a non-retriable
error and for the last attempt. The number is that of the attempts. -/
def validateQuery (validationFailed retryLimitReached : Bytes) (attempt : ℕ → Except ε Value) :
    Except (ValidationThrown ε) Unit × ℕ :=
  let retried := retry (asNonRetriable asQuery) (asQueryException asQuery) 10 fun i =>
    (attempt i).map fun _ => ()
  match retried.outcome with
  | .ok () => (.ok (), retried.calls)
  | .error e =>
    match asQuery e with
    | none => (.error (.query e), retried.calls)
    | some q =>
      (.error (.validation ((if q.nonRetriable then validationFailed else retryLimitReached) ++
        q.what)), retried.calls)

/-- The attempts before the `k`th one failed with retriable exceptions. -/
def RetriedUpTo (attempt : ℕ → Except ε Value) (k : ℕ) : Prop :=
  k < 10 ∧ ∀ j < k, ∃ e q, attempt j = .error e ∧ asQuery e = some q ∧ q.nonRetriable = false

/-- The query succeeds at the `k`th attempt, with only retriable failures before. -/
def SucceedsAt (attempt : ℕ → Except ε Value) (k : ℕ) : Prop :=
  RetriedUpTo asQuery attempt k ∧ ∃ v, attempt k = .ok v

/-- An exception that is no `QueryException` ends the query: its body cannot be parsed. -/
def Unparsable (attempt : ℕ → Except ε Value) : Prop :=
  ∃ k e, RetriedUpTo asQuery attempt k ∧ attempt k = .error e ∧ asQuery e = none

/-- The attempt that ends the query. -/
def Decisive (attempt : ℕ → Except ε Value) (k : ℕ) : Prop :=
  Decides (asNonRetriable asQuery) (asQueryException asQuery) 10
    (fun i => (attempt i).map fun _ => ()) k

theorem plainFail_iff (attempt : ℕ → Except ε Value) (j : ℕ) :
    PlainFail (asNonRetriable asQuery) (asQueryException asQuery)
        ((attempt j).map fun _ => ()) ↔
      ∃ e q, attempt j = .error e ∧ asQuery e = some q ∧ q.nonRetriable = false := by
  unfold PlainFail asNonRetriable asQueryException isNonRetriable isQueryException
  cases attempt j with
  | ok v => simp [Except.map]
  | error e => cases hq : asQuery e <;> simp [Except.map, hq]

theorem exists_decisive (attempt : ℕ → Except ε Value) : ∃ k, Decisive asQuery attempt k :=
  exists_decides (by omega)

variable {asQuery} {attempt : ℕ → Except ε Value}

theorem Decisive.retriedUpTo {k : ℕ} (h : Decisive asQuery attempt k) :
    RetriedUpTo asQuery attempt k := by
  have hwithin := h.within
  refine ⟨by omega, ?_⟩
  intro j hj
  rw [← plainFail_iff]
  exact h.failed j hj

/-- An attempt that no retry follows decides the query. -/
theorem RetriedUpTo.decisive {k : ℕ} (h : RetriedUpTo asQuery attempt k)
    (hend : ¬ ∃ e q, attempt k = .error e ∧ asQuery e = some q ∧ q.nonRetriable = false) :
    Decisive asQuery attempt k := by
  obtain ⟨hk, hfailed⟩ := h
  refine ⟨?_, by omega, Or.inr ?_⟩
  · intro j hj
    rw [plainFail_iff]
    exact hfailed j hj
  · rw [plainFail_iff]
    exact hend

theorem SucceedsAt.decisive {k : ℕ} (h : SucceedsAt asQuery attempt k) :
    Decisive asQuery attempt k := by
  obtain ⟨hretried, v, hv⟩ := h
  refine hretried.decisive ?_
  rintro ⟨e, q, he, _⟩
  rw [hv] at he
  cases he

theorem SucceedsAt.unique {k l : ℕ} (hk : SucceedsAt asQuery attempt k)
    (hl : SucceedsAt asQuery attempt l) : k = l :=
  hk.decisive.unique hl.decisive

/-- If the deciding attempt throws, the query does not succeed. -/
theorem Decisive.not_succeedsAt {k : ℕ} (h : Decisive asQuery attempt k) {e : ε}
    (he : attempt k = .error e) (l : ℕ) : ¬ SucceedsAt asQuery attempt l := by
  intro hl
  obtain ⟨v, hv⟩ := hl.2
  rw [hl.decisive.unique h, he] at hv
  cases hv

theorem Decisive.unparsable_iff {k : ℕ} (h : Decisive asQuery attempt k) :
    Unparsable asQuery attempt ↔ ∃ e, attempt k = .error e ∧ asQuery e = none := by
  constructor
  · rintro ⟨l, e, hretried, he, hquery⟩
    have hl : Decisive asQuery attempt l := by
      refine hretried.decisive ?_
      rintro ⟨e', q, he', hq, _⟩
      rw [he, Except.error.injEq] at he'
      rw [← he', hquery] at hq
      cases hq
    rw [← hl.unique h]
    exact ⟨e, he, hquery⟩
  · rintro ⟨e, he, hquery⟩
    exact ⟨k, e, h.retriedUpTo, he, hquery⟩

theorem SucceedsAt.not_unparsable {k : ℕ} (h : SucceedsAt asQuery attempt k) :
    ¬ Unparsable asQuery attempt := by
  rw [h.decisive.unparsable_iff]
  rintro ⟨e, he, _⟩
  obtain ⟨v, hv⟩ := h.2
  rw [hv] at he
  cases he

/-- What a validation query comes to: it succeeds, a body is not parsed, or the failure is
reported. -/
inductive QueryOutcome (asQuery : ε → Option QueryException) (attempt : ℕ → Except ε Value) :
    Except (ValidationThrown ε) Unit × ℕ → Prop
  | succeeded {k : ℕ} (hk : SucceedsAt asQuery attempt k) :
      QueryOutcome asQuery attempt (.ok (), k + 1)
  | unparsable {e : ε} {n : ℕ} (hbody : Unparsable asQuery attempt)
      (hno : ∀ k, ¬ SucceedsAt asQuery attempt k) :
      QueryOutcome asQuery attempt (.error (.query e), n)
  | reported {what : Bytes} {n : ℕ} (hbody : ¬ Unparsable asQuery attempt)
      (hno : ∀ k, ¬ SucceedsAt asQuery attempt k) :
      QueryOutcome asQuery attempt (.error (.validation what), n)

theorem validateQuery_outcome (validationFailed retryLimitReached : Bytes) :
    QueryOutcome asQuery attempt
      (validateQuery asQuery validationFailed retryLimitReached attempt) := by
  obtain ⟨k, hk⟩ := exists_decisive asQuery attempt
  have hretry := retry_of_decides (asNonRetriable_bindsThrown asQuery) hk
  unfold validateQuery
  simp only [hretry, calls_callsWithSleeps]
  cases hattempt : attempt k with
  | ok v => exact .succeeded ⟨hk.retriedUpTo, v, hattempt⟩
  | error e =>
    have hno := hk.not_succeedsAt hattempt
    simp only [Except.map]
    cases hquery : asQuery e with
    | none =>
      simp only
      exact .unparsable (hk.unparsable_iff.mpr ⟨e, hattempt, hquery⟩) hno
    | some q =>
      simp only
      refine .reported ?_ hno
      rw [hk.unparsable_iff]
      rintro ⟨e', he', hnone⟩
      rw [hattempt, Except.error.injEq] at he'
      rw [← he', hquery] at hnone
      cases hnone

end Queries

/-- Validation returns exactly for a valid configuration, and throws nothing but its declared
exception. -/
structure ReportsValidation {ε : Type} (result : Except (ValidationThrown ε) Unit)
    (Valid : Prop) : Prop where
  returns : result = .ok () ↔ Valid
  throws : ∀ e, result = .error e → ∃ what, e = .validation what

section Reports
variable {ε : Type} {Valid : Prop}

theorem reports_ok (h : Valid) : ReportsValidation (ε := ε) (.ok ()) Valid := by
  refine ⟨iff_of_true rfl h, ?_⟩
  intro e he
  cases he

theorem reports_validation {what : Bytes} (h : ¬ Valid) :
    ReportsValidation (ε := ε) (.error (.validation what)) Valid := by
  refine ⟨iff_of_false (fun hok => by cases hok) h, ?_⟩
  rintro e ⟨⟩
  exact ⟨what, rfl⟩

theorem not_reports {e : ValidationThrown ε} (h : ∀ what, e ≠ .validation what) :
    ¬ ReportsValidation (.error e) Valid := by
  rintro ⟨_, hthrows⟩
  obtain ⟨what, hwhat⟩ := hthrows e rfl
  exact h what hwhat

end Reports

/-! ## The Kubernetes reader -/

namespace KubernetesReader

def Thrown.asQuery : Thrown → Option QueryException
  | .query q => some q
  | _ => none

section Validate
variable (config : Configuration) (master : Master) (options : QueryOptions)

/-- The answers to a query that is made again and again. -/
def queryAttempt (path : Bytes) (w : ReaderState) (i : ℕ) : Except Thrown Value :=
  (queryMaster config master path { w with queries := w.queries + i }).1

def nodeAttempt (w : ReaderState) : ℕ → Except Thrown Value :=
  queryAttempt config master (kubernetesEndpointPath ++ lit "/nodes?limit=1") w

def podAttempt (w : ReaderState) : ℕ → Except Thrown Value :=
  queryAttempt config master
    (kubernetesEndpointPath ++ lit "/pods?limit=1" ++ options.podLabelSelector) w

def ReaderState.afterQueries (w : ReaderState) (n : ℕ) : ReaderState :=
  { w with queries := w.queries + n }

def validateDynamicConfiguration (w : ReaderState) :
    Except (ValidationThrown Thrown) Unit × ReaderState :=
  match validateQuery Thrown.asQuery (lit "Node query validation failed: ")
      (lit "Node query validation retry limit reached: ") (nodeAttempt config master w) with
  | (.error e, n) => (.error e, w.afterQueries n)
  | (.ok (), n) =>
    let w := w.afterQueries n
    match validateQuery Thrown.asQuery (lit "Pod query validation failed: ")
        (lit "Pod query validation retry limit reached: ") (podAttempt config master options w) with
    | (.error e, n) => (.error e, w.afterQueries n)
    | (.ok (), n) =>
      -- `throw new`: what is thrown is a pointer
      if options.currentNode.isEmpty then
        (.error (.pointer (lit "Current node cannot be empty")), w.afterQueries n)
      else (.ok (), w.afterQueries n)

/-- Both queries succeed, the second one after the attempts of the first. -/
def QueriesSucceed (w : ReaderState) : Prop :=
  ∃ k, SucceedsAt Thrown.asQuery (nodeAttempt config master w) k ∧
    ∃ l, SucceedsAt Thrown.asQuery (podAttempt config master options (w.afterQueries (k + 1))) l

/-- A query ends at a body that cannot be parsed. -/
def SomeUnparsable (w : ReaderState) : Prop :=
  Unparsable Thrown.asQuery (nodeAttempt config master w) ∨
    ∃ k, SucceedsAt Thrown.asQuery (nodeAttempt config master w) k ∧
      Unparsable Thrown.asQuery (podAttempt config master options (w.afterQueries (k + 1)))

variable {config master options}

theorem queriesSucceed_iff {w : ReaderState} {k : ℕ}
    (hk : SucceedsAt Thrown.asQuery (nodeAttempt config master w) k) :
    QueriesSucceed config master options w ↔ ∃ l, SucceedsAt Thrown.asQuery
      (podAttempt config master options (w.afterQueries (k + 1))) l := by
  constructor
  · rintro ⟨k', hk', hpods⟩
    rw [hk.unique hk']
    exact hpods
  · intro hpods
    exact ⟨k, hk, hpods⟩

theorem someUnparsable_iff {w : ReaderState} {k : ℕ}
    (hk : SucceedsAt Thrown.asQuery (nodeAttempt config master w) k) :
    SomeUnparsable config master options w ↔ Unparsable Thrown.asQuery
      (podAttempt config master options (w.afterQueries (k + 1))) := by
  constructor
  · rintro (hnodes | ⟨k', hk', hpods⟩)
    · exact absurd hnodes hk.not_unparsable
    · rw [hk.unique hk']
      exact hpods
  · intro hpods
    exact Or.inr ⟨k, hk, hpods⟩

/-- The Kubernetes reader reports as declared exactly when no query ends at a body that cannot be
parsed, and no empty node name is found after both succeeded. -/
theorem validateDynamicConfiguration_reports_iff (w : ReaderState) :
    ReportsValidation (validateDynamicConfiguration config master options w).1
        (QueriesSucceed config master options w ∧ options.currentNode ≠ []) ↔
      ¬ SomeUnparsable config master options w ∧
        (QueriesSucceed config master options w → options.currentNode ≠ []) := by
  have hnodes : QueryOutcome Thrown.asQuery (nodeAttempt config master w) _ :=
    validateQuery_outcome (lit "Node query validation failed: ")
      (lit "Node query validation retry limit reached: ")
  unfold validateDynamicConfiguration
  generalize validateQuery Thrown.asQuery (lit "Node query validation failed: ")
    (lit "Node query validation retry limit reached: ") (nodeAttempt config master w) = nodes
    at hnodes ⊢
  cases hnodes with
  | unparsable hbody hno =>
    exact iff_of_false (not_reports fun _ h => by cases h) fun h => h.1 (Or.inl hbody)
  | reported hbody hno =>
    have hfails : ¬ QueriesSucceed config master options w := fun h => hno _ h.choose_spec.1
    refine iff_of_true (reports_validation fun h => hfails h.1) ⟨?_, fun h => absurd h hfails⟩
    rintro (h | ⟨k, hk, _⟩)
    · exact hbody h
    · exact hno k hk
  | @succeeded k hk =>
    rw [queriesSucceed_iff hk, someUnparsable_iff hk]
    simp only
    have hpods : QueryOutcome Thrown.asQuery
        (podAttempt config master options (w.afterQueries (k + 1))) _ :=
      validateQuery_outcome (lit "Pod query validation failed: ")
        (lit "Pod query validation retry limit reached: ")
    generalize validateQuery Thrown.asQuery (lit "Pod query validation failed: ")
      (lit "Pod query validation retry limit reached: ")
      (podAttempt config master options (w.afterQueries (k + 1))) = pods at hpods ⊢
    cases hpods with
    | unparsable hbody hno =>
      exact iff_of_false (not_reports fun _ h => by cases h) fun h => h.1 hbody
    | reported hbody hno =>
      exact iff_of_true (reports_validation fun h => hno _ h.1.choose_spec)
        ⟨hbody, fun h => absurd h.choose_spec (hno _)⟩
    | @succeeded l hl =>
      simp only
      by_cases hnode : options.currentNode = []
      · refine iff_of_false ?_ fun h => h.2 ⟨l, hl⟩ hnode
        rw [hnode, List.isEmpty_nil, if_pos rfl]
        exact not_reports fun _ h => by cases h
      · rw [if_neg (by simpa using hnode)]
        exact iff_of_true (reports_ok ⟨⟨l, hl⟩, hnode⟩) ⟨hl.not_unparsable, fun _ => hnode⟩

end Validate

end KubernetesReader

/-! ## The Docker reader -/

namespace DockerReader

def Thrown.asQuery : Thrown → Option QueryException
  | .query q => some q
  | _ => none

section Validate
variable (config : DockerConfiguration) (daemons : ℕ → Daemon)

/-- The answers to the validation query, the daemon answering every attempt anew. -/
def listAttempt (i : ℕ) : Except Thrown Value :=
  queryDocker config (daemons i)
    (dockerEndpointPath ++ lit "/json?all=true&limit=1" ++ containerFilter config)

def validateDynamicConfiguration : Except (ValidationThrown Thrown) Unit :=
  (validateQuery Thrown.asQuery (lit "Docker query validation failed: ")
    (lit "Docker query validation retry limit reached: ") (listAttempt config daemons)).1

variable {config daemons}

/-- The Docker reader reports as declared exactly when the query does not end at a body that cannot
be parsed. -/
theorem validateDynamicConfiguration_reports_iff :
    ReportsValidation (validateDynamicConfiguration config daemons)
        (∃ k, SucceedsAt Thrown.asQuery (listAttempt config daemons) k) ↔
      ¬ Unparsable Thrown.asQuery (listAttempt config daemons) := by
  have hlist : QueryOutcome Thrown.asQuery (listAttempt config daemons) _ :=
    validateQuery_outcome (lit "Docker query validation failed: ")
      (lit "Docker query validation retry limit reached: ")
  unfold validateDynamicConfiguration
  generalize validateQuery Thrown.asQuery (lit "Docker query validation failed: ")
    (lit "Docker query validation retry limit reached: ") (listAttempt config daemons) = list
    at hlist ⊢
  cases hlist with
  | unparsable hbody hno =>
    exact iff_of_false (not_reports fun _ h => by cases h) fun h => h hbody
  | reported hbody hno =>
    exact iff_of_true (reports_validation fun h => hno _ h.choose_spec) hbody
  | @succeeded k hk => exact iff_of_true (reports_ok ⟨k, hk⟩) hk.not_unparsable

end Validate

end DockerReader

/-- Each reader reports as declared exactly when none of its queries ends at a body that cannot be
parsed, and, for the Kubernetes reader, its node has a name if both queries succeed. -/
theorem dynamic_validation_iff (config : Configuration) (master : KubernetesReader.Master)
    (options : KubernetesReader.QueryOptions) (w : KubernetesReader.ReaderState)
    (dockerConfig : DockerReader.DockerConfiguration) (daemons : ℕ → DockerReader.Daemon) :
    (ReportsValidation (KubernetesReader.validateDynamicConfiguration config master options w).1
        (KubernetesReader.QueriesSucceed config master options w ∧ options.currentNode ≠ []) ↔
      ¬ KubernetesReader.SomeUnparsable config master options w ∧
        (KubernetesReader.QueriesSucceed config master options w → options.currentNode ≠ [])) ∧
    (ReportsValidation (DockerReader.validateDynamicConfiguration dockerConfig daemons)
        (∃ k, SucceedsAt DockerReader.Thrown.asQuery
          (DockerReader.listAttempt dockerConfig daemons) k) ↔
      ¬ Unparsable DockerReader.Thrown.asQuery
        (DockerReader.listAttempt dockerConfig daemons)) :=
  ⟨KubernetesReader.validateDynamicConfiguration_reports_iff w,
    DockerReader.validateDynamicConfiguration_reports_iff⟩

/-! ## Answers that escape -/

/-- Every query is answered with the same body. -/
def answering (body : Except Exception Value) : KubernetesReader.Master :=
  fun _ _ => .answer 200 (lit "OK") body

/-- A body that is not JSON, and a node without a name after two good answers. -/
theorem validation_escapes :
    ¬ ReportsValidation (KubernetesReader.validateDynamicConfiguration KubernetesReader.masterConfig
        (answering (.error (.text (lit "parse error")))) ⟨lit "node-1", false, []⟩
        KubernetesReader.noQueries).1
      (KubernetesReader.QueriesSucceed KubernetesReader.masterConfig
        (answering (.error (.text (lit "parse error")))) ⟨lit "node-1", false, []⟩
        KubernetesReader.noQueries ∧ lit "node-1" ≠ []) ∧
    ¬ ReportsValidation (KubernetesReader.validateDynamicConfiguration KubernetesReader.masterConfig
        (answering (.ok (.object []))) ⟨[], false, []⟩ KubernetesReader.noQueries).1
      (KubernetesReader.QueriesSucceed KubernetesReader.masterConfig
        (answering (.ok (.object []))) ⟨[], false, []⟩ KubernetesReader.noQueries ∧
          ([] : Bytes) ≠ []) := by
  have hfirst : ∀ {ε : Type} (asQuery : ε → Option QueryException)
      (attempt : ℕ → Except ε Value), RetriedUpTo asQuery attempt 0 := by
    intro ε asQuery attempt
    refine ⟨by omega, ?_⟩
    intro j hj
    omega
  constructor
  · rw [KubernetesReader.validateDynamicConfiguration_reports_iff, not_and_or, not_not]
    left
    left
    exact ⟨0, .json (.text (lit "parse error")), hfirst _ _, rfl, rfl⟩
  · rw [KubernetesReader.validateDynamicConfiguration_reports_iff, not_and_or]
    right
    intro h
    exact h ⟨0, ⟨hfirst _ _, _, rfl⟩, 0, ⟨hfirst _ _, _, rfl⟩⟩ rfl

end MetadataAgent
