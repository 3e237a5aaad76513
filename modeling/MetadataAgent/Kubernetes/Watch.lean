import MetadataAgent.Json.Pushdown
import MetadataAgent.Time
import Mathlib.Data.List.Induction

/-! # The watch

A watch connection delivers its body in chunks, and `Watcher::operator()` parses each of them as
it comes; the events in it go to `WatchEventCallback`. A `json::Exception` is logged, and the rest
of the chunk with the event on which it was thrown is lost. The timers of the watcher and its
thread are left out. -/
namespace MetadataAgent.KubernetesReader
open Lib Json
set_option autoImplicit false

/-! ## The watcher -/

inductive ErrorCode where
  | success | eof | other
  deriving DecidableEq

def watchEvent (rawWatch : Value) : Except Exception (Bytes × Object) := do
  let watch ← asObject rawWatch
  let type ← getString watch (lit "type")
  let object ← getObject watch (lit "object")
  return (type, object)

section Watch
variable (y : Yajl) {γ : Type} (callback : UserCallback γ Exception)

/-- `WatchEventCallback`, with the clock and the callback of a node, pod, service or endpoints
watch. -/
def watchEventCallback (now : γ → Timestamp)
    (objectCallback : γ → Object → Timestamp → Bool → γ × Option Exception) :
    UserCallback γ Exception := fun g rawWatch =>
  match watchEvent rawWatch with
  | .error e => (g, some e)
  | .ok (type, object) =>
    if type ≠ lit "MODIFIED" ∧ type ≠ lit "ADDED" ∧ type ≠ lit "DELETED" then (g, none)
    else objectCallback g object (now g) (decide (type = lit "DELETED"))

def watcherParse (p : ParseState y γ) (body : Bytes) : ParseState y γ :=
  if body.isEmpty then p else (parseStream y callback p body).1

def watcherEnd (p : ParseState y γ) : ErrorCode → ParseState y γ
  | .success => p
  | .eof => (notifyEOF y callback p).1
  | .other => p

/-- `Watcher::operator()`: the chunk, then the error. Every exception is caught. -/
def watcher (p : ParseState y γ) (notification : Bytes × ErrorCode) : ParseState y γ :=
  watcherEnd y callback (watcherParse y callback p notification.1) notification.2

def watchConnection (user : γ) (notifications : List (Bytes × ErrorCode)) : ParseState y γ :=
  notifications.foldl (watcher y callback) (ParseState.init y user)

theorem watcherParse_eq (p : ParseState y γ) (body : Bytes) :
    watcherParse y callback p body = (yajlParse y callback p body).1 := by
  unfold watcherParse
  cases body with
  | nil => rfl
  | cons byte bytes => exact parseStream_state y callback p (byte :: bytes)

theorem foldl_watcher_success (p : ParseState y γ) (notifications : List (Bytes × ErrorCode))
    (h : ∀ n ∈ notifications, n.2 = .success) :
    notifications.foldl (watcher y callback) p =
      resume (readByte y callback) p (notifications.map Prod.fst) := by
  induction notifications generalizing p with
  | nil => rfl
  | cons n notifications ih =>
    rw [List.foldl_cons, ih _ fun m hm => h m (List.mem_cons_of_mem _ hm), watcher,
      h n List.mem_cons_self, watcherEnd, watcherParse_eq]
    rfl

theorem watchConnection_eq (user : γ) (notifications : List (Bytes × ErrorCode))
    (h : ∀ n ∈ notifications.dropLast, n.2 = .success) :
    ∃ error, watchConnection y callback user notifications =
      watcherEnd y callback
        (resume (readByte y callback) (ParseState.init y user) (notifications.map Prod.fst))
        error := by
  rw [watchConnection]
  cases notifications using List.reverseRecOn with
  | nil => exact ⟨.success, rfl⟩
  | append_singleton notifications n =>
    rw [List.dropLast_concat] at h
    refine ⟨n.2, ?_⟩
    rw [List.foldl_append, foldl_watcher_success y callback _ notifications h, List.foldl_cons,
      List.foldl_nil, watcher, watcherParse_eq, List.map_append, resume, resume, List.foldl_append]
    rfl

variable {y callback} {Between InsideMap Failed : y.State → Prop}

theorem watcherEnd_user (hy : y.Documented Between InsideMap Failed) {user : γ}
    {p : ParseState y γ} (error : ErrorCode)
    (h : p.lexer = y.lexer ∧ p.builder.user = user ∨
      Stuck InsideMap Failed user (p.state, p.builder)) :
    (watcherEnd y callback p error).builder.user = user := by
  have huser : p.builder.user = user := by
    rcases h with h | h
    · exact h.2
    · exact h.2.1
  have hfed : (runUntil (feedToken y callback) (p.state, p.builder)
      (y.flush p.lexer)).1.2.user = user := by
    rcases h with h | h
    · rw [h.1, hy.flush]
      exact huser
    · exact (runUntil_preserves (feedToken_stuck hy user) h _).2.1
  cases error with
  | success => exact huser
  | other => exact huser
  | eof =>
    rw [watcherEnd, notifyEOF]
    rcases hrun : runUntil (feedToken y callback) (p.state, p.builder)
      (y.flush p.lexer) with ⟨fed, _ | stop⟩
    · rw [hrun] at hfed
      exact hfed
    · rw [hrun] at hfed
      exact hfed

/-- However the body is cut, the callback has the events up to the first on which it throws. -/
theorem watchConnection_user (hy : y.Documented Between InsideMap Failed) (user : γ)
    (stream : List (Bytes × List (Bytes × Doc)))
    (htext : ∀ e ∈ stream, y.IsText e.1 (.object e.2))
    (notifications : List (Bytes × ErrorCode))
    (hbody : (notifications.map Prod.fst).flatten = stream.flatMap Prod.fst)
    (herror : ∀ n ∈ notifications.dropLast, n.2 = .success) :
    (watchConnection y callback user notifications).builder.user =
      (runUntil callback user (stream.map fun e => (Doc.object e.2).value)).1 := by
  obtain ⟨error, hend⟩ := watchConnection_eq y callback user notifications herror
  obtain ⟨hnone, hsome⟩ := feed_objects callback hy (stream.map Prod.snd) hy.start [] user
  have hlex := y.lexAll_texts stream htext
  rw [List.map_map] at hnone hsome
  rw [hend]
  rcases hrun : runUntil callback user
    (stream.map fun e => (Doc.object e.2).value) with ⟨user', _ | e⟩
  · obtain ⟨t, -, hfed⟩ := hnone user' hrun
    obtain ⟨l, hparse, hl⟩ := yajlParse_eq_feed (ParseState.init y user) hlex hfed
    rw [← hbody] at hparse
    rw [resume_of_none hparse, hrun]
    exact watcherEnd_user hy error (.inl ⟨hl rfl, rfl⟩)
  · obtain ⟨t, ht, hfed⟩ := hsome user' e hrun
    obtain ⟨l, hparse, -⟩ := yajlParse_eq_feed (ParseState.init y user) hlex hfed
    rw [← hbody] at hparse
    rw [hrun]
    exact watcherEnd_user hy error (.inr (resume_of_some (readByte_stuck hy user') hparse
      ⟨rfl, rfl, .inl ht⟩))

end Watch

/-! ## Events delivered -/

section Delivery
variable {γ : Type} (user : UserCallback γ Exception)

def recorded : UserCallback (List Value × γ) Exception := fun u v =>
  ((u.1 ++ [v], (user u.2 v).1), (user u.2 v).2)

/-- The callback throws on none of the events when it has them in order. -/
def NoneThrows : γ → List Value → Prop
  | _, [] => True
  | g, v :: vs => (user g v).2 = none ∧ NoneThrows (user g v).1 vs

def untilThrow : γ → List Value → List Value
  | _, [] => []
  | g, v :: vs => v :: if (user g v).2 = none then untilThrow (user g v).1 vs else []

theorem runUntil_recorded (seen : List Value) (g : γ) (vs : List Value) :
    (runUntil (recorded user) (seen, g) vs).1.1 = seen ++ untilThrow user g vs := by
  induction vs generalizing seen g with
  | nil => simp [runUntil, untilThrow]
  | cons v vs ih =>
    rw [untilThrow]
    cases hv : (user g v).2 with
    | none =>
      have hstep : recorded user (seen, g) v = ((seen ++ [v], (user g v).1), none) := by
        rw [recorded, hv]
      rw [runUntil_cons_none _ hstep, ih, if_pos rfl, List.append_assoc, List.singleton_append]
    | some e =>
      have hstep : recorded user (seen, g) v = ((seen ++ [v], (user g v).1), some e) := by
        rw [recorded, hv]
      rw [runUntil_cons_some _ hstep, if_neg (by simp)]

theorem untilThrow_eq_iff (g : γ) (vs : List Value) :
    untilThrow user g vs = vs ↔ NoneThrows user g vs.dropLast := by
  induction vs generalizing g with
  | nil => exact iff_of_true rfl trivial
  | cons v vs ih =>
    rw [untilThrow, List.cons.injEq, eq_self, true_and]
    cases vs with
    | nil => simp [untilThrow, NoneThrows]
    | cons w vs =>
      rw [List.dropLast_cons_cons, NoneThrows, ← ih]
      cases (user g v).2 with
      | none => simp
      | some e => simp

/-- A connection delivers every event, once and in order, exactly when the callback throws on none
of them but possibly the last. -/
theorem events_delivered_iff {y : Yajl} {Between InsideMap Failed : y.State → Prop}
    (hy : y.Documented Between InsideMap Failed) (g : γ)
    (stream : List (Bytes × List (Bytes × Doc)))
    (htext : ∀ e ∈ stream, y.IsText e.1 (.object e.2))
    (notifications : List (Bytes × ErrorCode))
    (hbody : (notifications.map Prod.fst).flatten = stream.flatMap Prod.fst)
    (herror : ∀ n ∈ notifications.dropLast, n.2 = .success) :
    (watchConnection y (recorded user) ([], g) notifications).builder.user.1 =
        stream.map (fun e => (Doc.object e.2).value) ↔
      NoneThrows user g (stream.map fun e => (Doc.object e.2).value).dropLast := by
  rw [watchConnection_user hy ([], g) stream htext notifications hbody herror, runUntil_recorded,
    List.nil_append, untilThrow_eq_iff]

end Delivery

/-! ## Two events -/

def nodeWatch : UserCallback Unit Exception :=
  watchEventCallback (fun _ => 0) fun _ _ _ _ => ((), none)

/-- An event with a node, and one without. -/
def nodeEvent : Bytes × List (Bytes × Doc) :=
  (lit "\x7b\"type\":\"ADDED\",\"object\":\x7b\x7d\x7d\n",
    [(lit "type", .string (lit "ADDED")), (lit "object", .object [])])

def bareEvent : Bytes × List (Bytes × Doc) :=
  (lit "\x7b\"type\":\"ADDED\"\x7d\n", [(lit "type", .string (lit "ADDED"))])

theorem isText_events (e : Bytes × List (Bytes × Doc)) (h : e ∈ [nodeEvent, bareEvent]) :
    pushdown.IsText e.1 (.object e.2) := by
  rw [List.mem_pair] at h
  rcases h with rfl | rfl <;> rfl

/-- The instance of an event and a bare one after it, cut within a token. -/
theorem last_throw_delivered :
    (watchConnection pushdown (recorded nodeWatch) ([], ())
      [((nodeEvent.1 ++ bareEvent.1).take 7, .success), ([], .success),
        ((nodeEvent.1 ++ bareEvent.1).drop 7, .eof)]).builder.user.1 =
      [(Doc.object nodeEvent.2).value, (Doc.object bareEvent.2).value] :=
  (events_delivered_iff nodeWatch pushdown_documented () [nodeEvent, bareEvent] isText_events
    [((nodeEvent.1 ++ bareEvent.1).take 7, .success), ([], .success),
      ((nodeEvent.1 ++ bareEvent.1).drop 7, .eof)] (by decide) (by decide)).mpr ⟨rfl, trivial⟩

/-- After a bare event, each in a chunk of its own, the next event is lost. -/
theorem event_after_throw_lost :
    (watchConnection pushdown (recorded nodeWatch) ([], ())
      [(bareEvent.1, .success), (nodeEvent.1, .success)]).builder.user.1 ≠
      [(Doc.object bareEvent.2).value, (Doc.object nodeEvent.2).value] := by
  have htext : ∀ e ∈ [bareEvent, nodeEvent], pushdown.IsText e.1 (.object e.2) := by
    intro e he
    exact isText_events e (List.mem_pair.mpr (List.mem_pair.mp he).symm)
  rw [watchConnection_user pushdown_documented ([], ()) [bareEvent, nodeEvent] htext
    [(bareEvent.1, .success), (nodeEvent.1, .success)] (by decide) (by decide), runUntil_recorded]
  decide

end MetadataAgent.KubernetesReader
