import MetadataAgent.Json.Cut
import MetadataAgent.Kubernetes.Watch

/-! # Connections that are cut

The timers of a watch stop its service between any two notifications, and so does an error; the
body that has come by then may end anywhere, within an event too. The next connection has a parser
of its own. Whatever the chunks are, the callback has been called with the events that are complete
by then, up to the first on which it throws. -/
namespace MetadataAgent.KubernetesReader
open Lib Json
set_option autoImplicit false

/-- A connection, and the texts of the events that its body begins with. It ends by itself behind
the last of them, or it is cut. -/
structure Delivery (y : Yajl) where
  stream : List (Bytes × List (Bytes × Doc))
  notifications : List (Bytes × ErrorCode)
  text : ∀ e ∈ stream, y.IsText e.1 (.object e.2)
  body : (notifications.map Prod.fst).flatten <+: stream.flatMap Prod.fst
  errors : ∀ n ∈ notifications.dropLast, n.2 = .success
  ended : ∀ n ∈ notifications.getLast?, n.2 = .eof →
    (notifications.map Prod.fst).flatten = stream.flatMap Prod.fst

namespace Delivery
variable {y : Yajl} (delivery : Delivery y)

/-- What has come of the body. -/
def came : Bytes := (delivery.notifications.map Prod.fst).flatten

/-- The first `m` texts. -/
def texts (m : ℕ) : Bytes := (delivery.stream.take m).flatMap Prod.fst

def events : List Value := delivery.stream.map fun e => (Doc.object e.2).value

/-- How many events have all their tokens in what has come. -/
def complete : ℕ :=
  completeObjects (delivery.stream.map Prod.snd) (y.lexAll y.lexer delivery.came).2

def completeEvents : List Value := delivery.events.take delivery.complete

theorem tokens_texts (m : ℕ) :
    y.lexAll y.lexer (delivery.texts m) = (y.lexer,
      (((delivery.stream.map Prod.snd).take m).flatMap fun fields =>
        (Doc.object fields).tokens).map some) := by
  rw [texts, y.lexAll_texts (delivery.stream.take m) fun e he =>
    delivery.text e (List.mem_of_mem_take he), List.map_take]

theorem texts_length : delivery.texts delivery.stream.length = delivery.stream.flatMap Prod.fst := by
  rw [texts, List.take_length]

theorem lexAll_begins {a b : Bytes} (h : a <+: b) :
    (y.lexAll y.lexer a).2 <+: (y.lexAll y.lexer b).2 := by
  obtain ⟨rest, rfl⟩ := h
  rw [y.lexAll_append]
  exact List.prefix_append _ _

theorem le_complete {m : ℕ} (hm : m ≤ delivery.stream.length)
    (h : delivery.texts m <+: delivery.came) : m ≤ delivery.complete := by
  refine le_completeObjects (by rwa [List.length_map]) ?_
  have htokens := lexAll_begins (y := y) h
  rw [delivery.tokens_texts] at htokens
  exact htokens

theorem complete_le {m : ℕ} (h : delivery.came <+: delivery.texts m) : delivery.complete ≤ m := by
  refine completeObjects_le ?_
  have htokens := lexAll_begins (y := y) h
  rw [delivery.tokens_texts] at htokens
  exact htokens

theorem complete_of_ended (h : delivery.came = delivery.stream.flatMap Prod.fst) :
    delivery.completeEvents = delivery.events := by
  have htexts : delivery.texts delivery.stream.length = delivery.came :=
    delivery.texts_length.trans h.symm
  have hall : delivery.stream.length ≤ delivery.complete :=
    delivery.le_complete le_rfl (htexts ▸ List.prefix_refl _)
  rw [completeEvents, List.take_of_length_le]
  rw [events, List.length_map]
  exact hall

end Delivery

section Cuts
variable {y : Yajl} {γ : Type} {callback : UserCallback γ Exception}
variable {Between InsideMap Failed : y.State → Prop}

theorem foldl_watcher_open (p : ParseState y γ) (notifications : List (Bytes × ErrorCode))
    (h : ∀ n ∈ notifications, n.2 ≠ .eof) :
    notifications.foldl (watcher y callback) p =
      resume (readByte y callback) p (notifications.map Prod.fst) := by
  induction notifications generalizing p with
  | nil => rfl
  | cons n notifications ih =>
    have hend : ∀ q, watcherEnd y callback q n.2 = q := by
      intro q
      have hn := h n List.mem_cons_self
      cases herror : n.2 with
      | success => rfl
      | other => rfl
      | eof => exact absurd herror hn
    rw [List.foldl_cons, ih _ fun m hm => h m (List.mem_cons_of_mem _ hm), watcher, hend,
      watcherParse_eq]
    rfl

theorem not_eof_of_cut (delivery : Delivery y)
    (hcut : ¬∃ n ∈ delivery.notifications.getLast?, n.2 = .eof) :
    ∀ n ∈ delivery.notifications, n.2 ≠ .eof := by
  intro n hn heof
  rcases List.eq_nil_or_concat' delivery.notifications with hnil | ⟨front, last, hlast⟩
  · rw [hnil] at hn
    exact absurd hn List.not_mem_nil
  · have herrors := delivery.errors
    rw [hlast, List.dropLast_concat] at herrors
    rw [hlast] at hn
    rcases List.mem_append.mp hn with hn | hn
    · rw [herrors n hn] at heof
      cases heof
    · refine hcut ⟨n, ?_, heof⟩
      rw [hlast, List.getLast?_concat, List.mem_singleton.mp hn]
      rfl

/-- Wherever the connection is cut, the callback has the complete events. -/
theorem watchConnection_cut (hy : y.Documented Between InsideMap Failed) (user : γ)
    (delivery : Delivery y) :
    (watchConnection y callback user delivery.notifications).builder.user =
      (runUntil callback user delivery.completeEvents).1 := by
  by_cases hended : ∃ n ∈ delivery.notifications.getLast?, n.2 = .eof
  · obtain ⟨n, hn, heof⟩ := hended
    rw [delivery.complete_of_ended (delivery.ended n hn heof)]
    exact watchConnection_user hy user delivery.stream delivery.text delivery.notifications
      (delivery.ended n hn heof) delivery.errors
  · have htokens := Delivery.lexAll_begins (y := y) delivery.body
    rw [← delivery.texts_length, delivery.tokens_texts, ← List.length_map (f := Prod.snd),
      List.take_length, List.prefix_map_iff] at htokens
    obtain ⟨toks, hbegins, hcame⟩ := htokens
    have hlex : y.lexAll (ParseState.init y user).lexer delivery.came =
        ((y.lexAll y.lexer delivery.came).1, toks.map some) := Prod.ext rfl hcame
    obtain ⟨hnone, hsome⟩ := feed_begun callback hy (delivery.stream.map Prod.snd) hy.start [] user
      hbegins
    have hvalues : ((delivery.stream.map Prod.snd).take (completeObjects
        (delivery.stream.map Prod.snd) (toks.map some))).map (fun fields =>
          (Doc.object fields).value) = delivery.completeEvents := by
      rw [Delivery.completeEvents, Delivery.events, Delivery.complete, Delivery.came, hcame,
        List.map_take, List.map_map]
      rfl
    rw [hvalues] at hnone hsome
    rw [watchConnection, foldl_watcher_open _ _ (not_eof_of_cut delivery hended)]
    rcases hrun : runUntil callback user delivery.completeEvents with ⟨user', _ | e⟩
    · obtain ⟨t, b, hfed, huser⟩ := hnone user' hrun
      obtain ⟨l, hparse, -⟩ := yajlParse_eq_feed (ParseState.init y user) hlex hfed
      rw [resume_of_none hparse]
      exact huser
    · obtain ⟨t, ht, hfed⟩ := hsome user' e hrun
      obtain ⟨l, hparse, -⟩ := yajlParse_eq_feed (ParseState.init y user) hlex hfed
      have hstuck := resume_of_some (readByte_stuck hy user') hparse ⟨rfl, rfl, .inl ht⟩
      exact hstuck.2.1

/-! ## One connection after the other -/

variable (y callback) in
/-- The connections of a watch, one after the other. -/
def watched (user : γ) (connections : List (List (Bytes × ErrorCode))) : γ :=
  connections.foldl
    (fun user notifications => (watchConnection y callback user notifications).builder.user) user

variable (callback) in
/-- What the complete events of a connection make of the state: they are handled in order, up to
the first on which the callback throws. -/
def deliver (user : γ) (delivery : Delivery y) : γ :=
  (runUntil callback user delivery.completeEvents).1

/-- A watch whose connections are cut anywhere, in chunks of any size, does what handling their
complete events does, and a connection completes all events whose texts have come and none whose
text has not begun. -/
theorem cut_watch_delivers (hy : y.Documented Between InsideMap Failed) (user : γ)
    (deliveries : List (Delivery y)) :
    watched y callback user (deliveries.map Delivery.notifications) =
        deliveries.foldl (deliver callback) user ∧
      ∀ delivery ∈ deliveries, ∀ m ≤ delivery.stream.length,
        (delivery.texts m <+: delivery.came → m ≤ delivery.complete) ∧
        (delivery.came <+: delivery.texts m → delivery.complete ≤ m) := by
  constructor
  · induction deliveries generalizing user with
    | nil => rfl
    | cons delivery deliveries ih =>
      have hfirst := @watchConnection_cut y γ callback Between InsideMap Failed hy user delivery
      rw [List.map_cons, watched, List.foldl_cons, ← watched, hfirst, List.foldl_cons]
      exact ih _
  · intro delivery _ m hm
    exact ⟨delivery.le_complete hm, delivery.complete_le⟩

end Cuts

/-- An event, and another one that is cut within its type. -/
def cutDelivery : Delivery pushdown where
  stream := [nodeEvent, nodeEvent]
  notifications := [(nodeEvent.1.take 7, .success),
    (nodeEvent.1.drop 7 ++ nodeEvent.1.take 12, .other)]
  text e he := isText_events e (by
    simp only [List.mem_cons, List.not_mem_nil, or_false, or_self] at he
    exact List.mem_pair.mpr (.inl he))
  body := ⟨nodeEvent.1.drop 12, rfl⟩
  errors := by decide
  ended := by decide

/-- Two connections, each cut within its second event. -/
theorem cut_watch_delivers_two :
    watched pushdown (recorded nodeWatch) ([], ())
        [cutDelivery.notifications, cutDelivery.notifications] =
      ([(Doc.object nodeEvent.2).value, (Doc.object nodeEvent.2).value], ()) :=
  (cut_watch_delivers pushdown_documented ([], ()) [cutDelivery, cutDelivery]).1

end MetadataAgent.KubernetesReader
