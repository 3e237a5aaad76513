import MetadataAgent.ApiServer
import MetadataAgent.Healthz
import MetadataAgent.Json.Exchange
import MetadataAgent.Lib.Logs
import MetadataAgent.Sharing

/-! # The API server

The server registers two handlers and dispatches every request to them. The handlers read the
store and the health of the agent, which the updaters change in between. A request is answered
from what has happened by then: a resource that was found once is found ever after, and a
component that is unhealthy stays so. -/
namespace MetadataAgent.MetadataApiServer
open Lib Json
open HealthChecker (Monitor)
set_option autoImplicit false

/-! ## Handlers -/

/-- What is set and written on a connection. -/
structure Answer where
  status : ℕ
  headers : OrderedMap Bytes Bytes
  body : Bytes

/-- The answers on a connection, and whether an exception has left a handler. -/
structure Connection where
  answers : List Answer
  escaped : Bool

def Connection.opened : Connection := ⟨[], false⟩

def Connection.write (conn : Connection) (answer : Answer) : Connection :=
  { conn with answers := conn.answers ++ [answer] }

/-- `std::string::substr`; `none` is `std::out_of_range`. -/
def substr (s : Bytes) (pos : ℕ) : Option Bytes :=
  if s.length < pos then none else some (s.drop pos)

/-- The values of `HttpServer::connection::status_t`. -/
def Status.code : Status → ℕ
  | .ok => 200
  | .internalServerError => 500

def Response.answer (response : Response) : Answer :=
  ⟨response.status.code, response.headers, response.body⟩

def jsonText (status : ℕ) (body : Bytes) : Answer :=
  ⟨status, .ofList [
    (lit "Connection", lit "close"),
    (lit "Content-Length", digits body.length),
    (lit "Content-Type", lit "application/json")], body⟩

def kPrefix : Bytes := lit "/monitoredResource/"

/-- The JSON of the response to an unknown id. -/
def notFound : Value :=
  object [
    (lit "status_code", some (.number (.finite 404))),
    (lit "error", some (.string (lit "Not found")))]

section Server
variable (toText : Value → Bytes)

/-- `HandleMonitoredResource`, from the id on. -/
def monitoredResource (store : MetadataStore) (id : Bytes) : Answer :=
  match store.lookupResource id with
  | some resource => jsonText 200 (toText resource.toJSON)
  | none => jsonText 404 (toText notFound)

def handleMonitoredResource (store : MetadataStore) : Handler Connection := fun request conn =>
  match substr request.destination kPrefix.length with
  | none => { conn with escaped := true }
  | some id => conn.write (monitoredResource toText store id)

variable (healthCheckMaxDataAgeSeconds : ℤ)

/-- The map that the constructor gives to the dispatcher; the agent has a health checker. -/
def handlers (m : Monitor) (now : Timestamp) : HandlerMap Connection := .ofList [
  (toLex (lit "GET", kPrefix), handleMonitoredResource toText m.store),
  (toLex (lit "GET", lit "/healthz"), fun _ conn => conn.write
    (handleHealthz (some m.checker) m.store healthCheckMaxDataAgeSeconds now).answer)]

/-- A request, and when it comes. -/
structure Query where
  request : Request
  now : Timestamp

/-- The connection after the dispatcher has been through its map. -/
def serve (m : Monitor) (query : Query) : Connection :=
  (dispatch (handlers toText healthCheckMaxDataAgeSeconds m query.now) query.request .opened).1

/-- The requests of a run with their connections; the updaters call the store and the health
checker in between. -/
def servedIn (run : List (HealthChecker.Event ⊕ Query)) : List (Query × Connection) :=
  answered Monitor.apply (serve toText healthCheckMaxDataAgeSeconds) .init run

/-! ## One request -/

variable {toText healthCheckMaxDataAgeSeconds}

theorem substr_append (s t : Bytes) : substr (s ++ t) s.length = some t := by
  have hlength : ¬(s ++ t).length < s.length := by
    rw [List.length_append]
    omega
  rw [substr, if_neg hlength, List.drop_left]

theorem handlers_entries (m : Monitor) (now : Timestamp) :
    (handlers toText healthCheckMaxDataAgeSeconds m now).entries = [
      (toLex (lit "GET", lit "/healthz"), fun _ conn => conn.write
        (handleHealthz (some m.checker) m.store healthCheckMaxDataAgeSeconds now).answer),
      (toLex (lit "GET", kPrefix), handleMonitoredResource toText m.store)] := rfl

/-- The loop goes through the two entries backwards. -/
theorem serve_eq (m : Monitor) (query : Query) :
    serve toText healthCheckMaxDataAgeSeconds m query =
      let conn := if skips query.request (toLex (lit "GET", kPrefix)) then .opened
        else handleMonitoredResource toText m.store query.request .opened
      if skips query.request (toLex (lit "GET", lit "/healthz")) then conn
      else conn.write
        (handleHealthz (some m.checker) m.store healthCheckMaxDataAgeSeconds query.now).answer := by
  rw [serve, dispatch, handlers_entries]
  simp only [List.reverse_cons, List.reverse_nil, List.nil_append, List.singleton_append,
    dispatchLoop]
  cases skips query.request (toLex (lit "GET", kPrefix)) <;>
    cases skips query.request (toLex (lit "GET", lit "/healthz")) <;> rfl

theorem skips_false_iff (request : Request) (text : Bytes) :
    skips request (toLex (lit "GET", text)) = false ↔
      request.method = lit "GET" ∧ text <+: request.destination := by
  have hmatch := skips_eq_false_iff (κ := Connection) request
    (toLex (lit "GET", text), fun _ conn => conn)
  refine hmatch.trans ?_
  rw [Matches, ofLex_toLex, eq_comm (a := lit "GET")]

/-- No destination starts with both prefixes. -/
theorem not_both {destination : Bytes} (h : kPrefix <+: destination) :
    ¬lit "/healthz" <+: destination := by
  rintro ⟨rest, hrest⟩
  obtain ⟨id, hid⟩ := h
  have heq : kPrefix ++ id = lit "/healthz" ++ rest := hid.trans hrest.symm
  have hsecond : some (0x6d : UInt8) = some 0x68 := congrArg (fun bytes => bytes[1]?) heq
  cases hsecond

theorem serve_monitoredResource (m : Monitor) (id : Bytes) (now : Timestamp) :
    serve toText healthCheckMaxDataAgeSeconds m ⟨⟨lit "GET", kPrefix ++ id⟩, now⟩ =
      ⟨[monitoredResource toText m.store id], false⟩ := by
  have hfirst := (skips_false_iff ⟨lit "GET", kPrefix ++ id⟩ kPrefix).mpr
    ⟨rfl, List.prefix_append kPrefix id⟩
  have hsecond : skips ⟨lit "GET", kPrefix ++ id⟩ (toLex (lit "GET", lit "/healthz")) = true := by
    rw [← Bool.not_eq_false]
    intro h
    exact not_both (List.prefix_append kPrefix id) ((skips_false_iff _ _).mp h).2
  rw [serve_eq]
  simp only [hfirst, hsecond, Bool.false_eq_true, if_false, if_true]
  rw [handleMonitoredResource, substr_append]
  rfl

theorem serve_healthz (m : Monitor) (rest : Bytes) (now : Timestamp) :
    serve toText healthCheckMaxDataAgeSeconds m ⟨⟨lit "GET", lit "/healthz" ++ rest⟩, now⟩ =
      ⟨[(handleHealthz (some m.checker) m.store healthCheckMaxDataAgeSeconds now).answer],
        false⟩ := by
  have hsecond := (skips_false_iff ⟨lit "GET", lit "/healthz" ++ rest⟩ (lit "/healthz")).mpr
    ⟨rfl, List.prefix_append _ rest⟩
  have hfirst : skips ⟨lit "GET", lit "/healthz" ++ rest⟩ (toLex (lit "GET", kPrefix)) = true := by
    rw [← Bool.not_eq_false]
    intro h
    exact not_both ((skips_false_iff _ _).mp h).2 (List.prefix_append _ rest)
  rw [serve_eq]
  simp only [hfirst, hsecond, Bool.false_eq_true, if_false, if_true]
  rfl

/-- The forms of a request that has a handler. -/
theorem served_forms (request : Request) :
    (∃ id, request = ⟨lit "GET", kPrefix ++ id⟩) ∨
      (∃ rest, request = ⟨lit "GET", lit "/healthz" ++ rest⟩) ∨
      ∀ (m : Monitor) (now : Timestamp),
        serve toText healthCheckMaxDataAgeSeconds m ⟨request, now⟩ = .opened := by
  obtain ⟨method, destination⟩ := request
  cases hfirst : skips ⟨method, destination⟩ (toLex (lit "GET", kPrefix)) with
  | false =>
    obtain ⟨rfl, id, rfl⟩ := (skips_false_iff _ _).mp hfirst
    exact .inl ⟨id, rfl⟩
  | true =>
    cases hsecond : skips ⟨method, destination⟩ (toLex (lit "GET", lit "/healthz")) with
    | false =>
      obtain ⟨rfl, rest, rfl⟩ := (skips_false_iff _ _).mp hsecond
      exact .inr (.inl ⟨rest, rfl⟩)
    | true =>
      refine .inr (.inr fun m now => ?_)
      rw [serve_eq]
      simp only [hfirst, hsecond, if_true]

end Server

/-! ## What a history decides -/

/-- The first registration under the id is that of the resource. -/
def FirstRegistered (history : List HealthChecker.Event) (id : Bytes) (r : MonitoredResource) :
    Prop :=
  ∃ earlier ids later, history = earlier ++ .store (.updateResource ids r) :: later ∧ id ∈ ids ∧
    ∀ ids' r', .store (.updateResource ids' r') ∈ earlier → id ∉ ids'

/-- The component was reported, or its data were only collected too long ago. -/
def Unhealthy (history : List HealthChecker.Event) (healthCheckMaxDataAgeSeconds : ℤ)
    (now : Timestamp) (component : Bytes) : Prop :=
  .setUnhealthy component ∈ history ∨
    (HealthChecker.collections history component).Nonempty ∧
      ∀ t ∈ HealthChecker.collections history component,
        t < now - healthCheckMaxDataAgeSeconds * 1000000000

theorem firstRegistered_iff (history : List HealthChecker.Event) (id : Bytes)
    (r : MonitoredResource) :
    (Monitor.init.after history).store.lookupResource id = some r ↔
      FirstRegistered history id r := by
  have hinit : Monitor.init.store.lookupResource id = none := rfl
  rw [HealthChecker.lookupResource_monitor, hinit, Option.none_or, List.findSome?_eq_some_iff]
  constructor
  · rintro ⟨earlier, e, later, rfl, he, hearlier⟩
    obtain ⟨ids, rfl, hid⟩ := HealthChecker.registered_eq_some.mp he
    refine ⟨earlier, ids, later, rfl, hid, fun ids' r' hmem => ?_⟩
    exact HealthChecker.registered_eq_none.mp (hearlier _ hmem) ids' r' rfl
  · rintro ⟨earlier, ids, later, rfl, hid, hearlier⟩
    refine ⟨earlier, _, later, rfl, HealthChecker.registered_eq_some.mpr ⟨ids, rfl, hid⟩,
      fun e he => ?_⟩
    refine HealthChecker.registered_eq_none.mpr fun ids' r' heq => ?_
    exact hearlier ids' r' (heq ▸ he)

theorem lookupResource_eq_none_iff (history : List HealthChecker.Event) (id : Bytes) :
    (Monitor.init.after history).store.lookupResource id = none ↔
      ∀ ids r, .store (.updateResource ids r) ∈ history → id ∉ ids := by
  have hinit : Monitor.init.store.lookupResource id = none := rfl
  rw [HealthChecker.lookupResource_monitor, hinit, Option.none_or, List.findSome?_eq_none_iff]
  constructor
  · intro h ids r hmem
    exact HealthChecker.registered_eq_none.mp (h _ hmem) ids r rfl
  · intro h e he
    refine HealthChecker.registered_eq_none.mpr fun ids r heq => h ids r ?_
    exact heq ▸ he

theorem mem_unhealthy_iff (history : List HealthChecker.Event) (maxAge : ℤ) (now : Timestamp)
    (component : Bytes) :
    component ∈ (Monitor.init.after history).checker.unhealthy
        (Monitor.init.after history).store maxAge now ↔
      Unhealthy history maxAge now component := by
  rw [HealthChecker.mem_unhealthy, HealthChecker.mem_unhealthyComponents,
    HealthChecker.exists_find_lt_iff]
  rfl

/-! ## Framing -/

/-- The connection is to be closed, and the length of the body is announced. -/
def Framed (answer : Answer) : Prop :=
  answer.headers.find (lit "Connection") = some (lit "close") ∧
    answer.headers.find (lit "Content-Length") = some (digits answer.body.length)

theorem framed_jsonText (status : ℕ) (body : Bytes) : Framed (jsonText status body) := by
  constructor
  · rw [jsonText, OrderedMap.find_ofList]
    rfl
  · rw [jsonText, OrderedMap.find_ofList]
    rfl

theorem framed_plainText (status : Status) (body : Bytes) :
    Framed (plainText status body).answer := by
  constructor
  · rw [Response.answer, plainText, OrderedMap.find_ofList]
    rfl
  · rw [Response.answer, plainText, OrderedMap.find_ofList]
    rfl

/-- A health response is a plain text. -/
theorem healthzResponse_eq (unhealthyComponents : Finset Bytes) :
    healthzResponse unhealthyComponents = plainText (healthzResponse unhealthyComponents).status
      (healthzResponse unhealthyComponents).body := by
  unfold healthzResponse
  split <;> rfl

theorem component_in_body {unhealthyComponents : Finset Bytes} {component : Bytes}
    (h : component ∈ unhealthyComponents) :
    (healthzResponse unhealthyComponents).status = .internalServerError ∧
      component ++ [0x0a] <:+: (healthzResponse unhealthyComponents).body := by
  have hsome : unhealthyComponents.Nonempty := ⟨component, h⟩
  constructor
  · rw [healthzResponse, if_neg hsome.ne_empty]
    rfl
  · obtain ⟨before, after, hsort⟩ :=
      List.append_of_mem ((Finset.mem_sort (fun a b : Bytes => a ≤ b)).mpr h)
    refine ⟨before.flatMap fun c => c ++ [0x0a], (after.flatMap fun c => c ++ [0x0a]) ++
      header.drop (written unhealthyComponents).length, ?_⟩
    rw [body_of_nonempty hsome]
    have hwritten : written unhealthyComponents = (before.flatMap fun c => c ++ [0x0a]) ++
        ((component ++ [0x0a]) ++ after.flatMap fun c => c ++ [0x0a]) := by
      rw [written, hsort, List.flatMap_append, List.flatMap_cons]
    rw [← List.append_assoc, List.append_assoc _ (component ++ [0x0a]), ← hwritten]

/-! ## Runs -/

section Runs
variable (toText : Value → Bytes) (healthCheckMaxDataAgeSeconds : ℤ)

/-- The connection is what the history decides for the request. -/
structure AnsweredBy (history : List HealthChecker.Event) (query : Query) (conn : Connection) :
    Prop where
  contained : conn.escaped = false
  found : ∀ id r, query.request = ⟨lit "GET", kPrefix ++ id⟩ → FirstRegistered history id r →
    conn.answers = [jsonText 200 (toText r.toJSON)]
  missing : ∀ id, query.request = ⟨lit "GET", kPrefix ++ id⟩ →
    (∀ ids r, .store (.updateResource ids r) ∈ history → id ∉ ids) →
    conn.answers = [jsonText 404 (toText notFound)]
  healthy : ∀ rest, query.request = ⟨lit "GET", lit "/healthz" ++ rest⟩ →
    (∀ component, ¬Unhealthy history healthCheckMaxDataAgeSeconds query.now component) →
    conn.answers = [(plainText .ok (lit "healthy")).answer]
  unhealthy : ∀ rest component, query.request = ⟨lit "GET", lit "/healthz" ++ rest⟩ →
    Unhealthy history healthCheckMaxDataAgeSeconds query.now component →
    ∃ answer, conn.answers = [answer] ∧ answer.status = 500 ∧
      component ++ [0x0a] <:+: answer.body
  silent : (query.request.method ≠ lit "GET" ∨ ¬kPrefix <+: query.request.destination ∧
    ¬lit "/healthz" <+: query.request.destination) → conn.answers = []
  framed : ∀ answer ∈ conn.answers, Framed answer

variable {toText healthCheckMaxDataAgeSeconds}

theorem kPrefix_ne_healthz (id rest : Bytes) :
    (⟨lit "GET", kPrefix ++ id⟩ : Request) ≠ ⟨lit "GET", lit "/healthz" ++ rest⟩ := by
  intro h
  have hdestination := congrArg Request.destination h
  exact not_both (List.prefix_append kPrefix id) ⟨rest, hdestination.symm⟩

theorem answeredBy_monitoredResource (history : List HealthChecker.Event) (id : Bytes)
    (now : Timestamp) :
    AnsweredBy toText healthCheckMaxDataAgeSeconds history ⟨⟨lit "GET", kPrefix ++ id⟩, now⟩
      ⟨[monitoredResource toText (Monitor.init.after history).store id], false⟩ where
  contained := rfl
  found := by
    intro id' r hid hfirst
    obtain rfl : id = id' := List.append_cancel_left (congrArg Request.destination hid)
    rw [monitoredResource, (firstRegistered_iff history id r).mpr hfirst]
  missing := by
    intro id' hid hnone
    obtain rfl : id = id' := List.append_cancel_left (congrArg Request.destination hid)
    rw [monitoredResource, (lookupResource_eq_none_iff history id).mpr hnone]
  healthy := by
    intro rest h
    exact absurd h (kPrefix_ne_healthz id rest)
  unhealthy := by
    intro rest component h
    exact absurd h (kPrefix_ne_healthz id rest)
  silent := by
    rintro (h | ⟨h, -⟩)
    · exact absurd rfl h
    · exact absurd (List.prefix_append kPrefix id) h
  framed := by
    intro answer hanswer
    rw [List.mem_singleton.mp hanswer, monitoredResource]
    cases (Monitor.init.after history).store.lookupResource id with
    | none => exact framed_jsonText _ _
    | some r => exact framed_jsonText _ _

theorem answeredBy_healthz (history : List HealthChecker.Event) (rest : Bytes) (now : Timestamp) :
    AnsweredBy toText healthCheckMaxDataAgeSeconds history
      ⟨⟨lit "GET", lit "/healthz" ++ rest⟩, now⟩
      ⟨[(handleHealthz (some (Monitor.init.after history).checker)
        (Monitor.init.after history).store healthCheckMaxDataAgeSeconds now).answer], false⟩ where
  contained := rfl
  found := by
    intro id r h
    exact absurd h.symm (kPrefix_ne_healthz id rest)
  missing := by
    intro id h
    exact absurd h.symm (kPrefix_ne_healthz id rest)
  healthy := by
    intro rest' _ hnone
    have hempty : (Monitor.init.after history).checker.unhealthy
        (Monitor.init.after history).store healthCheckMaxDataAgeSeconds now = ∅ := by
      rw [Finset.eq_empty_iff_forall_notMem]
      intro component hmem
      exact hnone component ((mem_unhealthy_iff _ _ _ _).mp hmem)
    rw [handleHealthz]
    simp only [hempty, healthzResponse, if_true]
  unhealthy := by
    intro rest' component _ hunhealthy
    have hmem := (mem_unhealthy_iff history healthCheckMaxDataAgeSeconds now component).mpr
      hunhealthy
    obtain ⟨hstatus, hbody⟩ := component_in_body hmem
    refine ⟨_, rfl, ?_, hbody⟩
    rw [Response.answer, handleHealthz]
    simp only [hstatus, Status.code]
  silent := by
    rintro (h | ⟨-, h⟩)
    · exact absurd rfl h
    · exact absurd (List.prefix_append _ rest) h
  framed := by
    intro answer hanswer
    rw [List.mem_singleton.mp hanswer, handleHealthz, healthzResponse_eq]
    exact framed_plainText _ _

/-- A request without a handler is left without an answer. -/
theorem answeredBy_opened (history : List HealthChecker.Event) (query : Query)
    (hopened : serve toText healthCheckMaxDataAgeSeconds (Monitor.init.after history) query =
      .opened) :
    AnsweredBy toText healthCheckMaxDataAgeSeconds history query .opened := by
  obtain ⟨request, now⟩ := query
  have hid : ∀ id, request ≠ ⟨lit "GET", kPrefix ++ id⟩ := by
    rintro id rfl
    rw [serve_monitoredResource] at hopened
    cases congrArg Connection.answers hopened
  have hrest : ∀ rest, request ≠ ⟨lit "GET", lit "/healthz" ++ rest⟩ := by
    rintro rest rfl
    rw [serve_healthz] at hopened
    cases congrArg Connection.answers hopened
  exact {
    contained := rfl
    found := fun id r h => absurd h (hid id)
    missing := fun id h => absurd h (hid id)
    healthy := fun rest h => absurd h (hrest rest)
    unhealthy := fun rest component h => absurd h (hrest rest)
    silent := fun _ => rfl
    framed := fun answer h => absurd h List.not_mem_nil }

theorem answeredBy_serve (history : List HealthChecker.Event) (query : Query) :
    AnsweredBy toText healthCheckMaxDataAgeSeconds history query
      (serve toText healthCheckMaxDataAgeSeconds (Monitor.init.after history) query) := by
  obtain ⟨request, now⟩ := query
  rcases @served_forms toText healthCheckMaxDataAgeSeconds request with
    ⟨id, rfl⟩ | ⟨rest, rfl⟩ | hopened
  · rw [serve_monitoredResource]
    exact answeredBy_monitoredResource history id now
  · rw [serve_healthz]
    exact answeredBy_healthz history rest now
  · rw [hopened]
    exact answeredBy_opened history ⟨request, now⟩ (hopened _ now)

/-- Every connection of a run is what the events before its request decide: the resource that
was registered first under the id, or that there is none; the health; or no answer at all. -/
theorem served_by_history (run : List (HealthChecker.Event ⊕ Query)) (x : Query × Connection)
    (hx : x ∈ servedIn toText healthCheckMaxDataAgeSeconds run) :
    ∃ before after, run = before ++ .inr x.1 :: after ∧
      AnsweredBy toText healthCheckMaxDataAgeSeconds (events before) x.1 x.2 := by
  obtain ⟨before, after, hrun, hanswer⟩ := exists_of_mem_answered hx
  refine ⟨before, after, hrun, ?_⟩
  rw [hanswer, applied_eq_foldl]
  exact answeredBy_serve (events before) x.1

def oneResource : MonitoredResource := .ofLabels (lit "gce_instance") [(lit "zone", lit "z")]

def oneQuery : Query := ⟨⟨lit "GET", lit "/monitoredResource/a"⟩, 0⟩

def oneRun : List (HealthChecker.Event ⊕ Query) :=
  [.inl (.store (.updateResource [lit "a", lit "b"] oneResource)), .inr oneQuery]

def healthQuery : Query := ⟨⟨lit "GET", lit "/healthz"⟩, 5⟩

/-- A component is reported behind the first request, and then the health is asked for. -/
def reportedRun : List (HealthChecker.Event ⊕ Query) :=
  oneRun ++ [.inl (.setUnhealthy (lit "kubernetes_node_thread")), .inr healthQuery]

abbrev servedText : Value → Bytes := Value.bytes (yajlGen validateUtf8) formatHalf toHalf

theorem served_by_history_reported :
    (∃ before after, reportedRun = before ++ .inr oneQuery :: after ∧
      AnsweredBy servedText 300 (events before) oneQuery
        (serve servedText 300 (Monitor.init.after (events oneRun)) oneQuery)) ∧
    ∃ before after, reportedRun = before ++ .inr healthQuery :: after ∧
      AnsweredBy servedText 300 (events before) healthQuery
        (serve servedText 300 (Monitor.init.after (events reportedRun)) healthQuery) := by
  constructor
  · exact served_by_history reportedRun _ List.mem_cons_self
  · exact served_by_history reportedRun _ (List.mem_cons_of_mem _ List.mem_cons_self)

theorem monitoredResource_after {m : Monitor} {id : Bytes}
    (h : (monitoredResource toText m.store id).status = 200) (later : List HealthChecker.Event) :
    monitoredResource toText (m.after later).store id = monitoredResource toText m.store id := by
  rw [monitoredResource] at h
  cases hfind : m.store.lookupResource id with
  | none =>
    rw [hfind] at h
    cases h
  | some r =>
    rw [monitoredResource, monitoredResource, HealthChecker.lookupResource_monitor, hfind,
      Option.some_or]

/-- What was found once is answered the same way ever after, and a component that was reported
is named in every later health response. -/
theorem answers_stay (run : List (HealthChecker.Event ⊕ Query)) :
    (servedIn toText healthCheckMaxDataAgeSeconds run).Pairwise (fun x y =>
      ∀ id, x.1.request = ⟨lit "GET", kPrefix ++ id⟩ → y.1.request = x.1.request →
        (∃ answer ∈ x.2.answers, answer.status = 200) → y.2 = x.2) ∧
    ∀ before component after, run = before ++ .inl (.setUnhealthy component) :: after →
      ∃ late, servedIn toText healthCheckMaxDataAgeSeconds run =
          servedIn toText healthCheckMaxDataAgeSeconds before ++ late ∧
        ∀ y ∈ late, ∀ rest, y.1.request = ⟨lit "GET", lit "/healthz" ++ rest⟩ →
          ∃ answer, y.2.answers = [answer] ∧ answer.status = 500 ∧
            component ++ [0x0a] <:+: answer.body := by
  constructor
  · refine answered_pairwise (fun m later x y => ?_) Monitor.init run
    intro id hx hy hfound
    obtain ⟨request, now⟩ := x
    obtain ⟨request', now'⟩ := y
    simp only at hx hy
    subst hy
    subst hx
    simp only [serve_monitoredResource] at hfound ⊢
    obtain ⟨answer, hanswer, hstatus⟩ := hfound
    rw [List.mem_singleton] at hanswer
    rw [hanswer] at hstatus
    rw [← Monitor.after, monitoredResource_after hstatus]
  · rintro before component after rfl
    refine ⟨_, answered_append Monitor.apply _ Monitor.init before _, ?_⟩
    intro y hy rest hrequest
    obtain ⟨before', after', -, hanswer⟩ := exists_of_mem_answered (s := (applied Monitor.apply
      Monitor.init before).apply (.setUnhealthy component)) hy
    rw [hanswer, applied_eq_foldl, applied_eq_foldl]
    have hafter : (events before').foldl Monitor.apply
        (((events before).foldl Monitor.apply .init).apply (.setUnhealthy component)) =
          Monitor.init.after (events before ++ .setUnhealthy component :: events before') := by
      rw [Monitor.after, List.foldl_append, List.foldl_cons]
    rw [hafter]
    refine (answeredBy_serve _ y.1).unhealthy rest component hrequest (.inl ?_)
    exact List.mem_append_right _ List.mem_cons_self

end Runs

/-! ## What a client reads -/

/-- Every text of the resource is valid UTF-8. -/
structure ValidTexts (r : MonitoredResource) : Prop where
  type : validateUtf8 r.type = true
  labels : ∀ e ∈ r.labels.entries, validateUtf8 e.1 = true ∧ validateUtf8 e.2 = true

theorem toJSON_eq (r : MonitoredResource) : r.toJSON = .object [
    (lit "labels", .object (r.labels.mapValues fun _ label => Value.string label).entries),
    (lit "type", .string r.type)] := rfl

theorem toJSON_injective {r r' : MonitoredResource} (h : r.toJSON = r'.toJSON) : r = r' := by
  rw [toJSON_eq, toJSON_eq, Value.object.injEq, List.cons.injEq, Prod.mk.injEq,
    Value.object.injEq] at h
  obtain ⟨⟨-, hlabels⟩, htype⟩ := h
  rw [List.cons.injEq, Prod.mk.injEq, Value.string.injEq] at htype
  have hentries : r.labels.entries = r'.labels.entries := by
    have hinjective : Function.Injective
        fun e : Bytes × Bytes => (e.1, Value.string e.2) := by
      intro e f hef
      rw [Prod.mk.injEq, Value.string.injEq] at hef
      exact Prod.ext hef.1 hef.2
    exact hinjective.list_map hlabels
  cases r
  cases r'
  simp only [MonitoredResource.mk.injEq]
  exact ⟨htype.1.2, OrderedMap.ext hentries⟩

theorem ordered_toJSON (r : MonitoredResource) : r.toJSON.Ordered := by
  have hlabels : (Value.object (r.labels.mapValues fun _ label =>
      Value.string label).entries).Ordered := by
    rw [Value.Ordered, orderedFields_iff]
    refine ⟨(r.labels.mapValues fun _ label => Value.string label).ascending, ?_⟩
    intro f hf
    obtain ⟨e, -, rfl⟩ := List.mem_map.mp hf
    trivial
  rw [toJSON_eq, Value.Ordered, orderedFields_iff]
  refine ⟨?_, ?_⟩
  · exact List.pairwise_pair.mpr (by decide : lit "labels" < lit "type")
  · intro f hf
    rcases List.mem_cons.mp hf with rfl | hf
    · exact hlabels
    · rw [List.mem_singleton.mp hf]
      trivial

theorem encodable_toJSON {r : MonitoredResource} (hr : ValidTexts r)
    (toDouble : LongDouble → LongDouble) : Encodable validateUtf8 toDouble r.toJSON := by
  have hfields : ∀ f ∈ (r.labels.mapValues fun _ label => Value.string label).entries,
      ∃ e ∈ r.labels.entries, f = (e.1, Value.string e.2) := by
    intro f hf
    obtain ⟨e, he, rfl⟩ := List.mem_map.mp hf
    exact ⟨e, he, rfl⟩
  have hnames : validateUtf8 (lit "labels") = true ∧ validateUtf8 (lit "type") = true := by
    decide +kernel
  constructor
  · intro s hs
    rw [toJSON_eq, Value.strings, mem_fieldStrings] at hs
    obtain ⟨f, hf, hs⟩ := hs
    rcases List.mem_cons.mp hf with rfl | hf
    · rcases hs with rfl | hs
      · exact hnames.1
      · rw [Value.strings, mem_fieldStrings] at hs
        obtain ⟨f, hf, hs⟩ := hs
        obtain ⟨e, he, rfl⟩ := hfields f hf
        rcases hs with rfl | hs
        · exact (hr.labels e he).1
        · rw [List.mem_singleton.mp hs]
          exact (hr.labels e he).2
    · rw [List.mem_singleton.mp hf] at hs
      rcases hs with rfl | hs
      · exact hnames.2
      · rw [List.mem_singleton.mp hs]
        exact hr.type
  · intro x hx
    rw [toJSON_eq, Value.numbers, mem_fieldNumbers] at hx
    obtain ⟨f, hf, hx⟩ := hx
    rcases List.mem_cons.mp hf with rfl | hf
    · rw [Value.numbers, mem_fieldNumbers] at hx
      obtain ⟨f, hf, hx⟩ := hx
      obtain ⟨e, -, rfl⟩ := hfields f hf
      cases hx
    · rw [List.mem_singleton.mp hf] at hx
      cases hx
  · have hlabels : (Value.object (r.labels.mapValues fun _ label =>
        Value.string label).entries).depth < 2 := by
      have hflat : fieldsDepth (r.labels.mapValues fun _ label =>
          Value.string label).entries < 1 := by
        rw [fieldsDepth_lt Nat.one_pos]
        intro f hf
        obtain ⟨e, -, rfl⟩ := hfields f hf
        exact Nat.one_pos
      rw [Value.depth]
      omega
    have hall : fieldsDepth [
        (lit "labels", .object (r.labels.mapValues fun _ label => Value.string label).entries),
        (lit "type", .string r.type)] < 2 := by
      rw [fieldsDepth_lt (by omega)]
      intro f hf
      rcases List.mem_cons.mp hf with rfl | hf
      · exact hlabels
      · rw [List.mem_singleton.mp hf]
        exact Nat.two_pos
    rw [toJSON_eq, Value.depth, maxDepth]
    omega

theorem notFound_eq : notFound = .object [
    (lit "error", .string (lit "Not found")), (lit "status_code", .number (.finite 404))] := rfl

theorem ordered_notFound : notFound.Ordered := by
  rw [notFound_eq, Value.Ordered, OrderedFields, OrderedFields, OrderedFields]
  exact ⟨List.pairwise_pair.mpr (by decide : lit "error" < lit "status_code"), trivial, trivial,
    trivial⟩

theorem encodable_notFound (toDouble : LongDouble → LongDouble) :
    Encodable validateUtf8 toDouble notFound := by
  refine ⟨by decide +kernel, fun x hx => ?_, by decide +kernel⟩
  rw [notFound_eq, Value.numbers, mem_fieldNumbers] at hx
  obtain ⟨f, hf, hx⟩ := hx
  rcases List.mem_cons.mp hf with rfl | hf
  · cases hx
  · rw [List.mem_singleton.mp hf] at hx
    rw [List.mem_singleton.mp hx]
    exact .inl (by decide +kernel)

section Client
variable {g : YajlGen} {formatDouble : LongDouble → Bytes} {toDouble : LongDouble → LongDouble}
  {y : Yajl} {Between InsideMap Failed : y.State → Prop} {healthCheckMaxDataAgeSeconds : ℤ}

/-- The one answer parses to the resource that was registered first by then, and to no other, or
to the error if there was none. -/
def ReadOut (y : Yajl) (run : List (HealthChecker.Event ⊕ Query)) (id : Bytes)
    (x : Query × Connection) : Prop :=
  ∃ before after answer, run = before ++ .inr x.1 :: after ∧ x.2.answers = [answer] ∧
    ((∃ r, FirstRegistered (events before) id r ∧ answer.status = 200 ∧
        fromString y answer.body = .ok (some r.toJSON) ∧ ∀ r', r'.toJSON = r.toJSON → r' = r) ∨
      ((∀ ids r, .store (.updateResource ids r) ∈ events before → id ∉ ids) ∧
        answer.status = 404 ∧ fromString y answer.body = .ok (some notFound)))

/-- A client that parses the body has the resource that was registered first, or the error. -/
theorem client_reads_resource (hg : g.Documented validateUtf8)
    (hy : y.Documented Between InsideMap Failed) (hfinish : y.Finishes Between)
    (hreads : ReadsTexts y validateUtf8 formatDouble toDouble)
    (run : List (HealthChecker.Event ⊕ Query))
    (hvalid : ∀ ids r, .inl (.store (.updateResource ids r)) ∈ run → ValidTexts r)
    (x : Query × Connection)
    (hx : x ∈ servedIn (Value.bytes g formatDouble toDouble) healthCheckMaxDataAgeSeconds run)
    (id : Bytes) (hid : x.1.request = ⟨lit "GET", kPrefix ++ id⟩) :
    ReadOut y run id x := by
  obtain ⟨before, after, hrun, hanswered⟩ := exists_of_mem_answered hx
  rw [applied_eq_foldl] at hanswered
  have hby := @answeredBy_serve (Value.bytes g formatDouble toDouble)
    healthCheckMaxDataAgeSeconds (events before) x.1
  rw [Monitor.after, ← hanswered] at hby
  cases hfind : (Monitor.init.after (events before)).store.lookupResource id with
  | some r =>
    have hfirst := (firstRegistered_iff (events before) id r).mp hfind
    have hr : ValidTexts r := by
      obtain ⟨earlier, ids, later, hevents, -⟩ := hfirst
      refine hvalid ids r ?_
      have hmem : .store (.updateResource ids r) ∈ events before := by
        rw [hevents]
        exact List.mem_append_right _ List.mem_cons_self
      obtain ⟨l, hl, hleft⟩ := List.mem_filterMap.mp hmem
      obtain rfl := Sum.getLeft?_eq_some_iff.mp hleft
      rw [hrun]
      exact List.mem_append_left _ hl
    refine ⟨before, after, _, hrun, hby.found id r hid hfirst, .inl ⟨r, hfirst, rfl, ?_, ?_⟩⟩
    · exact fromString_bytes hg hy hfinish hreads (ordered_toJSON r) (encodable_toJSON hr toDouble)
    · exact fun r' h => toJSON_injective h
  | none =>
    have hnone := (lookupResource_eq_none_iff (events before) id).mp hfind
    refine ⟨before, after, _, hrun, hby.missing id hid hnone, .inr ⟨hnone, rfl, ?_⟩⟩
    exact fromString_bytes hg hy hfinish hreads ordered_notFound (encodable_notFound toDouble)

end Client

theorem client_reads_one :
    ReadOut (textParser fun _ => some (.finite (3 / 2))) oneRun (lit "a") (oneQuery,
      serve servedText 300 (Monitor.init.after (events oneRun)) oneQuery) := by
  refine client_reads_resource (yajlGen_documented validateUtf8) (textParser_documented _)
    (textParser_finishes _) readsTexts_textParser oneRun ?_ _ (List.mem_singleton.mpr rfl)
    (lit "a") rfl
  intro ids r hmem
  rw [oneRun, List.mem_cons] at hmem
  rcases hmem with hmem | hmem
  · cases hmem
    exact ⟨by decide +kernel, by decide +kernel⟩
  · cases List.mem_singleton.mp hmem

end MetadataAgent.MetadataApiServer
