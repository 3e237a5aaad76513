import MetadataAgent.Format
import MetadataAgent.Json.Pushdown
import MetadataAgent.OAuth2
import MetadataAgent.Reporter.Send

/-! # What escapes a report

Before its first request, `SendMetadata` fills the project id into the endpoint format and asks for
the authorization header, which may take a token from the metadata server. `ReportMetadata` handles
`system_error`. A token body that is not JSON and a format with a placeholder that is not closed, or
not `project_id`, end in other exceptions. -/
namespace MetadataAgent
open Lib Json
set_option autoImplicit false

/-! ## The token of the metadata server -/

namespace OAuth2
variable (y : Yajl)

/-- `GetMetadataToken`, by what `GetMetadataString` returns for the token path. -/
def getMetadataToken (tokenResponse : Bytes) : Except Exception (Option Value) :=
  if tokenResponse.isEmpty then .ok none else fromString y tokenResponse

/-- A call of `GetAuthHeaderValue`, by the outcome of the credentials request and the body that the
metadata server returns. -/
def callWith (now resetNow : Timestamp) (credentialsToken : Option Value) (tokenResponse : Bytes) :
    Call :=
  ⟨now, credentialsToken, getMetadataToken y tokenResponse, resetNow⟩

/-- The cached header cannot be used. -/
def NeedsToken (auth : OAuth2) (call : Call) : Prop :=
  auth.authHeaderValue = [] ∨ auth.tokenExpiration < call.now

/-- Neither the credentials nor the metadata server give a token of the right form. -/
def NoToken (call : Call) : Prop :=
  ∀ tokenJson, call.tokenJson = .ok (some tokenJson) → (parseToken tokenJson).toOption = none

theorem header_of_noToken {auth : OAuth2} {call : Call} (hneeds : auth.NeedsToken call)
    (hno : NoToken call) {header : Bytes}
    (h : (auth.getAuthHeaderValue call).1.header = .ok header) : header = [] := by
  have hfetch : (auth.authHeaderValue.isEmpty || auth.isExpired call.now) = true := by
    simpa [NeedsToken, isExpired] using hneeds
  rw [getAuthHeaderValue, if_pos hfetch] at h
  cases htoken : call.tokenJson with
  | error e =>
    rw [htoken] at h
    cases h
  | ok o =>
    rw [htoken] at h
    cases o with
    | none =>
      cases h
      rfl
    | some tokenJson =>
      have hparse := hno tokenJson htoken
      cases hfields : parseToken tokenJson with
      | ok token =>
        rw [hfields] at hparse
        cases hparse
      | error e =>
        simp only [hfields] at h
        cases h
        rfl

/-- The header is returned unless a token is needed and none could even be parsed. -/
theorem header_returns_iff (auth : OAuth2) (call : Call) :
    (∃ header, (auth.getAuthHeaderValue call).1.header = .ok header) ↔
      (auth.NeedsToken call → ∃ tokenJson, call.tokenJson = .ok tokenJson) := by
  have hneeds : (auth.authHeaderValue.isEmpty || auth.isExpired call.now) = true ↔
      auth.NeedsToken call := by
    simp [NeedsToken, isExpired]
  rw [getAuthHeaderValue, ← hneeds]
  by_cases hfetch : (auth.authHeaderValue.isEmpty || auth.isExpired call.now) = true
  · rw [if_pos hfetch]
    cases htoken : call.tokenJson with
    | error e => simp [hfetch]
    | ok o =>
      cases o with
      | none => simp
      | some tokenJson => cases hfields : parseToken tokenJson <;> simp [hfields]
  · rw [if_neg hfetch]
    simp [hfetch]

end OAuth2

/-! ## Sending -/

namespace MetadataReporter

/-- What can leave `SendMetadata`; its specification allows the first alone. -/
inductive Thrown where
  | system (e : SystemError)
  | format (e : Format.Exception)
  | json (e : Json.Exception)

structure ReporterConfiguration where
  metadataIngestionEndpointFormat : Bytes
  metadataReporterUserAgent : Bytes
  limits : RequestLimits

section Report
variable (toString : Value → Bytes) (config : ReporterConfiguration) (server : Server)
variable (projectId : Bytes) (auth : OAuth2) (call : OAuth2.Call)

/-- `SendMetadata` on the map of the store: the requests and their outcome, and the token cache. -/
def sendMetadataMap (metadata : OrderedMap MonitoredResource Metadata) :
    (List Request × Except Thrown Unit) × OAuth2 :=
  if metadata.isEmpty then (([], .ok ()), auth)
  else
    match Format.substitute config.metadataIngestionEndpointFormat
        (.ofList [(lit "project_id", projectId)]) with
    | .error e => (([], .error (.format e)), auth)
    | .ok endpoint =>
      match auth.getAuthHeaderValue call with
      | (reply, auth) =>
        match reply.header with
        | .error e => (([], .error (.json e)), auth)
        | .ok authHeader =>
          let sent := sendMetadata toString ⟨endpoint, authHeader, config.metadataReporterUserAgent⟩
            config.limits server metadata
          ((sent.1, sent.2.mapError .system), auth)

/-- The header is a string, empty when no token can be had, and nothing but a `system_error` leaves
`SendMetadata`. -/
structure Survives (metadata : OrderedMap MonitoredResource Metadata) : Prop where
  header : ∃ header, (auth.getAuthHeaderValue call).1.header = .ok header ∧
    (auth.NeedsToken call → OAuth2.NoToken call → header = [])
  thrown : ∀ e, (sendMetadataMap toString config server projectId auth call metadata).1.2 =
    .error e → ∃ s, e = .system s

theorem known_projectId (projectId : Bytes) :
    (fun name => ((OrderedMap.ofList [(lit "project_id", projectId)]).find name).isSome = true) =
      fun name => name = lit "project_id" := by
  funext name
  rw [OrderedMap.find_ofList, lookup, lookup]
  by_cases hname : name = lit "project_id" <;> simp [hname]

/-- With entries to send, what leaves is a `system_error` when the format is well-formed and the
header is a string. -/
theorem thrown_iff {metadata : OrderedMap MonitoredResource Metadata}
    {header : Bytes} (hheader : (auth.getAuthHeaderValue call).1.header = .ok header) :
    (∀ e, (sendMetadataMap toString config server projectId auth call metadata).1.2 = .error e →
      ∃ s, e = .system s) ↔
    (metadata.isEmpty = false → Format.WellFormed (fun name => name = lit "project_id")
      config.metadataIngestionEndpointFormat) := by
  rw [← known_projectId projectId, ← Format.substitute_returns_iff, sendMetadataMap]
  by_cases hempty : metadata.isEmpty = true
  · rw [if_pos hempty]
    simp [hempty]
  · rw [if_neg hempty]
    cases hendpoint : Format.substitute config.metadataIngestionEndpointFormat
        (.ofList [(lit "project_id", projectId)]) with
    | error e => simp [hempty]
    | ok endpoint =>
      simp only [hheader, Except.ok.injEq, exists_eq', implies_true, iff_true]
      intro e he
      rw [mapError_eq_error] at he
      obtain ⟨s, _, hs⟩ := he
      exact ⟨s, hs.symm⟩

end Report

/-- A report survives exactly when a token is not needed, or the credentials give one, or the body
for the token path is empty or parses; and when the endpoint format is well-formed, if there is
anything to send. -/
theorem survives_iff (toString : Value → Bytes) (y : Yajl) (config : ReporterConfiguration)
    (server : Server) (projectId : Bytes) (auth : OAuth2) (now resetNow : Timestamp)
    (credentialsToken : Option Value) (tokenResponse : Bytes)
    (metadata : OrderedMap MonitoredResource Metadata) :
    Survives toString config server projectId auth
        (OAuth2.callWith y now resetNow credentialsToken tokenResponse) metadata ↔
      (auth.authHeaderValue = [] ∨ auth.tokenExpiration < now → credentialsToken = none →
        tokenResponse = [] ∨ ∃ parsed, fromString y tokenResponse = .ok parsed) ∧
      (metadata.isEmpty = false → Format.WellFormed (fun name => name = lit "project_id")
        config.metadataIngestionEndpointFormat) := by
  have htoken : (∃ tokenJson, (OAuth2.callWith y now resetNow credentialsToken
      tokenResponse).tokenJson = .ok tokenJson) ↔ (credentialsToken = none →
        tokenResponse = [] ∨ ∃ parsed, fromString y tokenResponse = .ok parsed) := by
    unfold OAuth2.callWith OAuth2.Call.tokenJson OAuth2.getMetadataToken
    cases credentialsToken with
    | some token => simp
    | none => by_cases hbody : tokenResponse = [] <;> simp [hbody]
  have hheader := OAuth2.header_returns_iff auth
    (OAuth2.callWith y now resetNow credentialsToken tokenResponse)
  rw [htoken] at hheader
  constructor
  · rintro ⟨⟨header, hreturned, _⟩, hthrown⟩
    exact ⟨hheader.mp ⟨header, hreturned⟩,
      (thrown_iff toString config server projectId auth _ hreturned).mp hthrown⟩
  · rintro ⟨htokens, hformat⟩
    obtain ⟨header, hreturned⟩ := hheader.mpr htokens
    refine ⟨⟨header, hreturned, ?_⟩,
      (thrown_iff toString config server projectId auth _ hreturned).mpr hformat⟩
    intro hneeds hno
    exact OAuth2.header_of_noToken hneeds hno hreturned

/-! ## A body and a format that escape -/

theorem fromString_notFound : ∃ e, fromString pushdown (lit "not found") = .error e := by
  have hblocks : readBlocks (lit "not found") = [lit "not found"] := by
    rw [readBlocks, if_pos (by decide)]
  unfold fromString allFromString parseStream
  rw [hblocks]
  exact ⟨_, rfl⟩

/-- A reporter configuration with the default limits. -/
def reporterConfig (endpointFormat : Bytes) : ReporterConfiguration :=
  ⟨endpointFormat, lit "metadata-agent/0.0.21", ⟨8388608, 1000⟩⟩

def defaultFormat : Bytes :=
  lit "https://stackdriver.googleapis.com/v1beta2/projects/" ++ 0x7b :: 0x7b ::
    (lit "project_id" ++ 0x7d :: 0x7d :: lit "/resourceMetadata:batchUpdate")

/-- A format whose placeholder is not closed. -/
def openFormat : Bytes :=
  lit "https://stackdriver.googleapis.com/v1beta2/projects/" ++ 0x7b :: 0x7b :: lit "project_id"

example : Format.WellFormed (fun name => name = lit "project_id") defaultFormat :=
  .placeholder (Format.splitAtPair_eq_none.mp (by decide +kernel))
    (Format.splitAtPair_eq_none.mp (by decide +kernel)) rfl
    (.literal (Format.splitAtPair_eq_none.mp (by decide +kernel)))

def accepting : Server := fun _ _ => .response 200 (lit "OK")

def oneEntry : OrderedMap MonitoredResource Metadata :=
  .ofList [(.ofLabels (lit "gce_instance") [], .ignored)]

/-- A text for a token, and a format that is not well-formed, each on its own. -/
theorem report_escapes :
    ¬ Survives (fun _ => []) (reporterConfig defaultFormat) accepting (lit "project") OAuth2.init
      (OAuth2.callWith pushdown 1 1 none (lit "not found")) oneEntry ∧
    ¬ Survives (fun _ => []) (reporterConfig openFormat) accepting (lit "project") OAuth2.init
      (OAuth2.callWith pushdown 1 1 none []) oneEntry := by
  constructor
  · rintro ⟨⟨header, hreturned, _⟩, _⟩
    obtain ⟨tokenJson, htoken⟩ :=
      (OAuth2.header_returns_iff _ _).mp ⟨header, hreturned⟩ (Or.inl rfl)
    obtain ⟨e, he⟩ := fromString_notFound
    have hparsed : fromString pushdown (lit "not found") = .ok tokenJson := htoken
    rw [he] at hparsed
    cases hparsed
  · rintro ⟨_, hthrown⟩
    have hbefore : Format.NoPair 0x7b
        (lit "https://stackdriver.googleapis.com/v1beta2/projects/" ++ [0x7b]) :=
      Format.splitAtPair_eq_none.mp (by decide +kernel)
    have hopened : Format.NoPair 0x7d (lit "project_id") :=
      Format.splitAtPair_eq_none.mp (by decide +kernel)
    have hformat := Format.substituteFrom_unterminated
      (.ofList [(lit "project_id", lit "project")]) 0 hbefore hopened
    rw [sendMetadataMap, if_neg (by decide +kernel), Format.substitute, reporterConfig,
      openFormat] at hthrown
    simp only at hthrown
    rw [hformat] at hthrown
    obtain ⟨s, hs⟩ := hthrown _ rfl
    cases hs

end MetadataReporter

end MetadataAgent
