import MetadataAgent.Json.Value
import MetadataAgent.Time
import MetadataAgent.Lib.Failing
import MetadataAgent.Lib.Histories

/-! # The token cache

`GetAuthHeaderValue` keeps the header of the last token and the time until which it is used. A
call fetches a new token when there is none or the time is over. What the two fields hold is always
what the last well-formed token response left in them. -/
namespace MetadataAgent
open Lib Json
set_option autoImplicit false

/-- `static_cast<long>`. The conversion of an infinity or a NaN is undefined; here it has the
value that it has on x86-64. -/
def toLong : LongDouble → ℤ
  | .finite q => q.num.tdiv q.den
  | .negZero => 0
  | .infinity _ => -9223372036854775808
  | .nan => -9223372036854775808

structure OAuth2 where
  authHeaderValue : Bytes
  tokenExpiration : Timestamp
  deriving DecidableEq

namespace OAuth2

/-- The state that the constructor leaves. -/
def init : OAuth2 := ⟨[], 0⟩

/-- A token response. -/
structure Token where
  accessToken : Bytes
  tokenType : Bytes
  expiresIn : LongDouble
  deriving DecidableEq

/-- One call of `GetAuthHeaderValue`: the clock when it looks at the expiration, what
`ComputeTokenFromCredentials` and `GetMetadataToken` return, and the clock when the expiration is
reset. -/
structure Call where
  now : Timestamp
  credentialsToken : Option Value
  metadataToken : Except Exception (Option Value)
  resetNow : Timestamp

/-- The header or the exception of a call, and whether it fetched a token. -/
structure Reply where
  header : Except Exception Bytes
  fetched : Bool

def isExpired (auth : OAuth2) (now : Timestamp) : Bool := auth.tokenExpiration < now

def reset (now : Timestamp) (duration : ℤ) : Timestamp := now + duration * 1000000000

/-- The credentials first, then the metadata server. -/
def Call.tokenJson (call : Call) : Except Exception (Option Value) :=
  match call.credentialsToken with
  | some token => .ok (some token)
  | none => call.metadataToken

def parseToken (tokenJson : Value) : Except Exception Token := do
  let token ← asObject tokenJson
  let accessToken ← getString token (lit "access_token")
  let tokenType ← getString token (lit "token_type")
  let expiresIn ← getNumber token (lit "expires_in")
  return ⟨accessToken, tokenType, expiresIn⟩

def getAuthHeaderValue (auth : OAuth2) (call : Call) : Reply × OAuth2 :=
  if auth.authHeaderValue.isEmpty || auth.isExpired call.now then
    match call.tokenJson with
    | .error e => (⟨.error e, true⟩, auth)
    | .ok none => (⟨.ok [], true⟩, auth)
    | .ok (some tokenJson) =>
      match parseToken tokenJson with
      | .error _ => (⟨.ok [], true⟩, auth)
      | .ok token =>
        let header := token.tokenType ++ lit " " ++ token.accessToken
        (⟨.ok header, true⟩,
          ⟨header, reset call.resetNow (toLong token.expiresIn - 60)⟩)
  else (⟨.ok auth.authHeaderValue, false⟩, auth)

def after (auth : OAuth2) (calls : List Call) : OAuth2 :=
  calls.foldl (fun auth call => (auth.getAuthHeaderValue call).2) auth

/-! ## The last token -/

/-- A well-formed token response and when it came. -/
structure Fetched where
  token : Token
  fetchTime : Timestamp
  deriving DecidableEq

def Fetched.header (f : Fetched) : Bytes := f.token.tokenType ++ lit " " ++ f.token.accessToken

/-- A minute before the token expires. -/
def Fetched.bound (f : Fetched) : Timestamp :=
  f.fetchTime + (toLong f.token.expiresIn - 60) * 1000000000

/-- The well-formed token response that a call gets, if it fetches one. -/
def fetchedIn (auth : OAuth2) (call : Call) : Option Fetched :=
  if (auth.getAuthHeaderValue call).1.fetched then
    match call.tokenJson with
    | .ok (some tokenJson) => (parseToken tokenJson).toOption.map fun token => ⟨token, call.resetNow⟩
    | _ => none
  else none

/-- The calls of a run, each with the state it began in. -/
def trace (auth : OAuth2) : List Call → List (OAuth2 × Call)
  | [] => []
  | call :: calls => (auth, call) :: trace (auth.getAuthHeaderValue call).2 calls

/-- The most recent well-formed token response of a run. -/
def lastFetched (calls : List Call) : Option Fetched :=
  (latest (fun p => fetchedIn p.1 p.2) (trace init calls)).map Prod.fst

/-- What the cache holds after a token response. -/
def holding : Option Fetched → OAuth2
  | none => init
  | some f => ⟨f.header, f.bound⟩

theorem trace_concat (auth : OAuth2) (calls : List Call) (call : Call) :
    trace auth (calls ++ [call]) = trace auth calls ++ [(auth.after calls, call)] := by
  induction calls generalizing auth with
  | nil => rfl
  | cons c calls ih =>
    rw [List.cons_append, trace, ih]
    rfl

theorem after_concat (auth : OAuth2) (calls : List Call) (call : Call) :
    auth.after (calls ++ [call]) = ((auth.after calls).getAuthHeaderValue call).2 := by
  simp [after]

theorem lastFetched_concat (calls : List Call) (call : Call) :
    lastFetched (calls ++ [call]) = (fetchedIn (init.after calls) call).or (lastFetched calls) := by
  unfold lastFetched
  rw [trace_concat, latest_concat]
  cases fetchedIn (init.after calls) call <;>
    cases latest (fun p => fetchedIn p.1 p.2) (trace init calls) <;> rfl

/-- What a call can do: its reply, the cache after it, and the token response it gets. -/
inductive Outcome (auth : OAuth2) (call : Call) : Reply → OAuth2 → Option Fetched → Prop
  | cached (hheader : auth.authHeaderValue ≠ []) (hbound : call.now ≤ auth.tokenExpiration) :
      Outcome auth call ⟨.ok auth.authHeaderValue, false⟩ auth none
  | threw (e : Exception) (hthrows : call.tokenJson = .error e)
      (hfetch : auth.authHeaderValue = [] ∨ auth.tokenExpiration < call.now) :
      Outcome auth call ⟨.error e, true⟩ auth none
  | failed (hfetch : auth.authHeaderValue = [] ∨ auth.tokenExpiration < call.now) :
      Outcome auth call ⟨.ok [], true⟩ auth none
  | refreshed (f : Fetched)
      (hfetch : auth.authHeaderValue = [] ∨ auth.tokenExpiration < call.now) :
      Outcome auth call ⟨.ok f.header, true⟩ (holding (some f)) (some f)

theorem outcome (auth : OAuth2) (call : Call) :
    Outcome auth call (auth.getAuthHeaderValue call).1 (auth.getAuthHeaderValue call).2
      (fetchedIn auth call) := by
  unfold fetchedIn getAuthHeaderValue
  by_cases hneeds : (auth.authHeaderValue.isEmpty || auth.isExpired call.now) = true
  · have hfetch : auth.authHeaderValue = [] ∨ auth.tokenExpiration < call.now := by
      simpa [isExpired] using hneeds
    rw [if_pos hneeds]
    cases hjson : call.tokenJson with
    | error e => exact .threw e hjson hfetch
    | ok o =>
      cases o with
      | none => exact .failed hfetch
      | some v =>
        cases htoken : parseToken v with
        | error e =>
          simp only [htoken]
          exact .failed hfetch
        | ok token =>
          simp only [htoken]
          exact .refreshed ⟨token, call.resetNow⟩ hfetch
  · have hkeeps : auth.authHeaderValue ≠ [] ∧ call.now ≤ auth.tokenExpiration := by
      simpa [isExpired] using hneeds
    rw [if_neg hneeds]
    exact .cached hkeeps.1 hkeeps.2

theorem getAuthHeaderValue_snd (auth : OAuth2) (call : Call) :
    (auth.getAuthHeaderValue call).2 = ((fetchedIn auth call).map (holding ∘ some)).getD auth := by
  have h := outcome auth call
  generalize auth.getAuthHeaderValue call = out at h ⊢
  generalize fetchedIn auth call = fetched at h ⊢
  obtain ⟨reply, next⟩ := out
  simp only at h
  cases h <;> rfl

/-- The cache holds what the most recent well-formed token response left in it. -/
theorem after_eq_holding (calls : List Call) :
    init.after calls = holding (lastFetched calls) := by
  induction calls using List.reverseRecOn with
  | nil => rfl
  | append_singleton calls call ih =>
    rw [after_concat, lastFetched_concat, getAuthHeaderValue_snd, ih]
    cases fetchedIn (holding (lastFetched calls)) call <;> rfl

/-! ## One call -/

theorem header_ne_nil (f : Fetched) : f.header ≠ [] := by
  intro h
  have hlength := congrArg List.length h
  have hspace : (lit " ").length = 1 := rfl
  rw [Fetched.header, List.length_append, List.length_append, List.length_nil] at hlength
  omega

theorem header_of_reply {o : Option Fetched} {call : Call} {header : Bytes}
    (hheader : ((holding o).getAuthHeaderValue call).1.header = .ok header) (hne : header ≠ []) :
    ∃ f, (fetchedIn (holding o) call).or o = some f ∧ header = f.header ∧
      (fetchedIn (holding o) call = some f ∨ call.now ≤ f.bound) := by
  have h := outcome (holding o) call
  generalize (holding o).getAuthHeaderValue call = out at h hheader
  generalize fetchedIn (holding o) call = fetched at h ⊢
  obtain ⟨reply, next⟩ := out
  simp only at h
  cases h with
  | cached hcached hbound =>
    cases o with
    | none => exact absurd rfl hcached
    | some f => exact ⟨f, rfl, (Except.ok.inj hheader).symm, .inr hbound⟩
  | threw e hthrows hfetch => cases hheader
  | failed hfetch => exact absurd (Except.ok.inj hheader).symm hne
  | refreshed f hfetch => exact ⟨f, rfl, (Except.ok.inj hheader).symm, .inl rfl⟩

theorem not_fetched_of_bound {f : Fetched} {call : Call} (hbound : call.now ≤ f.bound) :
    ((holding (some f)).getAuthHeaderValue call).1.fetched = false := by
  have h := outcome (holding (some f)) call
  have hno : ¬((holding (some f)).authHeaderValue = [] ∨
      (holding (some f)).tokenExpiration < call.now) := by
    rintro (hempty | hexpired)
    · exact header_ne_nil f hempty
    · exact absurd hexpired (not_lt.mpr hbound)
  generalize (holding (some f)).getAuthHeaderValue call = out at h ⊢
  generalize fetchedIn (holding (some f)) call = fetched at h
  obtain ⟨reply, next⟩ := out
  simp only at h
  cases h with
  | cached hcached hbound => rfl
  | threw e hthrows hfetch => exact absurd hfetch hno
  | failed hfetch => exact absurd hfetch hno
  | refreshed f' hfetch => exact absurd hfetch hno

theorem failed_fetch {auth : OAuth2} {call : Call}
    (hfetched : (auth.getAuthHeaderValue call).1.fetched = true)
    (hnone : fetchedIn auth call = none) :
    (auth.getAuthHeaderValue call).2 = auth ∧
      ∀ o, call.tokenJson = .ok o → (auth.getAuthHeaderValue call).1.header = .ok [] := by
  have h := outcome auth call
  generalize auth.getAuthHeaderValue call = out at h hfetched ⊢
  rw [hnone] at h
  obtain ⟨reply, next⟩ := out
  simp only at h
  cases h with
  | cached hcached hbound => cases hfetched
  | threw e hthrows hfetch =>
    refine ⟨rfl, fun o ho => ?_⟩
    rw [hthrows] at ho
    cases ho
  | failed hfetch => exact ⟨rfl, fun _ _ => rfl⟩

/-- In any run: a header that is returned is that of the most recent well-formed token response,
which either came in this call or is still within its bound; no token is fetched within the bound;
and a call that fetches no well-formed token leaves the cache alone and returns nothing. -/
theorem token_cache_safe (calls : List Call) (call : Call) :
    (∀ header, ((init.after calls).getAuthHeaderValue call).1.header = .ok header → header ≠ [] →
      ∃ f, lastFetched (calls ++ [call]) = some f ∧ header = f.header ∧
        (fetchedIn (init.after calls) call = some f ∨ call.now ≤ f.bound)) ∧
    (∀ f, lastFetched calls = some f → call.now ≤ f.bound →
      ((init.after calls).getAuthHeaderValue call).1.fetched = false) ∧
    (((init.after calls).getAuthHeaderValue call).1.fetched = true →
      fetchedIn (init.after calls) call = none →
        init.after (calls ++ [call]) = init.after calls ∧
        ∀ o, call.tokenJson = .ok o →
          ((init.after calls).getAuthHeaderValue call).1.header = .ok []) := by
  rw [lastFetched_concat, after_concat, after_eq_holding]
  refine ⟨fun header => header_of_reply, ?_, failed_fetch⟩
  intro f hf hbound
  rw [hf]
  exact not_fetched_of_bound hbound

end OAuth2

end MetadataAgent
