import MetadataAgent.Base64
import MetadataAgent.Getters
import MetadataAgent.Json.Exchange
import MetadataAgent.OAuth2

/-! # The token request

`ComputeTokenFromCredentials` posts an assertion of three parts to the token service: a header, a
set of claims and a signature over the first two, each in base64url and with a period between two
of them. The service cuts it at the periods and finds the account, the scope, the audience and the
hour for which the token is asked. -/
namespace MetadataAgent.OAuth2
open Lib Json
set_option autoImplicit false

/-! ## The assertion -/

/-- `kDefaultTokenEndpoint`. -/
def tokenEndpoint : Bytes := lit "https://www.googleapis.com/oauth2/v3/token"

/-- `time::SecondsSinceEpoch`, which cuts towards zero. The seconds that 64 bits of nanoseconds make
up are a `double`. -/
def secondsSinceEpoch (t : Timestamp) : ℤ := t.tdiv 1000000000

def jwtObject : Value :=
  object [(lit "alg", some (.string (lit "RS256"))), (lit "typ", some (.string (lit "JWT")))]

def claimSetObject (serviceAccountEmail : Bytes) (now : Timestamp) : Value :=
  let exp := now + 3600 * 1000000000
  object [
    (lit "iss", some (.string serviceAccountEmail)),
    (lit "scope", some (.string (lit "https://www.googleapis.com/auth/monitoring"))),
    (lit "aud", some (.string tokenEndpoint)),
    (lit "iat", some (.number (.finite (secondsSinceEpoch now)))),
    (lit "exp", some (.number (.finite (secondsSinceEpoch exp))))]

structure TokenRequest where
  endpoint : Bytes
  headers : List (Bytes × Bytes)
  body : Bytes
  deriving DecidableEq

/-- The code outside: the signature with a private key, which is empty if there is none, the
encoding of a fragment, and what a post comes to. -/
structure TokenService where
  sign : Bytes → Bytes → Bytes
  encodeFragment : Bytes → Bytes
  post : TokenRequest → EnvironmentCache.MetadataReply

section Request
variable (toString : Value → Bytes) (service : TokenService)
variable (serviceAccountEmail privateKeyPem : Bytes) (now : Timestamp)

/-- What is signed. -/
def signingInput : Bytes :=
  Base64.encode (toString jwtObject) ++ lit "." ++
    Base64.encode (toString (claimSetObject serviceAccountEmail now))

def assertion : Bytes :=
  signingInput toString serviceAccountEmail now ++ lit "." ++
    Base64.encode (service.sign privateKeyPem (signingInput toString serviceAccountEmail now))

def grantType : Bytes :=
  service.encodeFragment (lit "urn:ietf:params:oauth:grant-type:jwt-bearer")

def tokenRequest : TokenRequest :=
  let requestBody := lit "grant_type=" ++ grantType service ++ lit "&assertion=" ++
    assertion toString service serviceAccountEmail privateKeyPem now
  { endpoint := tokenEndpoint
    headers := [
      (lit "Content-Length", decimal requestBody.length),
      (lit "Content-Type", lit "application/x-www-form-urlencoded")]
    body := requestBody }

/-- The requests that are posted and the token; both exceptions that can come are logged. -/
def computeTokenFromCredentials (y : Yajl) : List TokenRequest × Option Value :=
  if privateKeyPem.isEmpty || serviceAccountEmail.isEmpty then ([], none)
  else
    let request := tokenRequest toString service serviceAccountEmail privateKeyPem now
    match (service.post request).read with
    | .error _ => ([request], none)
    | .ok body =>
      match fromString y body with
      | .error _ => ([request], none)
      | .ok parsedToken => ([request], parsedToken)

end Request

/-! ## The service -/

/-- What the token service makes of an assertion. -/
structure ReadAssertion where
  header : Value
  claims : Value
  signed : Bytes
  signature : Bytes

def readAssertion (y : Yajl) (assertion : Bytes) : Option ReadAssertion :=
  match assertion.splitOn 0x2e with
  | [header, claims, signature] => do
    let headerText ← Base64.decode header
    let claimText ← Base64.decode claims
    let signatureBytes ← Base64.decode signature
    let headerValue ← (fromString y headerText).toOption.join
    let claimValue ← (fromString y claimText).toOption.join
    return ⟨headerValue, claimValue, header ++ lit "." ++ claims, signatureBytes⟩
  | _ => none

theorem encode_alphabet (s : Bytes) : ∀ c ∈ Base64.encode s, c ∈ Base64.base64urlChars := by
  obtain ⟨digits, p, hencode, hdigits, -, -⟩ := Base64.encode_regrouped s
  rw [hencode]
  intro c hc
  obtain ⟨i, hi, rfl⟩ := List.mem_map.mp hc
  exact Base64.base64urlChar_mem (hdigits i hi)

theorem decode_encode (s : Bytes) : Base64.decode (Base64.encode s) = some s := by
  obtain ⟨digits, p, hencode, hdigits, hp, hregrouped⟩ := Base64.encode_regrouped s
  obtain ⟨out, m, r, hdecode, hm, hback⟩ := Base64.decode_regrouped digits hdigits
  have hbyte : ∀ bytes : Bytes, ∀ n ∈ bytes.map UInt8.toNat, n < 2 ^ 8 := by
    intro bytes n hn
    obtain ⟨c, _, rfl⟩ := List.mem_map.mp hn
    exact c.toNat_lt
  have hsame := (hback.unique (by omega) (hbyte out) (hbyte s) hm (by omega) hregrouped).1
  have hout : out = s := List.map_injective_iff.mpr (fun _ _ => UInt8.toNat_inj.mp) hsame
  rw [hencode, hdecode, hout]

theorem point_notMem_encode (s : Bytes) : 0x2e ∉ Base64.encode s := by
  intro h
  have hmem := encode_alphabet s 0x2e h
  revert hmem
  decide +kernel

theorem splitOn_assertion (header claims signature : Bytes) :
    (Base64.encode header ++ lit "." ++ Base64.encode claims ++ lit "." ++
      Base64.encode signature).splitOn 0x2e =
      [Base64.encode header, Base64.encode claims, Base64.encode signature] := by
  have hpoint : lit "." = [0x2e] := rfl
  have hjoined : Base64.encode header ++ lit "." ++ Base64.encode claims ++ lit "." ++
      Base64.encode signature = [0x2e].intercalate
        [Base64.encode header, Base64.encode claims, Base64.encode signature] := by
    rw [List.intercalate_cons_cons, List.intercalate_cons_cons, List.intercalate_singleton, hpoint]
    simp only [List.append_assoc]
  rw [hjoined]
  refine List.splitOn_intercalate 0x2e ?_ (List.cons_ne_nil _ _)
  intro part hpart
  simp only [List.mem_cons, List.not_mem_nil, or_false] at hpart
  rcases hpart with rfl | rfl | rfl
  · exact point_notMem_encode header
  · exact point_notMem_encode claims
  · exact point_notMem_encode signature

/-! ## What the service reads -/

/-- The claims of a second, for the hour that begins with it. -/
def claimsOf (serviceAccountEmail : Bytes) (iat : ℤ) : Object := [
  (lit "aud", .string tokenEndpoint),
  (lit "exp", .number (.finite (iat + 3600 : ℤ))),
  (lit "iat", .number (.finite iat)),
  (lit "iss", .string serviceAccountEmail),
  (lit "scope", .string (lit "https://www.googleapis.com/auth/monitoring"))]

theorem secondsSinceEpoch_spec {t : ℤ} (ht : 0 ≤ t) :
    secondsSinceEpoch t * 1000000000 ≤ t ∧ t < (secondsSinceEpoch t + 1) * 1000000000 := by
  rw [secondsSinceEpoch, Int.tdiv_eq_ediv_of_nonneg ht]
  omega

theorem claimSetObject_eq (serviceAccountEmail : Bytes) {now : ℤ} (hnow : 0 ≤ now) :
    claimSetObject serviceAccountEmail now =
      .object (claimsOf serviceAccountEmail (secondsSinceEpoch now)) := by
  have hexp : secondsSinceEpoch (now + 3600 * 1000000000) = secondsSinceEpoch now + 3600 := by
    have hlater : 0 ≤ now + 3600 * 1000000000 := by omega
    rw [secondsSinceEpoch, secondsSinceEpoch, Int.tdiv_eq_ediv_of_nonneg hlater,
      Int.tdiv_eq_ediv_of_nonneg hnow]
    omega
  rw [claimsOf, ← hexp]
  rfl

theorem ordered_claims (serviceAccountEmail : Bytes) (iat : ℤ) :
    (Value.object (claimsOf serviceAccountEmail iat)).Ordered := by
  have hnames : [lit "aud", lit "exp", lit "iat", lit "iss", lit "scope"].Pairwise
      fun a b => a < b := by decide
  rw [Value.Ordered, orderedFields_iff]
  refine ⟨List.pairwise_map.mp hnames, fun f hf => ?_⟩
  simp only [claimsOf, List.mem_cons, List.not_mem_nil, or_false] at hf
  rcases hf with rfl | rfl | rfl | rfl | rfl <;> trivial

theorem encodable_claims {toDouble : LongDouble → LongDouble} {serviceAccountEmail : Bytes}
    (hemail : validateUtf8 serviceAccountEmail = true) {iat : ℤ} (hiat : 0 ≤ iat)
    (hlate : iat + 3600 ≤ 2 ^ 63 - 1) :
    Encodable validateUtf8 toDouble (.object (claimsOf serviceAccountEmail iat)) := by
  have hnames : ∀ name ∈ [lit "aud", lit "exp", lit "iat", lit "iss", lit "scope"],
      validateUtf8 name = true := by decide +kernel
  have htexts : validateUtf8 tokenEndpoint = true ∧
      validateUtf8 (lit "https://www.googleapis.com/auth/monitoring") = true := by decide +kernel
  refine encodable_of_at (encodableAt_object (by decide) fun f hf => ⟨?_, ?_⟩)
  · exact hnames f.1 (List.mem_map_of_mem hf)
  · simp only [claimsOf, List.mem_cons, List.not_mem_nil, or_false] at hf
    rcases hf with rfl | rfl | rfl | rfl | rfl
    · exact encodableAt_string htexts.1 (by decide)
    · exact encodableAt_integer ⟨by omega, by omega⟩ (by decide)
    · exact encodableAt_integer ⟨by omega, by omega⟩ (by decide)
    · exact encodableAt_string hemail (by decide)
    · exact encodableAt_string htexts.2 (by decide)

theorem jwtObject_eq : jwtObject = .object [
    (lit "alg", .string (lit "RS256")), (lit "typ", .string (lit "JWT"))] := rfl

theorem ordered_jwtObject : jwtObject.Ordered := by
  rw [jwtObject_eq, Value.Ordered, OrderedFields, OrderedFields, OrderedFields]
  exact ⟨List.pairwise_pair.mpr (by decide : lit "alg" < lit "typ"), trivial, trivial, trivial⟩

theorem encodable_jwtObject (toDouble : LongDouble → LongDouble) :
    Encodable validateUtf8 toDouble jwtObject := by
  refine ⟨by decide +kernel, fun x hx => ?_, by decide +kernel⟩
  have hnone : jwtObject.numbers = [] := rfl
  rw [hnone] at hx
  exact absurd hx List.not_mem_nil

section Service
variable {g : YajlGen} {formatDouble : LongDouble → Bytes} {toDouble : LongDouble → LongDouble}
  {y : Yajl} {Between InsideMap Failed : y.State → Prop}

theorem readAssertion_assertion (hg : g.Documented validateUtf8)
    (hy : y.Documented Between InsideMap Failed) (hfinish : y.Finishes Between)
    (hreads : ReadsTexts y validateUtf8 formatDouble toDouble) (service : TokenService)
    {serviceAccountEmail : Bytes} (privateKeyPem : Bytes) {now : ℤ}
    (hemail : validateUtf8 serviceAccountEmail = true) (hnow : 0 ≤ now)
    (hlate : now + 3600 * 1000000000 < 2 ^ 63) :
    let toString := Value.bytes g formatDouble toDouble
    let signed := signingInput toString serviceAccountEmail now
    readAssertion y (assertion toString service serviceAccountEmail privateKeyPem now) =
      some ⟨jwtObject, .object (claimsOf serviceAccountEmail (secondsSinceEpoch now)), signed,
        service.sign privateKeyPem signed⟩ := by
  intro toString signed
  obtain ⟨hle, hlt⟩ := secondsSinceEpoch_spec hnow
  have hheader : fromString y (toString jwtObject) = .ok (some jwtObject) :=
    fromString_bytes hg hy hfinish hreads ordered_jwtObject (encodable_jwtObject toDouble)
  have hclaims : fromString y (toString (claimSetObject serviceAccountEmail now)) =
      .ok (some (.object (claimsOf serviceAccountEmail (secondsSinceEpoch now)))) := by
    rw [claimSetObject_eq serviceAccountEmail hnow]
    exact fromString_bytes hg hy hfinish hreads (ordered_claims _ _)
      (encodable_claims hemail (by omega) (by omega))
  rw [readAssertion, assertion, signingInput, splitOn_assertion]
  simp only [decode_encode, Option.bind_eq_bind, Option.bind_some]
  rw [hheader, hclaims]
  rfl

/-- A request is posted exactly if there are an account and a key. Its assertion is read as the
header, the claims of the present second, and the signature over both with the key. -/
theorem token_request_read (hg : g.Documented validateUtf8)
    (hy : y.Documented Between InsideMap Failed) (hfinish : y.Finishes Between)
    (hreads : ReadsTexts y validateUtf8 formatDouble toDouble) (service : TokenService)
    (serviceAccountEmail privateKeyPem : Bytes) (now : ℤ)
    (hemail : validateUtf8 serviceAccountEmail = true) (hnow : 0 ≤ now)
    (hlate : now + 3600 * 1000000000 < 2 ^ 63) :
    let posted := (computeTokenFromCredentials (Value.bytes g formatDouble toDouble) service
      serviceAccountEmail privateKeyPem now y).1
    (posted.length = if privateKeyPem = [] ∨ serviceAccountEmail = [] then 0 else 1) ∧
    ∀ request ∈ posted, ∃ (assertion signed : Bytes) (iat : ℤ),
      request.body = lit "grant_type=" ++ grantType service ++ lit "&assertion=" ++ assertion ∧
      readAssertion y assertion = some ⟨jwtObject, .object (claimsOf serviceAccountEmail iat),
        signed, service.sign privateKeyPem signed⟩ ∧
      signed ++ lit "." <+: assertion ∧ iat * 1000000000 ≤ now ∧ now < (iat + 1) * 1000000000 := by
  intro posted
  by_cases hnone : privateKeyPem = [] ∨ serviceAccountEmail = []
  · have hposted : posted = [] := by
      simp only [posted]
      rw [computeTokenFromCredentials, if_pos]
      simpa using hnone
    rw [if_pos hnone, hposted]
    exact ⟨rfl, fun request hrequest => absurd hrequest List.not_mem_nil⟩
  · have hposted : posted = [tokenRequest (Value.bytes g formatDouble toDouble) service
        serviceAccountEmail privateKeyPem now] := by
      simp only [posted]
      rw [computeTokenFromCredentials, if_neg (by simpa using hnone)]
      simp only
      split
      · rfl
      · split <;> rfl
    rw [if_neg hnone, hposted]
    refine ⟨rfl, fun request hrequest => ?_⟩
    rw [List.mem_singleton.mp hrequest]
    exact ⟨_, _, _, rfl, readAssertion_assertion hg hy hfinish hreads service privateKeyPem hemail
      hnow hlate, List.prefix_append _ _, secondsSinceEpoch_spec hnow⟩

end Service

/-- A service that cannot be reached; a signature is the beginning of the key and the data. -/
def farService : TokenService where
  sign key data := (key ++ data).take 8
  encodeFragment s := s.flatMap fun c => if c = 0x3a then lit "%3A" else [c]
  post _ := .failure ⟨lit "Connection refused"⟩

theorem token_request_read_once :
    ∃ request assertion signed,
      (computeTokenFromCredentials (Value.bytes (yajlGen validateUtf8) formatHalf toHalf) farService
        (lit "a@p.iam") (lit "key") 1500000000000000007
          (textParser fun _ => some (.finite (3 / 2)))).1 = [request] ∧
      request.body = lit "grant_type=" ++ grantType farService ++ lit "&assertion=" ++ assertion ∧
      readAssertion (textParser fun _ => some (.finite (3 / 2))) assertion =
        some ⟨jwtObject, .object (claimsOf (lit "a@p.iam") 1500000000), signed,
          farService.sign (lit "key") signed⟩ := by
  obtain ⟨hlength, hread⟩ := token_request_read (yajlGen_documented validateUtf8)
    (textParser_documented _) (textParser_finishes _) readsTexts_textParser farService
    (lit "a@p.iam") (lit "key") 1500000000000000007 (by decide +kernel) (by decide) (by decide)
  rw [if_neg (by decide), List.length_eq_one_iff] at hlength
  obtain ⟨request, hposted⟩ := hlength
  obtain ⟨assertion, signed, iat, hbody, hassertion, -, hle, hlt⟩ :=
    hread request (by rw [hposted]; exact List.mem_singleton.mpr rfl)
  have hiat : iat = 1500000000 := by omega
  subst hiat
  exact ⟨request, assertion, signed, hposted, hbody, hassertion⟩

end MetadataAgent.OAuth2
