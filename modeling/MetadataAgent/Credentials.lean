import MetadataAgent.ApiServer
import MetadataAgent.Json.Pushdown

/-! # Application default credentials

`Environment` reads the credentials file once and takes its fields one after the other. An accessor
that throws ends the reading, and the fields that were taken before it stay. -/
namespace MetadataAgent.Credentials
open Lib Json
open MetadataApiServer (stringFind)
set_option autoImplicit false

/-! ## Reading the file -/

/-- What `ReadCredentials` throws. -/
inductive ReadError where
  | json (e : Exception)
  | noCredentials (filename : Bytes)

/-- What the environment reads: the options, the variable `GOOGLE_APPLICATION_CREDENTIALS`, the
files that can be opened, and the metadata server. -/
structure Sources where
  projectId : Bytes
  credentialsFile : Bytes
  credentialsVariable : Option Bytes
  file : Bytes → Option Bytes
  metadataString : Bytes → Bytes

def Sources.filename (sources : Sources) : Bytes :=
  if sources.credentialsFile.isEmpty then
    sources.credentialsVariable.getD (lit "/etc/google/auth/application_default_credentials.json")
  else sources.credentialsFile

def readCredentials (y : Yajl) (sources : Sources) : Except ReadError Value :=
  match sources.file sources.filename with
  | none => .error (.noCredentials sources.filename)
  | some content =>
    match fromString y content with
    | .error e => .error (.json e)
    | .ok none =>
      .error (.json (.text (lit "Could not parse credentials from " ++ sources.filename)))
    | .ok (some credsJson) => .ok credsJson

/-- The members of `Environment` that hold what was read. -/
structure Cache where
  projectId : Bytes
  clientEmail : Bytes
  privateKey : Bytes
  credentialsProjectId : Bytes
  applicationDefaultCredentialsRead : Bool
  deriving DecidableEq

/-- What the constructor leaves. -/
def Cache.init : Cache := ⟨[], [], [], [], false⟩

/-- The assignments of `ReadApplicationDefaultCredentials`; the accessors before them may throw. -/
def takeFields (cache : Cache) (creds : Object) : Cache × Except Exception Unit :=
  match getString creds (lit "client_email") with
  | .error e => (cache, .error e)
  | .ok clientEmail =>
    let cache := { cache with clientEmail := clientEmail }
    match getString creds (lit "private_key") with
    | .error e => (cache, .error e)
    | .ok privateKey =>
      let cache := { cache with privateKey := privateKey }
      if has creds (lit "project_id") then
        match getString creds (lit "project_id") with
        | .error e => (cache, .error e)
        | .ok projectId => ({ cache with credentialsProjectId := projectId }, .ok ())
      else (cache, .ok ())

/-- The body of the `try`. -/
def takeCredentials (y : Yajl) (sources : Sources) (cache : Cache) :
    Cache × Except ReadError Unit :=
  match readCredentials y sources with
  | .error e => (cache, .error e)
  | .ok credsJson =>
    match asObject credsJson with
    | .error e => (cache, .error (.json e))
    | .ok creds => ((takeFields cache creds).1, (takeFields cache creds).2.mapError .json)

def readApplicationDefaultCredentials (y : Yajl) (sources : Sources) (cache : Cache) : Cache :=
  if cache.applicationDefaultCredentialsRead then cache
  else { (takeCredentials y sources cache).1 with applicationDefaultCredentialsRead := true }

/-! ## The project id -/

/-- A `std::string::size_type` difference. -/
def sizeSub (a b : ℕ) : ℕ := (a + 2 ^ 64 - b) % 2 ^ 64

/-- The project in a new-style email, empty if there is none. -/
def projectOfEmail (clientEmail : Bytes) : Bytes :=
  match stringFind clientEmail (lit ".iam.gserviceaccount.com") with
  | none => []
  | some newStyle =>
    match stringFind clientEmail (lit "@") with
    | none => []
    | some at_ => (clientEmail.drop (at_ + 1)).take (sizeSub newStyle (at_ + 1))

/-- `Environment::ProjectId`. -/
def projectId (y : Yajl) (sources : Sources) (cache : Cache) : Cache × Bytes :=
  if cache.projectId.isEmpty then
    if sources.projectId.isEmpty then
      let cache := readApplicationDefaultCredentials y sources cache
      let found :=
        if cache.credentialsProjectId.isEmpty then
          if cache.clientEmail.isEmpty then [] else projectOfEmail cache.clientEmail
        else cache.credentialsProjectId
      let found := if found.isEmpty then sources.metadataString (lit "project/project-id") else found
      ({ cache with projectId := found }, found)
    else ({ cache with projectId := sources.projectId }, sources.projectId)
  else (cache, cache.projectId)

theorem read_once (y : Yajl) (sources : Sources) (cache : Cache) :
    readApplicationDefaultCredentials y sources
        (readApplicationDefaultCredentials y sources cache) =
      readApplicationDefaultCredentials y sources cache := by
  have hread : (readApplicationDefaultCredentials y sources
      cache).applicationDefaultCredentialsRead = true := by
    unfold readApplicationDefaultCredentials
    split
    · assumption
    · rfl
  rw [readApplicationDefaultCredentials, if_pos hread]

/-! ## All or nothing -/

/-- A field, if it is there and a string. -/
def stringField (creds : Object) (field : Bytes) : Option Bytes :=
  (lookup field creds).bind Value.asString?

/-- The three members hold the fields of the file; the project id may be missing there. -/
structure FromFile (creds : Object) (cache : Cache) : Prop where
  clientEmail : stringField creds (lit "client_email") = some cache.clientEmail
  privateKey : stringField creds (lit "private_key") = some cache.privateKey
  projectId : has creds (lit "project_id") = true →
    stringField creds (lit "project_id") = some cache.credentialsProjectId
  noProjectId : has creds (lit "project_id") = false → cache.credentialsProjectId = []

/-- Nothing was taken. -/
structure Untouched (cache : Cache) : Prop where
  clientEmail : cache.clientEmail = []
  privateKey : cache.privateKey = []
  projectId : cache.credentialsProjectId = []

/-- The project id when there are no credentials. -/
def Sources.ownProjectId (sources : Sources) : Bytes :=
  if sources.projectId.isEmpty then sources.metadataString (lit "project/project-id")
  else sources.projectId

/-- The credentials are taken as a whole or not at all, and the project id does not depend on
credentials that were rejected. -/
structure AllOrNothing (y : Yajl) (sources : Sources) : Prop where
  fields :
    (∃ creds, readCredentials y sources = .ok (.object creds) ∧
      FromFile creds (readApplicationDefaultCredentials y sources .init)) ∨
    Untouched (readApplicationDefaultCredentials y sources .init)
  projectId : ∀ e, (takeCredentials y sources .init).2 = .error e →
    (projectId y sources (readApplicationDefaultCredentials y sources .init)).2 =
      sources.ownProjectId

/-- What was taken before an accessor throws is empty. -/
def NothingLeftBehind (creds : Object) : Prop :=
  ∀ email, stringField creds (lit "client_email") = some email →
    (stringField creds (lit "private_key") = none → email = []) ∧
    ∀ key, stringField creds (lit "private_key") = some key →
      has creds (lit "project_id") = true → stringField creds (lit "project_id") = none →
        email = [] ∧ key = []

theorem getString_of_some {creds : Object} {field s : Bytes}
    (h : stringField creds field = some s) : getString creds field = .ok s :=
  get_eq_ok.mpr h

theorem getString_of_none {creds : Object} {field : Bytes} (h : stringField creds field = none) :
    ∃ e, getString creds field = .error e := by
  cases hget : getString creds field with
  | error e => exact ⟨e, rfl⟩
  | ok s =>
    have hsome : stringField creds field = some s := get_eq_ok.mp hget
    rw [h] at hsome
    cases hsome

/-- How far the assignments go. -/
inductive Taken (creds : Object) : Cache → Bool → Prop
  | noEmail (h : stringField creds (lit "client_email") = none) : Taken creds .init false
  | noKey {email : Bytes} (h : stringField creds (lit "client_email") = some email)
      (hkey : stringField creds (lit "private_key") = none) :
      Taken creds ⟨[], email, [], [], false⟩ false
  | noProject {email key : Bytes} (h : stringField creds (lit "client_email") = some email)
      (hkey : stringField creds (lit "private_key") = some key)
      (hhas : has creds (lit "project_id") = true)
      (hproject : stringField creds (lit "project_id") = none) :
      Taken creds ⟨[], email, key, [], false⟩ false
  | withoutProject {email key : Bytes} (h : stringField creds (lit "client_email") = some email)
      (hkey : stringField creds (lit "private_key") = some key)
      (hhas : has creds (lit "project_id") = false) :
      Taken creds ⟨[], email, key, [], false⟩ true
  | all {email key project : Bytes} (h : stringField creds (lit "client_email") = some email)
      (hkey : stringField creds (lit "private_key") = some key)
      (hhas : has creds (lit "project_id") = true)
      (hproject : stringField creds (lit "project_id") = some project) :
      Taken creds ⟨[], email, key, project, false⟩ true

theorem takeFields_taken (creds : Object) :
    Taken creds (takeFields .init creds).1 (takeFields .init creds).2.toBool := by
  cases hemail : stringField creds (lit "client_email") with
  | none =>
    obtain ⟨e, he⟩ := getString_of_none hemail
    rw [takeFields, he]
    exact .noEmail hemail
  | some email =>
    rw [takeFields, getString_of_some hemail]
    cases hkey : stringField creds (lit "private_key") with
    | none =>
      obtain ⟨e, he⟩ := getString_of_none hkey
      rw [he]
      exact .noKey hemail hkey
    | some key =>
      simp only [getString_of_some hkey]
      cases hhas : has creds (lit "project_id") with
      | false => exact .withoutProject hemail hkey hhas
      | true =>
        cases hproject : stringField creds (lit "project_id") with
        | none =>
          obtain ⟨e, he⟩ := getString_of_none hproject
          simp only [he, if_true]
          exact .noProject hemail hkey hhas hproject
        | some project =>
          simp only [getString_of_some hproject, if_true]
          exact .all hemail hkey hhas hproject

theorem Taken.fromFile {creds : Object} {cache : Cache} (h : Taken creds cache true) :
    FromFile creds { cache with applicationDefaultCredentialsRead := true } := by
  cases h with
  | withoutProject hemail hkey hhas =>
    refine ⟨hemail, hkey, fun hproject => ?_, fun _ => rfl⟩
    rw [hhas] at hproject
    cases hproject
  | all hemail hkey hhas hproject =>
    refine ⟨hemail, hkey, fun _ => hproject, fun hnone => ?_⟩
    rw [hhas] at hnone
    cases hnone

theorem Taken.not_fromFile {creds : Object} {cache : Cache} (h : Taken creds cache false) :
    ¬ FromFile creds { cache with applicationDefaultCredentialsRead := true } := by
  intro hfile
  cases h with
  | noEmail hemail =>
    have hsome := hfile.clientEmail
    rw [hemail] at hsome
    cases hsome
  | noKey hemail hkey =>
    have hsome := hfile.privateKey
    rw [hkey] at hsome
    cases hsome
  | noProject hemail hkey hhas hproject =>
    have hsome := hfile.projectId hhas
    rw [hproject] at hsome
    cases hsome

theorem Taken.nothingLeftBehind_iff {creds : Object} {cache : Cache} {complete : Bool}
    (h : Taken creds cache complete) :
    NothingLeftBehind creds ↔ (complete = false → Untouched cache) := by
  unfold NothingLeftBehind
  cases h with
  | noEmail hemail =>
    have huntouched : Untouched .init := ⟨rfl, rfl, rfl⟩
    simp [hemail, huntouched]
  | @noKey email hemail hkey =>
    have huntouched : Untouched ⟨[], email, [], [], false⟩ ↔ email = [] :=
      ⟨fun hu => hu.clientEmail, fun hempty => ⟨hempty, rfl, rfl⟩⟩
    simp [hemail, hkey, huntouched]
  | @noProject email key hemail hkey hhas hproject =>
    have huntouched : Untouched ⟨[], email, key, [], false⟩ ↔ email = [] ∧ key = [] :=
      ⟨fun hu => ⟨hu.clientEmail, hu.privateKey⟩, fun hempty => ⟨hempty.1, hempty.2, rfl⟩⟩
    simp [hemail, hkey, hhas, hproject, huntouched]
  | withoutProject hemail hkey hhas => simp [hemail, hkey, hhas]
  | all hemail hkey hhas hproject => simp [hemail, hkey, hhas, hproject]

section AllOrNothing
variable {y : Yajl} {sources : Sources}

theorem projectId_of_untouched {cache : Cache}
    (hread : cache.applicationDefaultCredentialsRead = true) (hid : cache.projectId = [])
    (h : Untouched cache) :
    (projectId y sources cache).2 = sources.ownProjectId := by
  have hcache : readApplicationDefaultCredentials y sources cache = cache := by
    rw [readApplicationDefaultCredentials, if_pos hread]
  rw [projectId, hcache, Sources.ownProjectId]
  simp only [hid, h.projectId, h.clientEmail, List.isEmpty_nil, if_true]
  cases sources.projectId.isEmpty with
  | true => rfl
  | false => rfl

theorem allOrNothing_of_noObject (h : ∀ creds, readCredentials y sources ≠ .ok (.object creds)) :
    AllOrNothing y sources := by
  have htaken : (takeCredentials y sources .init).1 = .init := by
    unfold takeCredentials
    cases hread : readCredentials y sources with
    | error e => rfl
    | ok credsJson =>
      cases hobject : asObject credsJson with
      | error e => simp only [hobject]
      | ok creds =>
        rw [asObject_eq_ok] at hobject
        exact absurd (hread.trans (congrArg Except.ok hobject)) (h creds)
  have hcache : readApplicationDefaultCredentials y sources .init = ⟨[], [], [], [], true⟩ := by
    rw [readApplicationDefaultCredentials, htaken]
    rfl
  have huntouched : Untouched ⟨[], [], [], [], true⟩ := ⟨rfl, rfl, rfl⟩
  refine ⟨Or.inr ?_, fun e _ => ?_⟩
  · rw [hcache]
    exact huntouched
  · rw [hcache]
    exact projectId_of_untouched rfl rfl huntouched

theorem taken_of_object {creds : Object} (h : readCredentials y sources = .ok (.object creds)) :
    ∃ cache complete, Taken creds cache complete ∧ cache.projectId = [] ∧
      readApplicationDefaultCredentials y sources .init =
        { cache with applicationDefaultCredentialsRead := true } ∧
      ((∃ e, (takeCredentials y sources .init).2 = .error e) ↔ complete = false) := by
  have htake : takeCredentials y sources .init =
      ((takeFields .init creds).1, (takeFields .init creds).2.mapError .json) := by
    rw [takeCredentials, h]
    rfl
  have htaken := takeFields_taken creds
  refine ⟨_, _, htaken, ?_, ?_, ?_⟩
  · generalize (takeFields .init creds).2.toBool = complete at htaken
    generalize (takeFields .init creds).1 = cache at htaken
    cases htaken <;> rfl
  · rw [readApplicationDefaultCredentials, htake]
    rfl
  · rw [htake]
    cases (takeFields .init creds).2 with
    | error e => simp [Except.mapError, Except.toBool]
    | ok u => simp [Except.mapError, Except.toBool]

theorem allOrNothing_of_object {creds : Object}
    (h : readCredentials y sources = .ok (.object creds)) :
    AllOrNothing y sources ↔ NothingLeftBehind creds := by
  obtain ⟨cache, complete, htaken, hid, hcache, herror⟩ := taken_of_object h
  rw [htaken.nothingLeftBehind_iff]
  constructor
  · rintro ⟨hfields, _⟩ hrejected
    rw [hcache] at hfields
    rcases hfields with ⟨creds', hcreds', hfile⟩ | ⟨hemail, hkey, hproject⟩
    · rw [h, Except.ok.injEq, Value.object.injEq] at hcreds'
      rw [hrejected] at htaken
      exact absurd (hcreds' ▸ hfile) htaken.not_fromFile
    · exact ⟨hemail, hkey, hproject⟩
  · intro huntouched
    have hkept : complete = false →
        Untouched { cache with applicationDefaultCredentialsRead := true } := by
      intro hrejected
      exact ⟨(huntouched hrejected).1, (huntouched hrejected).2, (huntouched hrejected).3⟩
    constructor
    · rw [hcache]
      cases complete with
      | true => exact Or.inl ⟨creds, h, htaken.fromFile⟩
      | false => exact Or.inr (hkept rfl)
    · intro e he
      rw [hcache]
      exact projectId_of_untouched rfl hid (hkept (herror.mp ⟨e, he⟩))

/-- Credentials are all or nothing exactly when no accessor throws after a nonempty field was
taken. -/
theorem credentials_all_or_nothing_iff (y : Yajl) (sources : Sources) :
    AllOrNothing y sources ↔
      ∀ creds, readCredentials y sources = .ok (.object creds) → NothingLeftBehind creds := by
  by_cases hobject : ∃ creds, readCredentials y sources = .ok (.object creds)
  · obtain ⟨creds, hcreds⟩ := hobject
    rw [allOrNothing_of_object hcreds]
    constructor
    · intro h creds' hcreds'
      rw [hcreds, Except.ok.injEq, Value.object.injEq] at hcreds'
      exact hcreds' ▸ h
    · intro h
      exact h creds hcreds
  · constructor
    · intro _ creds hcreds
      exact absurd ⟨creds, hcreds⟩ hobject
    · intro _
      exact allOrNothing_of_noObject fun creds hcreds => hobject ⟨creds, hcreds⟩

end AllOrNothing

/-! ## An email without a key -/

/-- A credentials file of a service account, without the private key. -/
def emailOnly : Bytes :=
  0x7b :: lit "\"client_email\":\"agent@my-project.iam.gserviceaccount.com\"" ++ [0x7d]

def emailOnlySources : Sources where
  projectId := []
  credentialsFile := lit "/creds.json"
  credentialsVariable := none
  file filename := if filename = lit "/creds.json" then some emailOnly else none
  metadataString _ := lit "real-project"

theorem readCredentials_emailOnly : readCredentials pushdown emailOnlySources = .ok (.object
    [(lit "client_email", .string (lit "agent@my-project.iam.gserviceaccount.com"))]) := by
  have hblocks : readBlocks emailOnly = [emailOnly] := by
    rw [readBlocks, if_pos (by decide)]
  have hfile : emailOnlySources.file emailOnlySources.filename = some emailOnly := by
    decide +kernel
  unfold readCredentials fromString allFromString parseStream
  rw [hfile]
  simp only [hblocks]
  rfl

theorem project_of_rejected_email :
    (takeCredentials pushdown emailOnlySources .init).2.toBool = false ∧
      (projectId pushdown emailOnlySources .init).2 = lit "my-project" ∧
      ¬ AllOrNothing pushdown emailOnlySources := by
  have htake : (takeCredentials pushdown emailOnlySources .init).1 =
      ⟨[], lit "agent@my-project.iam.gserviceaccount.com", [], [], false⟩ := by
    rw [takeCredentials, readCredentials_emailOnly]
    decide +kernel
  have hcache : readApplicationDefaultCredentials pushdown emailOnlySources .init =
      ⟨[], lit "agent@my-project.iam.gserviceaccount.com", [], [], true⟩ := by
    rw [readApplicationDefaultCredentials, htake]
    rfl
  refine ⟨?_, ?_, ?_⟩
  · rw [takeCredentials, readCredentials_emailOnly]
    rfl
  · rw [projectId, hcache]
    decide +kernel
  · rintro ⟨⟨creds, hcreds, hfile⟩ | huntouched, _⟩
    · rw [readCredentials_emailOnly, Except.ok.injEq, Value.object.injEq] at hcreds
      have hkey := hfile.privateKey
      rw [← hcreds] at hkey
      cases hkey
    · have hemail := huntouched.clientEmail
      rw [hcache] at hemail
      cases hemail

end MetadataAgent.Credentials
