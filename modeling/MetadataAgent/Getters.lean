import MetadataAgent.Credentials
import MetadataAgent.Environment
import MetadataAgent.Http
import MetadataAgent.Lib.Memo
import MetadataAgent.Lib.Output
import Mathlib.Data.List.Induction

/-! # The getters of the environment

Every getter of `Environment` keeps what it has found. It looks for an option first and asks the
metadata server if there is none, again and again until the answer is not empty. The metadata
server and the files may answer otherwise from one call to the next; what a getter has returned
does not change any more once it is not empty. -/
namespace MetadataAgent.EnvironmentCache
open Lib Json
open MetadataApiServer (stringFind)
set_option autoImplicit false

/-! ## Sources -/

/-- What a request to the metadata server comes to. -/
inductive MetadataReply where
  | response (status : ℤ) (statusMessage body : Bytes)
  | failure (e : SystemError)

/-- The body of the `try` in `GetMetadataString`. -/
def MetadataReply.read : MetadataReply → Except SystemError Bytes
  | .response status statusMessage body =>
    if status < 300 then .ok body else .error ⟨serverResponded status statusMessage⟩
  | .failure e => .error e

/-- What a call of a getter finds outside. -/
structure World where
  credentialsVariable : Option Bytes
  file : Bytes → Option Bytes
  server : Bytes → MetadataReply

def getMetadataString (world : World) (path : Bytes) : Bytes :=
  match (world.server path).read with
  | .ok body => body
  | .error _ => []

structure Options where
  projectId : Bytes
  credentialsFile : Bytes
  instanceZone : Bytes
  instanceId : Bytes
  instanceResourceType : Bytes
  kubernetesClusterName : Bytes
  kubernetesClusterLocation : Bytes

def sources (options : Options) (world : World) : Credentials.Sources where
  projectId := options.projectId
  credentialsFile := options.credentialsFile
  credentialsVariable := world.credentialsVariable
  file := world.file
  metadataString := getMetadataString world

/-! ## Texts -/

/-- `std::string::rfind` of a character. -/
def stringRfind (s : Bytes) (b : UInt8) : Option ℕ :=
  (List.range s.length).reverse.find? fun i => decide (s[i]? = some b)

/-- The end of a zone, which the metadata server gives as a path. -/
def lastSegment (zone : Bytes) : Bytes :=
  match stringRfind zone 0x2f with
  | some slash => zone.drop (slash + 1)
  | none => zone

/-- The value in the first line of the kube-env that starts with the name of the zone. -/
def kubeEnvZone (kubeEnv : Bytes) : Bytes :=
  match (lines 0x0a kubeEnv).find? fun line => decide (stringFind line (lit "ZONE: ") = some 0) with
  | some line =>
    match stringFind line (lit ":") with
    | some colon => line.drop (colon + 2)
    | none => line.drop 1
  | none => []

/-! ## Getters -/

/-- The cached data. -/
structure Cached where
  credentials : Credentials.Cache
  zone : Bytes
  instanceId : Bytes
  instanceResourceType : Bytes
  kubernetesClusterName : Bytes
  kubernetesClusterLocation : Bytes

def Cached.init : Cached := ⟨.init, [], [], [], [], []⟩

/-- What a call returns, the paths it asked the metadata server for, and the files it opened. -/
structure Reply where
  value : Bytes
  requests : List Bytes
  opened : List Bytes
  deriving DecidableEq

inductive Getter where
  | projectId
  | instanceZone
  | instanceId
  | instanceResourceType
  | kubernetesClusterName
  | kubernetesClusterLocation
  | credentialsClientEmail
  | credentialsPrivateKey
  deriving DecidableEq

/-- A member that one getter fills. -/
structure Member where
  get : Cached → Bytes
  set : Cached → Bytes → Cached

/-- What a getter that finds its member empty takes: the option, or what it is told with the paths
that it asked for. -/
def taken (option : Bytes) (told : Bytes × List Bytes) : Bytes × List Bytes :=
  if option.isEmpty then told else (option, [])

/-- A getter with an empty member fills it from its option or with what it is told. -/
def lookUp (member : Member) (option : Bytes) (told : Bytes × List Bytes) (cached : Cached) :
    Cached × Reply :=
  if (member.get cached).isEmpty then
    let found := taken option told
    (member.set cached found.1, ⟨found.1, found.2, []⟩)
  else (cached, ⟨member.get cached, [], []⟩)

def zoneMember : Member := ⟨Cached.zone, fun cached zone => { cached with zone := zone }⟩

def idMember : Member :=
  ⟨Cached.instanceId, fun cached instanceId => { cached with instanceId := instanceId }⟩

def typeMember : Member :=
  ⟨Cached.instanceResourceType, fun cached type => { cached with instanceResourceType := type }⟩

def nameMember : Member :=
  ⟨Cached.kubernetesClusterName, fun cached name => { cached with kubernetesClusterName := name }⟩

def locationMember : Member :=
  ⟨Cached.kubernetesClusterLocation,
    fun cached location => { cached with kubernetesClusterLocation := location }⟩

section Getters
variable (y : Yajl) (options : Options) (world : World) (cached : Cached)

def toldZone : Bytes × List Bytes :=
  (lastSegment (getMetadataString world (lit "instance/zone")), [lit "instance/zone"])

def instanceZone : Cached × Reply :=
  lookUp zoneMember options.instanceZone (toldZone world) cached

def toldId : Bytes × List Bytes :=
  (getMetadataString world (lit "instance/id"), [lit "instance/id"])

def instanceId : Cached × Reply := lookUp idMember options.instanceId (toldId world) cached

def instanceResourceType : Cached × Reply :=
  lookUp typeMember options.instanceResourceType (lit "gce_instance", []) cached

def toldName : Bytes × List Bytes :=
  (getMetadataString world (lit "instance/attributes/cluster-name"),
    [lit "instance/attributes/cluster-name"])

def kubernetesClusterName : Cached × Reply :=
  lookUp nameMember options.kubernetesClusterName (toldName world) cached

/-- The attribute, or the zone in the kube-env of an older cluster. -/
def toldLocation : Bytes × List Bytes :=
  let location := getMetadataString world (lit "instance/attributes/cluster-location")
  if location.isEmpty then
    (kubeEnvZone (getMetadataString world (lit "instance/attributes/kube-env")),
      [lit "instance/attributes/cluster-location", lit "instance/attributes/kube-env"])
  else (location, [lit "instance/attributes/cluster-location"])

def kubernetesClusterLocation : Cached × Reply :=
  lookUp locationMember options.kubernetesClusterLocation (toldLocation world) cached

/-- The files that `ReadApplicationDefaultCredentials` opens. -/
def openedBy : List Bytes :=
  if cached.credentials.applicationDefaultCredentialsRead then []
  else [(sources options world).filename]

def withCredentials : Cached :=
  { cached with credentials :=
      Credentials.readApplicationDefaultCredentials y (sources options world) cached.credentials }

def credentialsClientEmail : Cached × Reply :=
  let read := withCredentials y options world cached
  (read, ⟨read.credentials.clientEmail, [], openedBy options world cached⟩)

def credentialsPrivateKey : Cached × Reply :=
  let read := withCredentials y options world cached
  (read, ⟨read.credentials.privateKey, [], openedBy options world cached⟩)

/-- What the credentials say about the project. -/
def projectInCredentials (credentials : Credentials.Cache) : Bytes :=
  if credentials.credentialsProjectId.isEmpty then
    if credentials.clientEmail.isEmpty then [] else Credentials.projectOfEmail credentials.clientEmail
  else credentials.credentialsProjectId

def projectId : Cached × Reply :=
  let (credentials, value) := Credentials.projectId y (sources options world) cached.credentials
  let searches := cached.credentials.projectId.isEmpty && options.projectId.isEmpty
  ({ cached with credentials := credentials }, {
    value := value
    requests := if searches && (projectInCredentials credentials).isEmpty then
      [lit "project/project-id"] else []
    opened := if searches then openedBy options world cached else [] })

end Getters

/-- A call of a getter, with what it finds outside. -/
def respond (y : Yajl) (options : Options) (cached : Cached) (call : Getter × World) :
    Cached × Reply :=
  match call.1 with
  | .projectId => projectId y options call.2 cached
  | .instanceZone => instanceZone options call.2 cached
  | .instanceId => instanceId options call.2 cached
  | .instanceResourceType => instanceResourceType options cached
  | .kubernetesClusterName => kubernetesClusterName options call.2 cached
  | .kubernetesClusterLocation => kubernetesClusterLocation options call.2 cached
  | .credentialsClientEmail => credentialsClientEmail y options call.2 cached
  | .credentialsPrivateKey => credentialsPrivateKey y options call.2 cached

/-! ## What is kept -/

def nonblank (value : Bytes) : Option Bytes := if value.isEmpty then none else some value

theorem nonblank_eq_some {value v : Bytes} : nonblank value = some v ↔ value = v ∧ v ≠ [] := by
  unfold nonblank
  cases value with
  | nil => simp
  | cons b value =>
    rw [List.isEmpty_cons, if_neg Bool.false_ne_true, Option.some.injEq]
    constructor
    · rintro rfl
      exact ⟨rfl, List.cons_ne_nil b value⟩
    · exact And.left

/-- What a getter returns without looking for it. -/
def recalled (cached : Cached) : Getter → Option Bytes
  | .projectId => nonblank cached.credentials.projectId
  | .instanceZone => nonblank cached.zone
  | .instanceId => nonblank cached.instanceId
  | .instanceResourceType => nonblank cached.instanceResourceType
  | .kubernetesClusterName => nonblank cached.kubernetesClusterName
  | .kubernetesClusterLocation => nonblank cached.kubernetesClusterLocation
  | .credentialsClientEmail =>
    if cached.credentials.applicationDefaultCredentialsRead then some cached.credentials.clientEmail
    else none
  | .credentialsPrivateKey =>
    if cached.credentials.applicationDefaultCredentialsRead then some cached.credentials.privateKey
    else none

/-- The getters of the credentials return what the file left, also if that is empty. -/
def Getter.readsFile : Getter → Bool
  | .credentialsClientEmail => true
  | .credentialsPrivateKey => true
  | _ => false

/-- A value that a getter does not look for again. -/
def Getter.Settles (getter : Getter) (value : Bytes) : Prop :=
  value ≠ [] ∨ getter.readsFile = true

/-- The member belongs to the getter and to no other. -/
structure Member.Owned (member : Member) (own : Getter) : Prop where
  memoized : own.readsFile = false
  get_set : ∀ cached value, member.get (member.set cached value) = value
  recalled_own : ∀ cached, recalled cached own = nonblank (member.get cached)
  recalled_set : ∀ cached value getter, getter ≠ own →
    recalled (member.set cached value) getter = recalled cached getter
  credentials_set : ∀ cached value, (member.set cached value).credentials = cached.credentials

theorem zoneMember_owned : zoneMember.Owned .instanceZone where
  memoized := rfl
  get_set _ _ := rfl
  recalled_own _ := rfl
  recalled_set _ _ getter h := by cases getter <;> first | rfl | exact absurd rfl h
  credentials_set _ _ := rfl

theorem idMember_owned : idMember.Owned .instanceId where
  memoized := rfl
  get_set _ _ := rfl
  recalled_own _ := rfl
  recalled_set _ _ getter h := by cases getter <;> first | rfl | exact absurd rfl h
  credentials_set _ _ := rfl

theorem typeMember_owned : typeMember.Owned .instanceResourceType where
  memoized := rfl
  get_set _ _ := rfl
  recalled_own _ := rfl
  recalled_set _ _ getter h := by cases getter <;> first | rfl | exact absurd rfl h
  credentials_set _ _ := rfl

theorem nameMember_owned : nameMember.Owned .kubernetesClusterName where
  memoized := rfl
  get_set _ _ := rfl
  recalled_own _ := rfl
  recalled_set _ _ getter h := by cases getter <;> first | rfl | exact absurd rfl h
  credentials_set _ _ := rfl

theorem locationMember_owned : locationMember.Owned .kubernetesClusterLocation where
  memoized := rfl
  get_set _ _ := rfl
  recalled_own _ := rfl
  recalled_set _ _ getter h := by cases getter <;> first | rfl | exact absurd rfl h
  credentials_set _ _ := rfl

/-- What every call of a getter does to what is kept: what the getter has is returned without a
request; what it returns is kept, if it is not empty; and what any getter has stays. -/
structure Keeps (own : Getter) (call : Cached → Cached × Reply) : Prop where
  hit : ∀ cached v, recalled cached own = some v → call cached = (cached, ⟨v, [], []⟩)
  give : ∀ cached, own.Settles (call cached).2.value →
    recalled (call cached).1 own = some (call cached).2.value
  keep : ∀ cached getter v, recalled cached getter = some v →
    recalled (call cached).1 getter = some v

theorem lookUp_keeps {member : Member} {own : Getter} (howned : member.Owned own) (option : Bytes)
    (told : Bytes × List Bytes) : Keeps own (lookUp member option told) where
  hit := by
    intro cached v h
    rw [howned.recalled_own, nonblank_eq_some] at h
    obtain ⟨rfl, hsome⟩ := h
    rw [lookUp, if_neg (by simpa using hsome)]
  give := by
    intro cached hsettles
    have hvalue : (lookUp member option told cached).2.value ≠ [] := by
      refine hsettles.resolve_right ?_
      rw [howned.memoized]
      exact Bool.false_ne_true
    rw [howned.recalled_own, nonblank_eq_some]
    refine ⟨?_, hvalue⟩
    unfold lookUp
    split
    · exact howned.get_set _ _
    · rfl
  keep := by
    intro cached getter v h
    rw [lookUp]
    split
    · rename_i hempty
      by_cases hown : getter = own
      · rw [hown, howned.recalled_own, nonblank_eq_some] at h
        exact absurd (h.1 ▸ List.isEmpty_iff.mp hempty) h.2
      · exact (howned.recalled_set _ _ getter hown).trans h
    · exact h

theorem lookUp_credentials {member : Member} {own : Getter} (howned : member.Owned own)
    (option : Bytes) (told : Bytes × List Bytes) (cached : Cached) :
    (lookUp member option told cached).1.credentials = cached.credentials := by
  rw [lookUp]
  split
  · exact howned.credentials_set _ _
  · rfl

/-! ## Credentials -/

section Credentials
variable (y : Yajl) (source : Credentials.Sources)

theorem takeFields_projectId (cache : Credentials.Cache) (creds : Object) :
    (Credentials.takeFields cache creds).1.projectId = cache.projectId := by
  unfold Credentials.takeFields
  cases getString creds (lit "client_email") with
  | error e => rfl
  | ok email =>
    cases getString creds (lit "private_key") with
    | error e => rfl
    | ok key =>
      simp only
      split
      · cases getString creds (lit "project_id") <;> rfl
      · rfl

theorem read_projectId (cache : Credentials.Cache) :
    (Credentials.readApplicationDefaultCredentials y source cache).projectId = cache.projectId := by
  unfold Credentials.readApplicationDefaultCredentials
  split
  · rfl
  · unfold Credentials.takeCredentials
    cases Credentials.readCredentials y source with
    | error e => rfl
    | ok credsJson =>
      simp only
      cases asObject credsJson with
      | error e => rfl
      | ok creds => exact takeFields_projectId cache creds

theorem read_of_read {cache : Credentials.Cache}
    (h : cache.applicationDefaultCredentialsRead = true) :
    Credentials.readApplicationDefaultCredentials y source cache = cache := by
  rw [Credentials.readApplicationDefaultCredentials, if_pos h]

theorem read_flag (cache : Credentials.Cache) :
    (Credentials.readApplicationDefaultCredentials y source
      cache).applicationDefaultCredentialsRead = true := by
  unfold Credentials.readApplicationDefaultCredentials
  split
  · assumption
  · rfl

/-- The project id is found, or the credentials are read and the project id is filled in. -/
theorem projectId_cases (cache : Credentials.Cache) :
    (cache.projectId ≠ [] ∧
      Credentials.projectId y source cache = (cache, cache.projectId)) ∨
    (cache.projectId = [] ∧ source.projectId ≠ [] ∧
      Credentials.projectId y source cache =
        ({ cache with projectId := source.projectId }, source.projectId)) ∨
    (cache.projectId = [] ∧ source.projectId = [] ∧ ∃ value,
      Credentials.projectId y source cache =
        ({ Credentials.readApplicationDefaultCredentials y source cache with projectId := value },
          value)) := by
  unfold Credentials.projectId
  by_cases hcached : cache.projectId = []
  · by_cases hoption : source.projectId = []
    · rw [if_pos (List.isEmpty_iff.mpr hcached), if_pos (List.isEmpty_iff.mpr hoption)]
      exact .inr (.inr ⟨hcached, hoption, _, rfl⟩)
    · rw [if_pos (List.isEmpty_iff.mpr hcached), if_neg (by simpa using hoption)]
      exact .inr (.inl ⟨hcached, hoption, rfl⟩)
  · rw [if_neg (by simpa using hcached)]
    exact .inl ⟨hcached, rfl⟩

variable (options : Options) (world : World)

theorem recalled_withCredentials {cached : Cached} {getter : Getter} {v : Bytes}
    (h : recalled cached getter = some v) :
    recalled (withCredentials y options world cached) getter = some v := by
  have hread : ∀ {v : Bytes} {value : Credentials.Cache → Bytes},
      (if cached.credentials.applicationDefaultCredentialsRead then
        some (value cached.credentials) else none) = some v →
      withCredentials y options world cached = cached := by
    intro v value h
    rw [Option.ite_none_right_eq_some] at h
    rw [withCredentials, read_of_read y _ h.1]
  cases getter with
  | projectId =>
    rw [recalled] at h ⊢
    rw [withCredentials, read_projectId]
    exact h
  | credentialsClientEmail => rw [hread h, h]
  | credentialsPrivateKey => rw [hread h, h]
  | instanceZone => exact h
  | instanceId => exact h
  | instanceResourceType => exact h
  | kubernetesClusterName => exact h
  | kubernetesClusterLocation => exact h

theorem openedBy_of_read {cached : Cached}
    (h : cached.credentials.applicationDefaultCredentialsRead = true) :
    openedBy options world cached = [] := by
  rw [openedBy, if_pos h]

theorem credentialsClientEmail_keeps :
    Keeps .credentialsClientEmail (credentialsClientEmail y options world) where
  hit := by
    intro cached v h
    rw [recalled, Option.ite_none_right_eq_some, Option.some.injEq] at h
    obtain ⟨hread, rfl⟩ := h
    have hsame : withCredentials y options world cached = cached := by
      rw [withCredentials, read_of_read y _ hread]
    simp only [credentialsClientEmail, hsame, openedBy_of_read options world hread]
  give := by
    intro cached _
    rw [recalled, credentialsClientEmail, withCredentials, read_flag, if_pos rfl]
  keep := fun _ _ _ h => recalled_withCredentials y options world h

theorem credentialsPrivateKey_keeps :
    Keeps .credentialsPrivateKey (credentialsPrivateKey y options world) where
  hit := by
    intro cached v h
    rw [recalled, Option.ite_none_right_eq_some, Option.some.injEq] at h
    obtain ⟨hread, rfl⟩ := h
    have hsame : withCredentials y options world cached = cached := by
      rw [withCredentials, read_of_read y _ hread]
    simp only [credentialsPrivateKey, hsame, openedBy_of_read options world hread]
  give := by
    intro cached _
    rw [recalled, credentialsPrivateKey, withCredentials, read_flag, if_pos rfl]
  keep := fun _ _ _ h => recalled_withCredentials y options world h

/-- The project id is a member too; the credentials may be read before it is filled. -/
theorem recalled_setProjectId (cached : Cached) {getter : Getter} (hgetter : getter ≠ .projectId)
    (value : Bytes) :
    recalled { cached with credentials := { cached.credentials with projectId := value } } getter =
      recalled cached getter := by
  cases getter <;> first | rfl | exact absurd rfl hgetter

theorem projectId_keeps : Keeps .projectId (projectId y options world) where
  hit := by
    intro cached v h
    rw [recalled, nonblank_eq_some] at h
    obtain ⟨rfl, hsome⟩ := h
    have hisEmpty : cached.credentials.projectId.isEmpty = false := by simpa using hsome
    have hfound : Credentials.projectId y (sources options world) cached.credentials =
        (cached.credentials, cached.credentials.projectId) := by
      rw [Credentials.projectId, hisEmpty, if_neg Bool.false_ne_true]
    simp only [projectId, hfound, hisEmpty, Bool.false_and, Bool.false_eq_true, if_false]
  give := by
    intro cached hsettles
    have hvalue := hsettles.resolve_right Bool.false_ne_true
    rw [recalled, nonblank_eq_some]
    refine ⟨?_, hvalue⟩
    rcases projectId_cases y (sources options world) cached.credentials with
      ⟨-, h⟩ | ⟨-, -, h⟩ | ⟨-, -, value, h⟩
    · simp only [projectId, h]
    · simp only [projectId, h]
    · simp only [projectId, h]
  keep := by
    intro cached getter v hrecalled
    rcases projectId_cases y (sources options world) cached.credentials with
      ⟨-, h⟩ | ⟨hempty, -, h⟩ | ⟨hempty, -, value, h⟩
    · simp only [projectId, h]
      exact hrecalled
    · have hgetter : getter ≠ .projectId := by
        rintro rfl
        rw [recalled, nonblank_eq_some, hempty] at hrecalled
        exact hrecalled.2 hrecalled.1.symm
      simp only [projectId, h]
      exact (recalled_setProjectId _ hgetter _).trans hrecalled
    · have hgetter : getter ≠ .projectId := by
        rintro rfl
        rw [recalled, nonblank_eq_some, hempty] at hrecalled
        exact hrecalled.2 hrecalled.1.symm
      simp only [projectId, h]
      exact (recalled_setProjectId (withCredentials y options world cached) hgetter
        value).trans (recalled_withCredentials y options world hrecalled)

end Credentials

/-! ## Runs -/

section Runs
variable (y : Yajl) (options : Options)

theorem respond_keeps (getter : Getter) (world : World) :
    Keeps getter fun cached => respond y options cached (getter, world) := by
  cases getter with
  | projectId => exact projectId_keeps y options world
  | instanceZone => exact lookUp_keeps zoneMember_owned _ _
  | instanceId => exact lookUp_keeps idMember_owned _ _
  | instanceResourceType => exact lookUp_keeps typeMember_owned _ _
  | kubernetesClusterName => exact lookUp_keeps nameMember_owned _ _
  | kubernetesClusterLocation => exact lookUp_keeps locationMember_owned _ _
  | credentialsClientEmail => exact credentialsClientEmail_keeps y options world
  | credentialsPrivateKey => exact credentialsPrivateKey_keeps y options world

/-- The calls of a run with their replies. -/
def replies (calls : List (Getter × World)) : List ((Getter × World) × Reply) :=
  responses (respond y options) .init calls

/-- What a call opens, before and after the credentials were read. -/
structure OpensOnce (cached : Cached) (result : Cached × Reply) : Prop where
  read : cached.credentials.applicationDefaultCredentialsRead = true →
    result.2.opened = [] ∧ result.1.credentials.applicationDefaultCredentialsRead = true
  once : result.2.opened = [] ∨
    result.2.opened.length = 1 ∧ result.1.credentials.applicationDefaultCredentialsRead = true

theorem opensOnce_of_same {cached : Cached} {result : Cached × Reply} (hopened : result.2.opened = [])
    (hcredentials : result.1.credentials.applicationDefaultCredentialsRead =
      cached.credentials.applicationDefaultCredentialsRead) : OpensOnce cached result where
  read hread := ⟨hopened, hcredentials.trans hread⟩
  once := .inl hopened

theorem opensOnce_of_read (world : World) {cached : Cached} {result : Cached × Reply}
    (hopened : result.2.opened = openedBy options world cached)
    (hread : result.1.credentials.applicationDefaultCredentialsRead = true) :
    OpensOnce cached result where
  read h := ⟨hopened.trans (openedBy_of_read options world h), hread⟩
  once := by
    rw [hopened, openedBy]
    split
    · exact .inl rfl
    · exact .inr ⟨rfl, hread⟩

theorem lookUp_opensOnce {member : Member} {own : Getter} (howned : member.Owned own)
    (option : Bytes) (told : Bytes × List Bytes) (cached : Cached) :
    OpensOnce cached (lookUp member option told cached) := by
  refine opensOnce_of_same ?_ ?_
  · rw [lookUp]
    split <;> rfl
  · rw [lookUp_credentials howned]

theorem projectId_opensOnce (world : World) (cached : Cached) :
    OpensOnce cached (projectId y options world cached) := by
  rcases projectId_cases y (sources options world) cached.credentials with
    ⟨hfilled, h⟩ | ⟨-, hoption, h⟩ | ⟨hempty, hoption, value, h⟩
  · have hsearches : cached.credentials.projectId.isEmpty = false := by simpa using hfilled
    refine opensOnce_of_same ?_ ?_
    · simp only [projectId, hsearches, Bool.false_and, Bool.false_eq_true, if_false]
    · simp only [projectId, h]
  · have hsearches : options.projectId.isEmpty = false := by simpa [sources] using hoption
    refine opensOnce_of_same ?_ ?_
    · simp only [projectId, hsearches, Bool.and_false, Bool.false_eq_true, if_false]
    · simp only [projectId, h]
  · have hsearches : (cached.credentials.projectId.isEmpty && options.projectId.isEmpty) = true := by
      have hnone : options.projectId = [] := hoption
      rw [hempty, hnone]
      rfl
    refine opensOnce_of_read options world ?_ ?_
    · simp only [projectId, hsearches, if_true]
    · simp only [projectId, h]
      exact read_flag y _ _

theorem respond_opensOnce (cached : Cached) (call : Getter × World) :
    OpensOnce cached (respond y options cached call) := by
  obtain ⟨getter, world⟩ := call
  cases getter with
  | projectId => exact projectId_opensOnce y options world cached
  | instanceZone => exact lookUp_opensOnce zoneMember_owned _ _ cached
  | instanceId => exact lookUp_opensOnce idMember_owned _ _ cached
  | instanceResourceType => exact lookUp_opensOnce typeMember_owned _ _ cached
  | kubernetesClusterName => exact lookUp_opensOnce nameMember_owned _ _ cached
  | kubernetesClusterLocation => exact lookUp_opensOnce locationMember_owned _ _ cached
  | credentialsClientEmail => exact opensOnce_of_read options world rfl (read_flag y _ _)
  | credentialsPrivateKey => exact opensOnce_of_read options world rfl (read_flag y _ _)

theorem opened_once (cached : Cached) (calls : List (Getter × World)) :
    ((responses (respond y options) cached calls).flatMap fun x => x.2.opened).length ≤
      if cached.credentials.applicationDefaultCredentialsRead then 0 else 1 := by
  induction calls generalizing cached with
  | nil => exact Nat.zero_le _
  | cons call calls ih =>
    have hcall := respond_opensOnce y options cached call
    have hrest := ih (respond y options cached call).1
    rw [responses, List.flatMap_cons, List.length_append]
    cases hread : cached.credentials.applicationDefaultCredentialsRead with
    | true =>
      obtain ⟨hopened, hstill⟩ := hcall.read hread
      rw [hstill, if_pos rfl] at hrest
      rw [hopened, if_pos rfl, List.length_nil]
      omega
    | false =>
      rw [if_neg Bool.false_ne_true]
      rcases hcall.once with hopened | ⟨hopened, hnow⟩
      · rw [hopened, List.length_nil]
        split at hrest <;> omega
      · rw [hnow, if_pos rfl] at hrest
        exact Nat.add_le_add hopened.le hrest

/-- The getter of a reply has what it returned. -/
def Remembers (cached : Cached) (x : (Getter × World) × Reply) : Prop :=
  recalled cached x.1.1 = some x.2.value

/-- Whatever the metadata server and the files answer from call to call: once a getter has
returned something it returns the same ever after and asks nobody; the getters of the credentials
do so from their first call on; and no run opens a credentials file twice. -/
theorem getters_settle (calls : List (Getter × World)) :
    (replies y options calls).Pairwise (fun x z =>
      x.1.1.Settles x.2.value → z.1.1 = x.1.1 → z.2 = ⟨x.2.value, [], []⟩) ∧
    ((replies y options calls).flatMap fun x => x.2.opened).length ≤ 1 := by
  constructor
  · refine @responses_remember _ _ _ (respond y options)
      (fun x : (Getter × World) × Reply => x.1.1.Settles x.2.value) Remembers
      (fun x z => z.1.1 = x.1.1 → z.2 = ⟨x.2.value, [], []⟩) ?_ ?_ ?_ .init calls
    · rintro cached ⟨getter, world⟩ hsettles
      exact (respond_keeps y options getter world).give cached hsettles
    · rintro cached x ⟨getter, world⟩ hremembers
      exact (respond_keeps y options getter world).keep cached _ _ hremembers
    · rintro cached x ⟨getter, world⟩ hremembers hsame
      obtain rfl : getter = x.1.1 := hsame
      have hhit := (respond_keeps y options x.1.1 world).hit cached _ hremembers
      exact congrArg Prod.snd hhit
  · exact opened_once y options .init calls

/-! ## The first answer -/

/-- A getter that fills a member: the member, the option, and what it is told. -/
structure Filling where
  member : Member
  option : Bytes
  told : World → Bytes × List Bytes

/-- The getters that fill a member of their own. -/
def filling : Getter → Option Filling
  | .instanceZone => some ⟨zoneMember, options.instanceZone, toldZone⟩
  | .instanceId => some ⟨idMember, options.instanceId, toldId⟩
  | .instanceResourceType =>
    some ⟨typeMember, options.instanceResourceType, fun _ => (lit "gce_instance", [])⟩
  | .kubernetesClusterName => some ⟨nameMember, options.kubernetesClusterName, toldName⟩
  | .kubernetesClusterLocation =>
    some ⟨locationMember, options.kubernetesClusterLocation, toldLocation⟩
  | _ => none

def Filling.fetch (f : Filling) (world : World) : Bytes := (taken f.option (f.told world)).1

theorem respond_filling {getter : Getter} {f : Filling} (h : filling options getter = some f)
    (cached : Cached) (world : World) :
    respond y options cached (getter, world) = lookUp f.member f.option (f.told world) cached := by
  cases getter <;> cases h <;> rfl

theorem get_set_filling {getter : Getter} {f : Filling} (h : filling options getter = some f)
    (cached : Cached) (value : Bytes) : f.member.get (f.member.set cached value) = value := by
  cases getter <;> cases h <;> rfl

theorem get_set_other {getter other : Getter} {f f' : Filling} (h : filling options getter = some f)
    (h' : filling options other = some f') (hne : other ≠ getter) (cached : Cached)
    (value : Bytes) : f.member.get (f'.member.set cached value) = f.member.get cached := by
  cases getter <;> cases h <;> cases other <;> cases h' <;> first | rfl | exact absurd rfl hne

/-- A call of its own getter fills the member, and no other call changes it. -/
theorem get_respond {getter : Getter} {f : Filling} (h : filling options getter = some f)
    (cached : Cached) (call : Getter × World) :
    f.member.get (respond y options cached call).1 =
      if call.1 = getter then fill f.fetch (f.member.get cached) call.2
      else f.member.get cached := by
  obtain ⟨other, world⟩ := call
  by_cases hown : other = getter
  · rw [if_pos hown, hown, respond_filling y options h, lookUp, fill]
    split
    · exact get_set_filling options h cached _
    · rfl
  · rw [if_neg hown]
    cases hother : filling options other with
    | some f' =>
      rw [respond_filling y options hother, lookUp]
      split
      · exact get_set_other options h hother hown cached _
      · rfl
    | none =>
      cases getter <;> cases h <;> cases other <;> first | rfl | cases hother

theorem get_afterAll {getter : Getter} {f : Filling} (h : filling options getter = some f)
    (calls : List (Getter × World)) :
    f.member.get (afterAll (respond y options) .init calls) =
      ((calls.filter fun call => decide (call.1 = getter)).map Prod.snd).foldl (fill f.fetch) [] := by
  have hinit : f.member.get .init = [] := by
    cases getter <;> cases h <;> rfl
  induction calls using List.reverseRecOn with
  | nil => exact hinit
  | append_singleton calls call ih =>
    rw [afterAll_concat, get_respond y options h, ih, List.filter_append, List.map_append,
      List.foldl_append]
    by_cases hown : call.1 = getter
    · rw [if_pos hown, List.filter_cons_of_pos (by simpa using hown)]
      rfl
    · rw [if_neg hown, List.filter_cons_of_neg (by simpa using hown)]
      rfl

/-- A getter with a member of its own returns the first value that was not blank among those that
its calls so far found, and blank as long as there is none; the other getters do not matter. -/
theorem getter_first_found (before : List (Getter × World)) (getter : Getter) (world : World)
    {f : Filling} (h : filling options getter = some f) :
    (respond y options (afterAll (respond y options) .init before) (getter, world)).2.value =
      ((((before ++ [(getter, world)]).filter fun call => decide (call.1 = getter)).map
        fun call => f.fetch call.2).find? fun value => !value.isEmpty).getD [] := by
  have hvalue : ∀ cached, (respond y options cached (getter, world)).2.value =
      f.member.get (respond y options cached (getter, world)).1 := by
    intro cached
    rw [respond_filling y options h, lookUp]
    split
    · exact (get_set_filling options h cached _).symm
    · rfl
  have hall := get_afterAll y options h (before ++ [(getter, world)])
  rw [afterAll_concat, foldl_fill, List.map_map] at hall
  rw [hvalue, hall]
  rfl

end Runs

/-- A metadata server that knows the zone, if it answers. -/
def zoneServer (answers : Bool) : World where
  credentialsVariable := none
  file _ := none
  server _ :=
    if answers then .response 200 (lit "OK") (lit "projects/1/zones/us-east1-b")
    else .response 503 (lit "Service Unavailable") []

theorem getter_first_found_zone :
    (respond pushdown ⟨[], [], [], [], [], [], []⟩
      (afterAll (respond pushdown ⟨[], [], [], [], [], [], []⟩) .init
        [(.instanceZone, zoneServer false), (.instanceId, zoneServer true)])
      (.instanceZone, zoneServer true)).2.value = lit "us-east1-b" :=
  (getter_first_found pushdown ⟨[], [], [], [], [], [], []⟩
    [(.instanceZone, zoneServer false), (.instanceId, zoneServer true)] .instanceZone
    (zoneServer true) rfl).trans (by decide +kernel)

/-! ## Zones -/

theorem stringFind_eq_some {s pattern : Bytes} {i : ℕ} :
    stringFind s pattern = some i ↔
      i ≤ s.length ∧ pattern <+: s.drop i ∧ ∀ j < i, ¬pattern <+: s.drop j := by
  rw [stringFind, List.find?_range_eq_some, List.isPrefixOf_iff_prefix, List.mem_range]
  simp only [Bool.not_eq_true', ← Bool.not_eq_true, List.isPrefixOf_iff_prefix]
  constructor
  · rintro ⟨ hprefix, hi, hnone⟩
    exact ⟨by omega, hprefix, hnone⟩
  · rintro ⟨hi, hprefix, hnone⟩
    exact ⟨ hprefix, by omega, hnone⟩

/-- A byte is found where the text before it ends, if it is not in there. -/
theorem stringFind_singleton {before : Bytes} {b : UInt8} (hb : b ∉ before) (after : Bytes) :
    stringFind (before ++ b :: after) [b] = some before.length := by
  rw [stringFind_eq_some]
  refine ⟨?_, ?_, fun j hj hprefix => ?_⟩
  · rw [List.length_append]
    omega
  · rw [List.drop_left]
    exact ⟨after, rfl⟩
  · obtain ⟨rest, hrest⟩ := hprefix
    have hat : (before ++ b :: after)[j]? = some b := by
      rw [← List.head?_drop, ← hrest]
      rfl
    rw [List.getElem?_append_left hj] at hat
    exact hb (List.mem_of_getElem? hat)

theorem lastSegment_of_no_slash {zone : Bytes} (h : 0x2f ∉ zone) : lastSegment zone = zone := by
  have hnone : stringRfind zone 0x2f = none := by
    rw [stringRfind, List.find?_eq_none]
    intro i _ hi
    exact h (List.mem_of_getElem? (of_decide_eq_true hi))
  rw [lastSegment, hnone]

/-- What is behind the last slash. -/
theorem lastSegment_append {before zone : Bytes} (h : 0x2f ∉ zone) :
    lastSegment (before ++ 0x2f :: zone) = zone := by
  have hlast : stringRfind (before ++ 0x2f :: zone) 0x2f = some before.length := by
    have hlength : (before ++ 0x2f :: zone).length = before.length + (1 + zone.length) := by
      rw [List.length_append, List.length_cons]
      omega
    have hbehind : ∀ i ∈ (List.range zone.length).reverse.map fun i => before.length + (1 + i),
        ¬decide ((before ++ 0x2f :: zone)[i]? = some 0x2f) = true := by
      intro i hi hslash
      obtain ⟨j, -, rfl⟩ := List.mem_map.mp hi
      have hat := of_decide_eq_true hslash
      rw [List.getElem?_append_right (by omega), Nat.add_sub_cancel_left, Nat.add_comm 1 j,
        List.getElem?_cons_succ] at hat
      exact h (List.mem_of_getElem? hat)
    have hrange : (List.range (before ++ 0x2f :: zone).length).reverse =
        ((List.range zone.length).reverse.map fun i => before.length + (1 + i)) ++
          before.length :: (List.range before.length).reverse := by
      rw [hlength, List.range_add, List.reverse_append, ← List.map_reverse, Nat.add_comm 1,
        List.range_succ_eq_map, List.reverse_cons, List.map_append, ← List.map_reverse,
        List.map_map]
      simp only [List.map_cons, List.map_nil, Nat.add_zero, List.append_assoc,
        List.singleton_append, Function.comp_def, Nat.succ_eq_add_one, Nat.add_comm 1]
    rw [stringRfind, hrange, List.find?_append, List.find?_eq_none.mpr hbehind, Option.none_or,
      List.find?_cons]
    have hat : (before ++ 0x2f :: zone)[before.length]? = some 0x2f := by
      rw [List.getElem?_append_right (Nat.le_refl _), Nat.sub_self]
      rfl
    rw [hat]
    rfl
  have hdrop : (before ++ 0x2f :: zone).drop (before.length + 1) = zone := by
    rw [List.append_cons, List.drop_left' (by rw [List.length_append, List.length_singleton])]
  rw [lastSegment, hlast]
  exact hdrop

/-- The segment has no slash, and nothing but the text up to a slash is in front of it. -/
def EndsWithSegment (zone segment : Bytes) : Prop :=
  0x2f ∉ segment ∧ (zone = segment ∨ ∃ before, zone = before ++ 0x2f :: segment)

theorem exists_segment (zone : Bytes) : ∃ segment, EndsWithSegment zone segment := by
  induction zone using List.reverseRecOn with
  | nil => exact ⟨[], List.not_mem_nil, .inl rfl⟩
  | append_singleton zone b ih =>
    by_cases hb : b = 0x2f
    · exact ⟨[], List.not_mem_nil, .inr ⟨zone, by rw [hb]⟩⟩
    · obtain ⟨segment, hsegment, hzone⟩ := ih
      refine ⟨segment ++ [b], ?_, ?_⟩
      · rw [List.mem_append, List.mem_singleton, not_or]
        exact ⟨hsegment, Ne.symm hb⟩
      · rcases hzone with rfl | ⟨before, rfl⟩
        · exact .inl rfl
        · exact .inr ⟨before, by rw [List.append_assoc, List.cons_append]⟩

theorem lastSegment_eq_iff (zone segment : Bytes) :
    lastSegment zone = segment ↔ EndsWithSegment zone segment := by
  have hends : ∀ {segment : Bytes}, EndsWithSegment zone segment → lastSegment zone = segment := by
    rintro segment ⟨hsegment, rfl | ⟨before, rfl⟩⟩
    · exact lastSegment_of_no_slash hsegment
    · exact lastSegment_append hsegment
  constructor
  · rintro rfl
    obtain ⟨segment, hsegment⟩ := exists_segment zone
    rw [hends hsegment]
    exact hsegment
  · exact hends

/-! ## The kube-env -/

/-- Names and values, one of each on a line. -/
def kubeEnvText (assignments : List (Bytes × Bytes)) : Bytes :=
  assignments.flatMap fun v => (v.1 ++ lit ": " ++ v.2) ++ [0x0a]

theorem lines_kubeEnvText {assignments : List (Bytes × Bytes)}
    (h : ∀ v ∈ assignments, 0x0a ∉ v.1 ∧ 0x0a ∉ v.2) :
    lines 0x0a (kubeEnvText assignments) = assignments.map fun v => v.1 ++ lit ": " ++ v.2 := by
  have hlines : ∀ line ∈ assignments.map fun v => v.1 ++ lit ": " ++ v.2, (0x0a : UInt8) ∉ line := by
    intro line hline
    obtain ⟨v, hv, rfl⟩ := List.mem_map.mp hline
    rw [List.mem_append, List.mem_append, not_or, not_or]
    exact ⟨⟨(h v hv).1, by decide⟩, (h v hv).2⟩
  have hall := lines_flatMap [] hlines
  rw [List.append_nil, List.flatMap_map, lines, List.append_nil] at hall
  exact hall

/-- A line has the name of the zone in front exactly if that is its name. -/
theorem startsWithZone_iff {name : Bytes} (hname : 0x3a ∉ name) (value : Bytes) :
    stringFind (name ++ lit ": " ++ value) (lit "ZONE: ") = some 0 ↔ name = lit "ZONE" := by
  rw [MetadataApiServer.stringFind_eq_zero_iff]
  constructor
  · rintro ⟨rest, hrest⟩
    have hline : lit "ZONE" ++ 0x3a :: (lit " " ++ rest) = name ++ 0x3a :: (lit " " ++ value) := by
      rw [List.append_assoc] at hrest
      exact hrest
    have hfirst := stringFind_singleton (by decide : 0x3a ∉ lit "ZONE") (lit " " ++ rest)
    rw [hline, stringFind_singleton hname, Option.some.injEq] at hfirst
    exact (List.append_inj_left hline hfirst.symm).symm
  · rintro rfl
    exact ⟨value, rfl⟩

/-- The zone of a kube-env is the value of the first variable with that name. -/
theorem kubeEnvZone_kubeEnvText {assignments : List (Bytes × Bytes)}
    (h : ∀ v ∈ assignments, 0x3a ∉ v.1 ∧ 0x0a ∉ v.1 ∧ 0x0a ∉ v.2) :
    kubeEnvZone (kubeEnvText assignments) =
      ((assignments.find? fun v => decide (v.1 = lit "ZONE")).map Prod.snd).getD [] := by
  rw [kubeEnvZone, lines_kubeEnvText fun v hv => (h v hv).2]
  induction assignments with
  | nil => rfl
  | cons v assignments ih =>
    rw [List.map_cons, List.find?_cons, List.find?_cons]
    have hstart := startsWithZone_iff (h v List.mem_cons_self).1 v.2
    by_cases hzone : v.1 = lit "ZONE"
    · have hcolon : stringFind (v.1 ++ lit ": " ++ v.2) (lit ":") = some 4 := by
        rw [hzone, List.append_assoc]
        exact stringFind_singleton (by decide : 0x3a ∉ lit "ZONE") (lit " " ++ v.2)
      rw [decide_eq_true (hstart.mpr hzone), decide_eq_true hzone]
      simp only [hcolon, Option.map_some, Option.getD_some]
      rw [hzone]
      rfl
    · rw [decide_eq_false (fun hfound => hzone (hstart.mp hfound)), decide_eq_false hzone]
      exact ih fun w hw => h w (List.mem_cons_of_mem v hw)

/-- In an older cluster, whatever was called before, a location that is not known yet is the zone
of the kube-env, as it was written there, and both attributes are asked for. -/
theorem location_of_older_cluster (y : Yajl) (options : Options) (before : List (Getter × World))
    (world : World) (assignments : List (Bytes × Bytes))
    (hunknown : (afterAll (respond y options) .init before).kubernetesClusterLocation = [])
    (hoption : options.kubernetesClusterLocation = [])
    (hattribute : getMetadataString world (lit "instance/attributes/cluster-location") = [])
    (hkubeEnv : getMetadataString world (lit "instance/attributes/kube-env") =
      kubeEnvText assignments)
    (hassignments : ∀ v ∈ assignments, 0x3a ∉ v.1 ∧ 0x0a ∉ v.1 ∧ 0x0a ∉ v.2) :
    (respond y options (afterAll (respond y options) .init before)
        (.kubernetesClusterLocation, world)).2 =
      ⟨((assignments.find? fun v => decide (v.1 = lit "ZONE")).map Prod.snd).getD [],
        [lit "instance/attributes/cluster-location", lit "instance/attributes/kube-env"], []⟩ := by
  have htold : toldLocation world =
      (((assignments.find? fun v => decide (v.1 = lit "ZONE")).map Prod.snd).getD [],
        [lit "instance/attributes/cluster-location", lit "instance/attributes/kube-env"]) := by
    rw [toldLocation, hattribute, hkubeEnv, kubeEnvZone_kubeEnvText hassignments]
    rfl
  rw [respond]
  simp only [kubernetesClusterLocation, lookUp, locationMember, hunknown, hoption, taken, htold,
    List.isEmpty_nil, if_true]

/-- A metadata server of an older cluster. -/
def olderCluster : World where
  credentialsVariable := none
  file _ := none
  server path :=
    if path = lit "instance/attributes/kube-env" then
      .response 200 (lit "OK") (lit "NETWORK: default\nZONE: us-east1-b\nZONE: later\n")
    else .response 404 (lit "Not Found") (lit "no such attribute")

theorem location_of_older_cluster_example :
    (respond pushdown ⟨[], [], [], [], [], [], []⟩ .init
      (.kubernetesClusterLocation, olderCluster)).2 =
      ⟨lit "us-east1-b",
        [lit "instance/attributes/cluster-location", lit "instance/attributes/kube-env"], []⟩ :=
  location_of_older_cluster pushdown ⟨[], [], [], [], [], [], []⟩ [] olderCluster
    [(lit "NETWORK", lit "default"), (lit "ZONE", lit "us-east1-b"), (lit "ZONE", lit "later")]
    rfl rfl rfl rfl (by decide +kernel)

end MetadataAgent.EnvironmentCache
