import MetadataAgent.Resource
import MetadataAgent.Time
import MetadataAgent.Lib.Histories

/-! # The metadata store

`MetadataStore` keeps a resource map (local id to resource), a metadata map (resource to entry)
and the last collection time of every resource type. A method is a function of the whole store,
since each of them runs under one lock. The second half relates the metadata map to the whole
history of calls: an entry is there exactly when it is the last one recorded for its resource
and no purge has come after a deletion. -/
namespace MetadataAgent
open Lib Json
set_option autoImplicit false

structure Metadata where
  version : Bytes
  isDeleted : Bool
  createdAt : Timestamp
  collectedAt : Timestamp
  metadata : Value
  ignore : Bool
  deriving DecidableEq

/-- `Metadata::IGNORED`. -/
def Metadata.ignored : Metadata := ⟨[], false, 0, 0, object [], true⟩

def Metadata.clone (m : Metadata) : Metadata :=
  if m.ignore then .ignored
  else ⟨m.version, m.isDeleted, m.createdAt, m.collectedAt, m.metadata, false⟩

structure MetadataStore where
  resourceMap : OrderedMap Bytes MonitoredResource
  metadataMap : OrderedMap MonitoredResource Metadata
  lastCollectionTimes : OrderedMap Bytes Timestamp

namespace MetadataStore

def empty : MetadataStore := ⟨.empty, .empty, .empty⟩

/-- `none` is `std::out_of_range`. -/
def lookupResource (s : MetadataStore) (resourceId : Bytes) : Option MonitoredResource :=
  s.resourceMap.find resourceId

def updateResource (s : MetadataStore) (resourceIds : List Bytes) (resource : MonitoredResource) :
    MetadataStore :=
  { s with resourceMap := resourceIds.foldl (fun m id => m.emplace id resource) s.resourceMap }

/-- `emplace`, then a forced update when the type was already there with an older time. -/
def recordCollection (times : OrderedMap Bytes Timestamp) (type : Bytes) (collectedAt : Timestamp) :
    OrderedMap Bytes Timestamp :=
  match times.find type with
  | none => times.emplace type collectedAt
  | some t => if t < collectedAt then (times.erase type).emplace type collectedAt else times

def updateMetadata (s : MetadataStore) (resource : MonitoredResource) (entry : Metadata) :
    MetadataStore :=
  if entry.ignore then s
  else
    { s with
      metadataMap := (s.metadataMap.erase resource).emplace resource entry
      lastCollectionTimes :=
        recordCollection s.lastCollectionTimes resource.type entry.collectedAt }

def getMetadataMap (s : MetadataStore) : OrderedMap MonitoredResource Metadata :=
  s.metadataMap.mapValues fun _ entry => entry.clone

def getLastCollectionTimes (s : MetadataStore) : OrderedMap Bytes Timestamp :=
  s.lastCollectionTimes

/-- One turn of the purge loop: the iterator's entry is erased or stepped over. -/
def purgeEntry (m : OrderedMap MonitoredResource Metadata) (e : MonitoredResource × Metadata) :
    OrderedMap MonitoredResource Metadata :=
  if e.2.isDeleted then m.erase e.1 else m

def purgeDeletedEntries (s : MetadataStore) : MetadataStore :=
  { s with metadataMap := s.metadataMap.entries.foldl purgeEntry s.metadataMap }

/-! ## What the metadata map holds after a call -/

theorem find_updateMetadata (s : MetadataStore) (r q : MonitoredResource) (entry : Metadata) :
    (s.updateMetadata r entry).metadataMap.find q =
      if entry.ignore = false ∧ q = r then some entry else s.metadataMap.find q := by
  unfold updateMetadata
  cases hi : entry.ignore with
  | true => simp
  | false => simp [OrderedMap.find_erase_emplace]

def hasDeleted (q : MonitoredResource) (es : List (MonitoredResource × Metadata)) : Bool :=
  es.any fun e => decide (q = e.1) && e.2.isDeleted

theorem find_foldl_purgeEntry (es : List (MonitoredResource × Metadata))
    (m : OrderedMap MonitoredResource Metadata) (q : MonitoredResource) :
    (es.foldl purgeEntry m).find q = if hasDeleted q es then none else m.find q := by
  induction es generalizing m with
  | nil => rfl
  | cons e es ih =>
    obtain ⟨r, entry⟩ := e
    have hhead : (purgeEntry m (r, entry)).find q =
        if q = r ∧ entry.isDeleted = true then none else m.find q := by
      unfold purgeEntry
      cases hd : entry.isDeleted <;> simp [OrderedMap.find_erase]
    have hany : hasDeleted q ((r, entry) :: es) =
        (decide (q = r) && entry.isDeleted || hasDeleted q es) := List.any_cons
    rw [List.foldl_cons, ih, hhead, hany]
    by_cases hq : q = r ∧ entry.isDeleted = true
    · simp [hq]
    · have hfalse : (decide (q = r) && entry.isDeleted) = false := by simpa using hq
      rw [if_neg hq, hfalse, Bool.false_or]

theorem find_purgeDeletedEntries (s : MetadataStore) (q : MonitoredResource) :
    s.purgeDeletedEntries.metadataMap.find q =
      (s.metadataMap.find q).filter fun entry => !entry.isDeleted := by
  have hloop : s.purgeDeletedEntries.metadataMap.find q =
      if hasDeleted q s.metadataMap.entries then none else s.metadataMap.find q :=
    find_foldl_purgeEntry s.metadataMap.entries s.metadataMap q
  have hdel : hasDeleted q s.metadataMap.entries = true ↔
      ∃ entry, s.metadataMap.find q = some entry ∧ entry.isDeleted = true := by
    simp only [hasDeleted, List.any_eq_true, Bool.and_eq_true, decide_eq_true_eq, Prod.exists]
    constructor
    · rintro ⟨r, entry, hmem, rfl, hd⟩
      exact ⟨entry, OrderedMap.mem_entries.mp hmem, hd⟩
    · rintro ⟨entry, hf, hd⟩
      exact ⟨q, entry, OrderedMap.mem_entries.mpr hf, rfl, hd⟩
  rw [hloop]
  cases hf : s.metadataMap.find q with
  | none => simp
  | some entry =>
    cases hd : entry.isDeleted with
    | true => rw [if_pos (hdel.mpr ⟨entry, hf, hd⟩)]; simp [Option.filter, hd]
    | false =>
      have hno : ¬hasDeleted q s.metadataMap.entries = true := by
        rw [hdel]
        rintro ⟨e, he, hed⟩
        rw [hf, Option.some.injEq] at he
        rw [← he, hd] at hed
        exact Bool.false_ne_true hed
      rw [if_neg hno]
      simp [Option.filter, hd]

theorem clone_of_not_ignore {m : Metadata} (h : m.ignore = false) : m.clone = m := by
  cases m
  simp only at h
  simp [Metadata.clone, h]

theorem find_getMetadataMap_updateMetadata (s : MetadataStore) (r : MonitoredResource)
    {entry : Metadata} (h : entry.ignore = false) :
    (s.updateMetadata r entry).getMetadataMap.find r = some entry := by
  have hfind : (s.updateMetadata r entry).metadataMap.find r = some entry := by
    rw [find_updateMetadata, if_pos ⟨h, rfl⟩]
  rw [getMetadataMap, OrderedMap.find_mapValues, hfind, Option.map_some, clone_of_not_ignore h]

/-! ## Frame conditions -/

@[simp] theorem lookupResource_updateMetadata (s : MetadataStore) (r : MonitoredResource)
    (entry : Metadata) (id : Bytes) :
    (s.updateMetadata r entry).lookupResource id = s.lookupResource id := by
  unfold updateMetadata
  split <;> rfl

@[simp] theorem lookupResource_purgeDeletedEntries (s : MetadataStore) (id : Bytes) :
    s.purgeDeletedEntries.lookupResource id = s.lookupResource id := rfl

@[simp] theorem getMetadataMap_updateResource (s : MetadataStore) (ids : List Bytes)
    (r : MonitoredResource) : (s.updateResource ids r).getMetadataMap = s.getMetadataMap := rfl

/-! ## Histories of calls -/

inductive Call where
  | updateMetadata (resource : MonitoredResource) (entry : Metadata)
  | updateResource (resourceIds : List Bytes) (resource : MonitoredResource)
  | purgeDeletedEntries
  deriving DecidableEq

def apply (s : MetadataStore) : Call → MetadataStore
  | .updateMetadata resource entry => s.updateMetadata resource entry
  | .updateResource resourceIds resource => s.updateResource resourceIds resource
  | .purgeDeletedEntries => s.purgeDeletedEntries

def after (s : MetadataStore) (history : List Call) : MetadataStore := history.foldl apply s

@[simp] theorem after_concat (s : MetadataStore) (h : List Call) (c : Call) :
    s.after (h ++ [c]) = (s.after h).apply c := by
  simp [after]

/-! ## The resource map -/

theorem lookupResource_updateResource (s : MetadataStore) (ids : List Bytes)
    (r : MonitoredResource) (id : Bytes) :
    (s.updateResource ids r).lookupResource id =
      (s.lookupResource id).or (if id ∈ ids then some r else none) := by
  have hloop : ∀ m : OrderedMap Bytes MonitoredResource,
      (ids.foldl (fun m id => m.emplace id r) m).find id =
        (m.find id).or (if id ∈ ids then some r else none) := by
    induction ids with
    | nil => intro m; simp
    | cons i ids ih =>
      intro m
      rw [List.foldl_cons, ih, OrderedMap.find_emplace]
      by_cases hi : id = i
      · subst hi
        cases m.find id <;> simp
      · simp [hi]
  exact hloop s.resourceMap

/-- The resource a call registers under an id. -/
def Call.registered (id : Bytes) : Call → Option MonitoredResource
  | .updateMetadata _ _ => none
  | .updateResource ids resource => if id ∈ ids then some resource else none
  | .purgeDeletedEntries => none

theorem registered_eq_some {id : Bytes} {c : Call} {r : MonitoredResource} :
    c.registered id = some r ↔ ∃ ids, c = .updateResource ids r ∧ id ∈ ids := by
  cases c with
  | updateMetadata resource entry => simp [Call.registered]
  | updateResource ids resource =>
    rw [Call.registered, Option.ite_none_right_eq_some, Option.some.injEq]
    constructor
    · rintro ⟨hid, rfl⟩
      exact ⟨ids, rfl, hid⟩
    · rintro ⟨_, heq, hid⟩
      rw [Call.updateResource.injEq] at heq
      exact ⟨heq.1 ▸ hid, heq.2⟩
  | purgeDeletedEntries => simp [Call.registered]

/-- An id keeps the resource that was registered first. -/
theorem lookupResource_after (s : MetadataStore) (h : List Call) (id : Bytes) :
    (s.after h).lookupResource id =
      (s.lookupResource id).or (h.findSome? (Call.registered id)) := by
  induction h generalizing s with
  | nil => simp [after]
  | cons c h ih =>
    rw [after, List.foldl_cons, ← after, ih, List.findSome?_cons]
    have hcall : (s.apply c).lookupResource id = (s.lookupResource id).or (c.registered id) := by
      cases c with
      | updateMetadata resource entry =>
        rw [apply, lookupResource_updateMetadata, Call.registered, Option.or_none]
      | updateResource ids resource => exact lookupResource_updateResource s ids resource id
      | purgeDeletedEntries =>
        rw [apply, lookupResource_purgeDeletedEntries, Call.registered, Option.or_none]
    rw [hcall, Option.or_assoc]
    cases c.registered id <;> rfl

/-- Calls that never register two resources under one id leave every one of them to be found. -/
theorem lookupResource_of_consistent {h : List Call} {id : Bytes} {r : MonitoredResource}
    (hconsistent : ∀ c ∈ h, ∀ r', c.registered id = some r' → r' = r)
    (hregistered : ∃ c ∈ h, c.registered id = some r) :
    (empty.after h).lookupResource id = some r := by
  have hempty : empty.lookupResource id = none := rfl
  rw [lookupResource_after, hempty, Option.none_or]
  exact findSome?_of_unique hconsistent hregistered

/-! ## The metadata map -/

/-- The entry a call records for `r`: `UpdateMetadata` for `r`, unless the entry is ignored. -/
def Call.recorded (r : MonitoredResource) : Call → Option Metadata
  | .updateMetadata resource entry =>
    if entry.ignore = false ∧ r = resource then some entry else none
  | _ => none

def Call.isPurge : Call → Bool
  | .purgeDeletedEntries => true
  | _ => false

/-- What a history leaves for `r`: its last recorded entry, unless that one is deleted and a
purge came after it. -/
def remembered (h : List Call) (r : MonitoredResource) : Option Metadata :=
  match latest (Call.recorded r) h with
  | none => none
  | some (entry, since) => if entry.isDeleted && since.any Call.isPurge then none else some entry

theorem remembered_concat (h : List Call) (c : Call) (r : MonitoredResource) :
    remembered (h ++ [c]) r =
      match c with
      | .updateMetadata resource entry =>
        if entry.ignore = false ∧ r = resource then some entry else remembered h r
      | .updateResource _ _ => remembered h r
      | .purgeDeletedEntries => (remembered h r).filter fun entry => !entry.isDeleted := by
  unfold remembered
  rw [latest_concat]
  cases c with
  | updateMetadata resource entry =>
    by_cases hr : entry.ignore = false ∧ r = resource
    · simp [Call.recorded, hr]
    · simp only [Call.recorded, if_neg hr, Option.map_none, Option.none_or]
      cases latest (Call.recorded r) h <;> simp [Call.isPurge]
  | updateResource ids resource =>
    simp only [Call.recorded, Option.map_none, Option.none_or]
    cases latest (Call.recorded r) h <;> simp [Call.isPurge]
  | purgeDeletedEntries =>
    simp only [Call.recorded, Option.map_none, Option.none_or]
    cases latest (Call.recorded r) h with
    | none => rfl
    | some p =>
      obtain ⟨entry, since⟩ := p
      cases hd : entry.isDeleted <;> cases ha : since.any Call.isPurge <;>
        simp [Call.isPurge, Option.filter, hd, ha]

/-- The metadata map refines the history of calls. -/
theorem find_after (h : List Call) (r : MonitoredResource) :
    (empty.after h).metadataMap.find r = remembered h r := by
  induction h using List.reverseRecOn with
  | nil => rfl
  | append_singleton h c ih =>
    rw [after_concat, remembered_concat, ← ih]
    cases c with
    | updateMetadata resource entry => exact find_updateMetadata _ resource r entry
    | updateResource ids resource => rfl
    | purgeDeletedEntries => exact find_purgeDeletedEntries _ r

/-- `entry` is the last entry recorded for `r`, and `since` is what was called after it. -/
def LastRecorded (h : List Call) (r : MonitoredResource) (entry : Metadata) (since : List Call) :
    Prop :=
  ∃ before, h = before ++ .updateMetadata r entry :: since ∧ entry.ignore = false ∧
    ∀ later, .updateMetadata r later ∈ since → later.ignore = true

theorem recorded_eq_some {r : MonitoredResource} {c : Call} {entry : Metadata} :
    c.recorded r = some entry ↔ c = .updateMetadata r entry ∧ entry.ignore = false := by
  cases c with
  | updateMetadata resource e =>
    simp only [Call.recorded, Option.ite_none_right_eq_some, Option.some.injEq,
      Call.updateMetadata.injEq]
    constructor
    · rintro ⟨⟨hi, rfl⟩, rfl⟩
      exact ⟨⟨rfl, rfl⟩, hi⟩
    · rintro ⟨⟨rfl, rfl⟩, hi⟩
      exact ⟨⟨hi, rfl⟩, rfl⟩
  | updateResource ids resource => simp [Call.recorded]
  | purgeDeletedEntries => simp [Call.recorded]

theorem recorded_eq_none {r : MonitoredResource} {c : Call} :
    c.recorded r = none ↔ ∀ e, c = .updateMetadata r e → e.ignore = true := by
  rw [← Option.not_isSome_iff_eq_none, Option.isSome_iff_exists]
  simp only [recorded_eq_some, not_exists, not_and, Bool.not_eq_false]

theorem latest_recorded {h : List Call} {r : MonitoredResource} {entry : Metadata}
    {since : List Call} :
    latest (Call.recorded r) h = some (entry, since) ↔ LastRecorded h r entry since := by
  rw [latest_eq_some]
  simp only [recorded_eq_some, recorded_eq_none]
  constructor
  · rintro ⟨before, c, rfl, ⟨rfl, hi⟩, hs⟩
    exact ⟨before, rfl, hi, fun later hl => hs _ hl later rfl⟩
  · rintro ⟨before, rfl, hi, hs⟩
    exact ⟨before, _, rfl, ⟨rfl, hi⟩, fun c hc e he => hs e (he ▸ hc)⟩

theorem remembered_eq_some {h : List Call} {r : MonitoredResource} {entry : Metadata} :
    remembered h r = some entry ↔
      ∃ since, LastRecorded h r entry since ∧
        ¬(entry.isDeleted = true ∧ .purgeDeletedEntries ∈ since) := by
  have hpurge : ∀ since : List Call,
      since.any Call.isPurge = true ↔ .purgeDeletedEntries ∈ since := by
    intro since
    rw [List.any_eq_true]
    constructor
    · rintro ⟨c, hc, hp⟩
      cases c <;> first | exact hc | simp [Call.isPurge] at hp
    · intro hc
      exact ⟨_, hc, rfl⟩
  simp only [← latest_recorded, ← hpurge, remembered]
  cases latest (Call.recorded r) h with
  | none => simp
  | some p =>
    obtain ⟨e, since⟩ := p
    simp only [Option.ite_none_left_eq_some, Bool.and_eq_true, Option.some.injEq, Prod.mk.injEq]
    constructor
    · rintro ⟨hn, rfl⟩
      exact ⟨since, ⟨rfl, rfl⟩, hn⟩
    · rintro ⟨_, ⟨rfl, rfl⟩, hn⟩
      exact ⟨hn, rfl⟩

theorem ignore_of_find_after {h : List Call} {r : MonitoredResource} {entry : Metadata}
    (hf : (empty.after h).metadataMap.find r = some entry) : entry.ignore = false := by
  rw [find_after, remembered_eq_some] at hf
  obtain ⟨_, ⟨_, _, hi, _⟩, _⟩ := hf
  exact hi

theorem find_getMetadataMap_after (h : List Call) (r : MonitoredResource) :
    (empty.after h).getMetadataMap.find r = remembered h r := by
  rw [getMetadataMap, OrderedMap.find_mapValues, ← find_after]
  cases hf : (empty.after h).metadataMap.find r with
  | none => rfl
  | some entry => rw [Option.map_some, clone_of_not_ignore (ignore_of_find_after hf)]

/-- The store refines its history: the map read back is decided by the last recorded entry of
every resource and the purges since, and the two kinds of answers do not interfere. -/
theorem store_refines_history (h : List Call) :
    (∀ r entry, (empty.after h).getMetadataMap.find r = some entry ↔
      ∃ since, LastRecorded h r entry since ∧
        ¬(entry.isDeleted = true ∧ .purgeDeletedEntries ∈ since)) ∧
    (∀ r entry, (empty.after h).metadataMap.find r = some entry → entry.ignore = false) ∧
    (∀ ids r, ((empty.after h).updateResource ids r).getMetadataMap =
      (empty.after h).getMetadataMap) ∧
    (∀ r entry id, ((empty.after h).updateMetadata r entry).lookupResource id =
      (empty.after h).lookupResource id) ∧
    (∀ id, (empty.after h).purgeDeletedEntries.lookupResource id =
      (empty.after h).lookupResource id) := by
  refine ⟨?_, ?_, ?_, ?_, ?_⟩
  · intro r entry
    rw [find_getMetadataMap_after, remembered_eq_some]
  · intro r entry hf
    exact ignore_of_find_after hf
  · intro ids r
    exact getMetadataMap_updateResource _ ids r
  · intro r entry id
    exact lookupResource_updateMetadata _ r entry id
  · intro id
    exact lookupResource_purgeDeletedEntries _ id

end MetadataStore

end MetadataAgent
