import MetadataAgent.Reporter.Send

/-! # Reporter cycles and updaters

`ReportMetadata` with `MetadataReporterPurgeDeleted` on: a cycle copies the metadata map, sends
the copy and, if that returned normally, purges the deleted entries. Updater threads call
`UpdateMetadata` between any two of these steps. A run is a sequence of labels; what is purged is
decided by the labels of the cycle it ends. -/
namespace MetadataAgent.MetadataReporter
open Lib Json MetadataStore
set_option autoImplicit false

inductive CycleState where
  | waiting
  | collected (snapshot : OrderedMap MonitoredResource Metadata)
  | sent (snapshot : OrderedMap MonitoredResource Metadata)

def CycleState.snapshot : CycleState → Option (OrderedMap MonitoredResource Metadata)
  | .waiting => none
  | .collected snapshot | .sent snapshot => some snapshot

structure System where
  store : MetadataStore
  reporter : CycleState

inductive Label where
  | update (resource : MonitoredResource) (entry : Metadata)
  | collect
  | send (server : Server)
  | purge

def System.init : System := ⟨.empty, .waiting⟩

def Label.call : Label → Option Call
  | .update resource entry => some (.updateMetadata resource entry)
  | .collect => none
  | .send _ => none
  | .purge => some .purgeDeletedEntries

def calls (labels : List Label) : List Call := labels.filterMap Label.call

section Run
variable (toString : Value → Bytes) (target : RequestTarget) (limits : RequestLimits)

def step (s : System) : Label → Option System
  | .update resource entry => some { s with store := s.store.updateMetadata resource entry }
  | .collect =>
    match s.reporter with
    | .waiting => some { s with reporter := .collected s.store.getMetadataMap }
    | _ => none
  | .send server =>
    match s.reporter with
    | .collected snapshot =>
      match (sendMetadata toString target limits server snapshot).2 with
      | .ok () => some { s with reporter := .sent snapshot }
      | .error _ => some { s with reporter := .waiting }
    | _ => none
  | .purge =>
    match s.reporter with
    | .sent _ => some ⟨s.store.purgeDeletedEntries, .waiting⟩
    | _ => none

theorem step_collect {s t : System} (h : step toString target limits s .collect = some t) :
    t = ⟨s.store, .collected s.store.getMetadataMap⟩ := by
  rw [step] at h
  split at h
  · simpa using h.symm
  · cases h

theorem step_send {s t : System} {server : Server}
    (h : step toString target limits s (.send server) = some t) :
    ∃ snapshot, s.reporter = .collected snapshot ∧
      (t = ⟨s.store, .sent snapshot⟩ ∨ t = ⟨s.store, .waiting⟩) := by
  rw [step] at h
  split at h
  · rename_i snapshot hs
    refine ⟨snapshot, hs, ?_⟩
    split at h
    · exact .inl (by simpa using h.symm)
    · exact .inr (by simpa using h.symm)
  · cases h

theorem step_purge {s t : System} (h : step toString target limits s .purge = some t) :
    (∃ snapshot, s.reporter = .sent snapshot) ∧ t = ⟨s.store.purgeDeletedEntries, .waiting⟩ := by
  rw [step] at h
  split at h
  · rename_i snapshot hs
    exact ⟨⟨snapshot, hs⟩, by simpa using h.symm⟩
  · cases h

/-! ## The store and the snapshot of a run -/

theorem run_store (labels : List Label) (s : System)
    (h : run (step toString target limits) .init labels = some s) :
    s.store = empty.after (calls labels) := by
  refine run_induction (step toString target limits) (P := fun ls s => s.store =
    empty.after (calls ls)) rfl ?_ labels s h
  intro ls m l t _ hm hl
  have hcalls : calls (ls ++ [l]) = calls ls ++ l.call.toList := by
    rw [calls, List.filterMap_append]
    cases l <;> rfl
  rw [hcalls]
  cases l with
  | update resource entry =>
    rw [step, Option.some.injEq] at hl
    rw [← hl, Label.call, Option.toList_some, after_concat, ← hm]
    rfl
  | collect =>
    rw [step_collect toString target limits hl, Label.call, Option.toList_none, List.append_nil]
    exact hm
  | send server =>
    obtain ⟨snapshot, _, rfl | rfl⟩ := step_send toString target limits hl
    · rw [Label.call, Option.toList_none, List.append_nil]
      exact hm
    · rw [Label.call, Option.toList_none, List.append_nil]
      exact hm
  | purge =>
    rw [(step_purge toString target limits hl).2, Label.call, Option.toList_some, after_concat,
      ← hm]
    rfl

/-- The labels of a cycle still going on: what was called when it began, and what came since. -/
def CycleBegan (labels before mid : List Label) : Prop :=
  labels = before ++ .collect :: mid ∧ .collect ∉ mid ∧ .purge ∉ mid

/-- The snapshot in the reporter's hands is the map of the store when its cycle began. -/
theorem run_snapshot (labels : List Label) (s : System)
    (h : run (step toString target limits) .init labels = some s) :
    ∀ snapshot, s.reporter.snapshot = some snapshot →
      ∃ before mid, CycleBegan labels before mid ∧
        snapshot = (empty.after (calls before)).getMetadataMap := by
  refine run_induction (step toString target limits) (P := fun ls s =>
    ∀ snapshot, s.reporter.snapshot = some snapshot → ∃ before mid, CycleBegan ls before mid ∧
      snapshot = (empty.after (calls before)).getMetadataMap) ?_ ?_ labels s h
  · intro snapshot hs
    cases hs
  intro ls m l t hrun hm hl snapshot hsnapshot
  have hextend : ∀ before mid, CycleBegan ls before mid → l ≠ .collect → l ≠ .purge →
      CycleBegan (ls ++ [l]) before (mid ++ [l]) := by
    rintro before mid ⟨rfl, hcollect, hpurge⟩ hl₁ hl₂
    refine ⟨by simp, ?_, ?_⟩
    · simpa [hcollect] using Ne.symm hl₁
    · simpa [hpurge] using Ne.symm hl₂
  cases l with
  | update resource entry =>
    rw [step, Option.some.injEq] at hl
    subst hl
    obtain ⟨before, mid, hbegan, hmap⟩ := hm snapshot hsnapshot
    exact ⟨before, _, hextend before mid hbegan (by simp) (by simp), hmap⟩
  | collect =>
    rw [step_collect toString target limits hl] at hsnapshot
    rw [CycleState.snapshot, Option.some.injEq] at hsnapshot
    refine ⟨ls, [], ⟨rfl, by simp, by simp⟩, ?_⟩
    rw [← hsnapshot, run_store toString target limits ls m hrun]
  | send server =>
    obtain ⟨taken, htaken, rfl | rfl⟩ := step_send toString target limits hl
    · rw [CycleState.snapshot, Option.some.injEq] at hsnapshot
      have hmap : m.reporter.snapshot = some snapshot := by
        rw [htaken, ← hsnapshot]
        rfl
      obtain ⟨before, mid, hbegan, hmap⟩ := hm snapshot hmap
      exact ⟨before, _, hextend before mid hbegan (by simp) (by simp), hmap⟩
    · cases hsnapshot
  | purge =>
    rw [(step_purge toString target limits hl).2] at hsnapshot
    cases hsnapshot

/-! ## What a purge erases -/

/-- Whenever a purge erases an entry, it is a deleted one and it was in the snapshot that has just
been sent. -/
def ErasedReported (labels : List Label) : Prop :=
  ∀ before after, labels = before ++ .purge :: after →
    ∀ s, run (step toString target limits) .init before = some s →
      ∀ r entry, s.store.metadataMap.find r = some entry →
        s.store.purgeDeletedEntries.metadataMap.find r = none →
          entry.isDeleted = true ∧
            ∃ snapshot, s.reporter = .sent snapshot ∧ snapshot.find r = some entry

/-- In every cycle that ends with a purge: if the last entry recorded for a resource since the
cycle began is a deletion, then the store held the same entry already when it began. -/
def DeletionsCollected (labels : List Label) : Prop :=
  ∀ before mid after, labels = before ++ .collect :: mid ++ .purge :: after → .collect ∉ mid →
    ∀ r entry since, LastRecorded (calls mid) r entry since → entry.isDeleted = true →
      remembered (calls before) r = some entry

theorem remembered_append (h updates : List Call) (hupdates : ∀ c ∈ updates, c.isPurge = false)
    (r : MonitoredResource) :
    remembered (h ++ updates) r =
      ((latest (Call.recorded r) updates).map Prod.fst).or (remembered h r) := by
  induction updates using List.reverseRecOn with
  | nil => rw [List.append_nil]; rfl
  | append_singleton us c ih =>
    have hus := ih fun d hd => hupdates d (List.mem_append_left _ hd)
    have hc : c.isPurge = false := hupdates c (by simp)
    rw [← List.append_assoc, remembered_concat, latest_concat, hus]
    cases c with
    | updateMetadata resource entry =>
      by_cases hr : entry.ignore = false ∧ r = resource
      · simp [Call.recorded, hr]
      · simp [Call.recorded, hr, Function.comp_def]
    | updateResource ids resource => simp [Call.recorded, Function.comp_def]
    | purgeDeletedEntries => cases hc

theorem calls_append (ls ms : List Label) : calls (ls ++ ms) = calls ls ++ calls ms :=
  List.filterMap_append

theorem calls_cycle {before mid : List Label} :
    calls (before ++ .collect :: mid) = calls before ++ calls mid := by
  rw [calls_append]
  rfl

theorem isPurge_of_mem_calls {mid : List Label} (hpurge : .purge ∉ mid) :
    ∀ c ∈ calls mid, c.isPurge = false := by
  intro c hc
  obtain ⟨l, hl, hcall⟩ := List.mem_filterMap.mp hc
  cases l with
  | update resource entry =>
    rw [Label.call, Option.some.injEq] at hcall
    rw [← hcall]
    rfl
  | collect => cases hcall
  | send server => cases hcall
  | purge => exact absurd hl hpurge

theorem erased_iff {s : MetadataStore} {r : MonitoredResource} {entry : Metadata}
    (hfind : s.metadataMap.find r = some entry) :
    s.purgeDeletedEntries.metadataMap.find r = none ↔ entry.isDeleted = true := by
  rw [find_purgeDeletedEntries, hfind]
  cases hd : entry.isDeleted <;> simp [Option.filter, hd]

theorem find_at_purge {ls before mid : List Label} {s : System}
    (hrun : run (step toString target limits) .init ls = some s)
    (hbegan : CycleBegan ls before mid) (r : MonitoredResource) :
    s.store.metadataMap.find r =
      ((latest (Call.recorded r) (calls mid)).map Prod.fst).or (remembered (calls before) r) := by
  obtain ⟨rfl, _, hpurge⟩ := hbegan
  rw [run_store toString target limits _ s hrun, find_after, calls_cycle,
    remembered_append _ _ (isPurge_of_mem_calls hpurge)]

/-- A purge comes after a send, and the map that was sent is what the store held when the cycle
began. -/
theorem run_purge {ls after : List Label} {t : System}
    (h : run (step toString target limits) .init (ls ++ .purge :: after) = some t) :
    ∃ s snapshot before mid, run (step toString target limits) .init ls = some s ∧
      s.reporter = .sent snapshot ∧ CycleBegan ls before mid ∧
      ∀ r, snapshot.find r = remembered (calls before) r := by
  rw [run_append, Option.bind_eq_some_iff] at h
  obtain ⟨s, hs, hrest⟩ := h
  rw [run, Option.bind_eq_some_iff] at hrest
  obtain ⟨u, hu, _⟩ := hrest
  obtain ⟨⟨snapshot, hsent⟩, _⟩ := step_purge toString target limits hu
  have htaken : s.reporter.snapshot = some snapshot := by
    rw [hsent]
    rfl
  obtain ⟨before, mid, hbegan, hmap⟩ := run_snapshot toString target limits ls s hs snapshot htaken
  refine ⟨s, snapshot, before, mid, hs, hsent, hbegan, fun r => ?_⟩
  rw [hmap, find_getMetadataMap_after]

/-- No unreported deletion is purged in a run exactly when no cycle of it purges a deletion that
came after the snapshot. -/
theorem erased_reported_iff (labels : List Label) (t : System)
    (h : run (step toString target limits) .init labels = some t) :
    ErasedReported toString target limits labels ↔ DeletionsCollected labels := by
  constructor
  · intro hreported before mid after hlabels hcollect r entry since hlast hdeleted
    subst hlabels
    obtain ⟨s, snapshot, before', mid', hs, hsent, hbegan, hfind⟩ :=
      run_purge toString target limits h
    obtain ⟨rfl, rfl⟩ := last_split_unique hcollect hbegan.2.1 hbegan.1
    have hentry : s.store.metadataMap.find r = some entry := by
      rw [find_at_purge toString target limits hs hbegan r, latest_recorded.mpr hlast]
      rfl
    obtain ⟨_, sentMap, hsent', hmem⟩ :=
      hreported _ after rfl s hs r entry hentry ((erased_iff hentry).mpr hdeleted)
    rw [hsent, CycleState.sent.injEq] at hsent'
    rw [← hfind r, hsent']
    exact hmem
  · intro hcollected ls after hlabels s hs r entry hentry herased
    subst hlabels
    obtain ⟨s', snapshot, before, mid, hs', hsent, hbegan, hfind⟩ :=
      run_purge toString target limits h
    obtain rfl : s' = s := Option.some.inj (hs'.symm.trans hs)
    have hdeleted : entry.isDeleted = true := (erased_iff hentry).mp herased
    refine ⟨hdeleted, snapshot, hsent, ?_⟩
    rw [hfind r]
    rw [find_at_purge toString target limits hs hbegan r] at hentry
    cases hl : latest (Call.recorded r) (calls mid) with
    | none =>
      rw [hl] at hentry
      exact hentry
    | some last =>
      obtain ⟨e, since⟩ := last
      rw [hl, Option.map_some, Option.some_or, Option.some.injEq] at hentry
      rw [← hentry] at hdeleted ⊢
      have hsplit : ls ++ .purge :: after = before ++ .collect :: mid ++ .purge :: after := by
        rw [hbegan.1]
      exact hcollected before mid after hsplit hbegan.2.1 r e since (latest_recorded.mp hl) hdeleted

end Run

def pod : MonitoredResource := .ofLabels (lit "k8s_pod") []
def podActive : Metadata := ⟨[], false, 0, 0, .object [], false⟩
def podDeleted : Metadata := ⟨[], true, 0, 1, .object [], false⟩

def deletedInCycle : List Label :=
  [.update pod podActive, .collect, .send acceptAll, .update pod podDeleted]

theorem deleted_in_cycle_unreported :
    (run (step plainText ⟨[], [], []⟩ ⟨386, 1000⟩) .init (deletedInCycle ++ [.purge])).isSome ∧
      ¬ErasedReported plainText ⟨[], [], []⟩ ⟨386, 1000⟩ (deletedInCycle ++ [.purge]) := by
  have hsend (m : OrderedMap MonitoredResource Metadata) :
      (sendMetadata plainText ⟨[], [], []⟩ ⟨386, 1000⟩ acceptAll m).2 = .ok () :=
    sendMetadata_of_accepting _ _ _ (fun _ _ => rfl) m
  have hrun : run (step plainText ⟨[], [], []⟩ ⟨386, 1000⟩) .init deletedInCycle =
      some ⟨(empty.updateMetadata pod podActive).updateMetadata pod podDeleted,
        .sent (empty.updateMetadata pod podActive).getMetadataMap⟩ := by
    simp [run, step, deletedInCycle, System.init, hsend]
  refine ⟨?_, fun h => ?_⟩
  · rw [run_append, hrun]
    rfl
  · obtain ⟨_, snapshot, hsent, hmem⟩ :=
      h deletedInCycle [] rfl _ hrun pod podDeleted (by decide +kernel) (by decide +kernel)
    rw [CycleState.sent.injEq] at hsent
    rw [← hsent] at hmem
    exact absurd hmem (by decide +kernel)

def deletedBeforeCycle : List Label :=
  [.update pod podActive, .update pod podDeleted, .collect, .send acceptAll, .purge]

theorem deleted_before_cycle_reported :
    ErasedReported plainText ⟨[], [], []⟩ ⟨386, 1000⟩ deletedBeforeCycle := by
  have hsend (m : OrderedMap MonitoredResource Metadata) :
      (sendMetadata plainText ⟨[], [], []⟩ ⟨386, 1000⟩ acceptAll m).2 = .ok () :=
    sendMetadata_of_accepting _ _ _ (fun _ _ => rfl) m
  have hrun : ∃ t, run (step plainText ⟨[], [], []⟩ ⟨386, 1000⟩) .init deletedBeforeCycle =
      some t := by
    simp [run, step, deletedBeforeCycle, System.init, hsend]
  obtain ⟨t, ht⟩ := hrun
  refine (erased_reported_iff plainText ⟨[], [], []⟩ ⟨386, 1000⟩ deletedBeforeCycle t ht).mpr ?_
  intro before mid after hlabels hcollect r entry since hlast _
  -- the only cycle has no update after its snapshot
  have hmid : calls mid = [] := by
    rcases before with _ | ⟨a, _ | ⟨b, _ | ⟨c, before⟩⟩⟩
    · simp [deletedBeforeCycle] at hlabels
    · simp [deletedBeforeCycle] at hlabels
    · rcases mid with _ | ⟨d, _ | ⟨e, mid⟩⟩
      · rfl
      · simp [deletedBeforeCycle] at hlabels
        simp [calls, ← hlabels.2.2.1, Label.call]
      · simp [deletedBeforeCycle] at hlabels
    · simp only [deletedBeforeCycle, List.cons_append, List.append_assoc, List.cons.injEq]
        at hlabels
      have hsecond : Label.collect ∈ [Label.send acceptAll, .purge] := by
        rw [hlabels.2.2.2]
        simp
      simp at hsecond
  rw [hmid] at hlast
  obtain ⟨_, hnil, _⟩ := hlast
  simp at hnil

end MetadataAgent.MetadataReporter
