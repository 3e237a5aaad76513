import MetadataAgent.TimeRoundTrip
import MetadataAgent.Reporter.Send

/-! # The creation time that is sent

An object's creation time is read from the API of the master and written again into the entry that
is sent. Before the epoch, the second that is written is the next one, with a negative fraction. -/
namespace MetadataAgent
open Lib Json MetadataReporter
set_option autoImplicit false

/-- The `createTime` of an entry that is sent. -/
def createTime (entry : Value) : Except Exception Bytes := do
  getString (← asObject entry) (lit "createTime")

theorem createTime_metadataEntry (resource : MonitoredResource) (metadata : Metadata) :
    createTime (metadataEntry resource metadata) = .ok (rfc3339ToString metadata.createdAt) := by
  have hfield : ∀ fields : List (Bytes × Value), ∀ s : Bytes,
      lookup (lit "createTime") fields = some (.string s) →
        createTime (.object (OrderedMap.ofList fields).entries) = .ok s := by
    intro fields s hlookup
    have hfind : lookup (lit "createTime") (OrderedMap.ofList fields).entries = some (.string s) :=
      (OrderedMap.find_ofList fields _).trans hlookup
    unfold createTime
    rw [asObject_eq_ok.mpr rfl]
    exact getString_eq_ok.mpr hfind
  exact hfield _ _ rfl

namespace UtcTimestamp
variable (s : UtcTimestamp)

def padded : UtcTimestamp where
  tm := s.tm
  fraction := s.fraction ++ List.replicate (9 - s.fraction.length) 0
  valid := s.valid
  year_nonneg := s.year_nonneg
  year_lt := s.year_lt
  digit_lt := by
    intro d hd
    rcases List.mem_append.mp hd with hmem | hmem
    · exact s.digit_lt d hmem
    · rw [List.eq_of_mem_replicate hmem]
      omega
  length_le := by
    have hlength := s.length_le
    rw [List.length_append, List.length_replicate]
    omega

theorem length_padded : s.padded.fraction.length = 9 := by
  have hlength := s.length_le
  show (s.fraction ++ List.replicate (9 - s.fraction.length) 0).length = 9
  rw [List.length_append, List.length_replicate]
  omega

theorem nanoseconds_padded : s.padded.nanoseconds = s.nanoseconds := by
  rw [nanoseconds, s.length_padded, Nat.sub_self, pow_zero, mul_one]
  exact radixValue_append_zeros _ _

theorem instant_padded : s.padded.instant = s.instant := by
  rw [instant, s.nanoseconds_padded]
  rfl

/-- Before the epoch, a fraction is written with a sign. -/
theorem count_dash_toString (hlow : (-2 ^ 63 : ℤ) ≤ s.instant) (hbefore : s.instant < 0)
    (hfraction : s.nanoseconds ≠ 0) : 2 < (rfc3339ToString s.instant).count 0x2d := by
  have hlt := s.nanoseconds_lt
  obtain ⟨hseconds, -⟩ := s.seconds_bounds hlow (by omega)
  have htdiv : s.instant.tdiv 1000000000 = timegm s.tm + 1 := by
    rw [← neg_neg s.instant, Int.neg_tdiv, Int.tdiv_eq_ediv_of_nonneg (by omega)]
    unfold instant at *
    omega
  have hbound : timegm s.tm + 1 ≤ 0 := by
    unfold instant at hbefore
    omega
  obtain ⟨hyear, hyear'⟩ := year_gmtime (show -9223372037 ≤ timegm s.tm + 1 by omega) (by omega)
  have hdate : ((gmtime (timegm s.tm + 1)).format).count 0x2d = 2 := by
    rw [format_eq_text hyear]
    exact ((valid_gmtime _).leap.hasForm (by omega) hyear').count_dash
  have hrest : ∃ k : ℕ, s.instant - (timegm s.tm + 1) * 1000000000 = Int.negSucc k := by
    refine ⟨(1000000000 - s.nanoseconds - 1 : ℕ), ?_⟩
    rw [Int.negSucc_eq]
    unfold instant
    omega
  obtain ⟨k, hk⟩ := hrest
  have hsign : 0 < (zeroFilled 9 (Int.negSucc k)).count 0x2d := by
    rw [List.count_pos_iff]
    exact List.mem_append_right _ List.mem_cons_self
  unfold rfc3339ToString
  simp only [htdiv, hk, List.count_append, hdate]
  omega

theorem count_dash_text : s.text.count 0x2d = 2 := by
  have hletters : (lit "YYYY-MM-DDThh:mm:ss").count 0x2d = 2 := by decide
  have hpoint : (lit ".").count 0x2d = 0 := by decide
  have hZ : (lit "Z").count 0x2d = 0 := by decide
  have hdigits : (List.replicate s.fraction.length (0x6e : UInt8)).count 0x2d = 0 := by
    rw [List.count_replicate]
    rfl
  rw [s.hasForm_text.count_dash, form]
  split_ifs
  · rw [List.nil_append, List.count_append, hletters, hZ]
  · rw [List.count_append, List.count_append, List.count_append, hletters, hpoint, hdigits, hZ]

end UtcTimestamp

/-! ## The creation time of an object -/

/-- The `createTime` sent for an object created at `s` is `s` with nine digits of a second. -/
def CreateTimeUnchanged (mktime : Tm → ℤ) (now : ℤ) (resource : MonitoredResource)
    (metadata : Metadata) (s : UtcTimestamp) : Prop :=
  createTime (metadataEntry resource
    { metadata with createdAt := rfc3339FromString mktime (utcOffset mktime now) s.text }) =
      .ok s.padded.text

/-- The creation time passes unchanged if it is not before the epoch or has no fraction, and only
then. -/
theorem createTime_unchanged_iff {mktime : Tm → ℤ} (hmktime : OffsetFromUtc mktime) (now : ℤ)
    (resource : MonitoredResource) (metadata : Metadata) (s : UtcTimestamp)
    (hlow : (-2 ^ 63 : ℤ) ≤ s.instant) (hhigh : s.instant < (2 ^ 63 : ℤ)) :
    CreateTimeUnchanged mktime now resource metadata s ↔ 0 ≤ s.instant ∨ s.nanoseconds = 0 := by
  have hread : rfc3339FromString mktime (utcOffset mktime now) s.text = s.instant :=
    s.fromString_text (utcOffset_eq hmktime now s.valid) hlow hhigh
  unfold CreateTimeUnchanged
  rw [createTime_metadataEntry, hread, Except.ok.injEq]
  constructor
  · intro hsame
    by_contra hbefore
    rw [not_or, not_le] at hbefore
    have hdashes := s.count_dash_toString hlow hbefore.1 hbefore.2
    rw [hsame, s.padded.count_dash_text] at hdashes
    omega
  · intro hcondition
    rw [← s.nanoseconds_padded] at hcondition
    rw [← s.instant_padded] at hlow hhigh hcondition ⊢
    exact s.padded.toString_instant s.length_padded hlow hhigh hcondition

/-! ## Half a second -/

/-- `1969-12-31T23:59:59.5Z` -/
def beforeEpoch : UtcTimestamp where
  tm := ⟨1969, 12, 31, 23, 59, 59⟩
  fraction := [5]
  valid := ⟨⟨by decide, by decide, by decide, by decide⟩, by decide, by decide, by decide,
    by decide, by decide, by decide⟩
  year_nonneg := by decide
  year_lt := by decide
  digit_lt := by decide
  length_le := by decide

theorem half_second_before_epoch_malformed :
    OffsetFromUtc timegm ∧ beforeEpoch.text = lit "1969-12-31T23:59:59.5Z" ∧
      (-2 ^ 63 : ℤ) ≤ beforeEpoch.instant ∧ beforeEpoch.instant < (2 ^ 63 : ℤ) ∧
      createTime (metadataEntry ⟨lit "k8s_pod", .empty⟩
        { Metadata.ignored with
          createdAt := rfc3339FromString timegm (utcOffset timegm 0) beforeEpoch.text }) =
        .ok (lit "1970-01-01T00:00:00.-500000000Z") ∧
      ¬CreateTimeUnchanged timegm 0 ⟨lit "k8s_pod", .empty⟩ Metadata.ignored beforeEpoch := by
  have hwritten : rfc3339ToString (rfc3339FromString timegm (utcOffset timegm 0)
      beforeEpoch.text) = lit "1970-01-01T00:00:00.-500000000Z" := by decide +kernel
  have hsent := createTime_metadataEntry ⟨lit "k8s_pod", .empty⟩ { Metadata.ignored with
    createdAt := rfc3339FromString timegm (utcOffset timegm 0) beforeEpoch.text }
  rw [hwritten] at hsent
  refine ⟨⟨0, fun _ _ => (sub_zero _).symm⟩, by decide +kernel, by decide +kernel,
    by decide +kernel, hsent, ?_⟩
  unfold CreateTimeUnchanged
  rw [hsent, Except.ok.injEq]
  decide +kernel

/-- `1969-12-31T23:59:59Z`, on a machine an hour east of Greenwich. -/
theorem whole_second_before_epoch_unchanged :
    CreateTimeUnchanged (fun tm => timegm tm - 3600) 0 ⟨lit "k8s_pod", .empty⟩ Metadata.ignored
      { beforeEpoch with fraction := [], digit_lt := by simp, length_le := by simp } := by
  have hmktime : OffsetFromUtc (fun tm => timegm tm - 3600) := ⟨3600, fun _ _ => rfl⟩
  exact (createTime_unchanged_iff hmktime 0 _ _ _ (by decide +kernel) (by decide +kernel)).mpr
    (Or.inr rfl)

end MetadataAgent
