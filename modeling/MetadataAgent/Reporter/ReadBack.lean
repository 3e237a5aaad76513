import MetadataAgent.Reporter.Size
import MetadataAgent.Serving

/-! # What the service is told

The service that the reporter posts to parses the bodies of the requests. It finds the kept entries
of the snapshot, each once and in the order of the map, and every entry says of which resource it
is and what is known of it. -/
namespace MetadataAgent.MetadataReporter
open Lib Json
open MetadataApiServer (ValidTexts toJSON_eq toJSON_injective ordered_toJSON)
set_option autoImplicit false

/-! ## Times -/

theorem validateUtf8_ascii {s : Bytes} (hs : ∀ b ∈ s, b ≤ 0x7f) : validateUtf8 s = true := by
  rw [validateUtf8]
  induction s with
  | nil => rfl
  | cons b s ih =>
    rw [utf8From, if_pos (hs b List.mem_cons_self)]
    exact ih fun c hc => hs c (List.mem_cons_of_mem b hc)

theorem ascii_of_all {s : Bytes} (h : s.all (fun b => decide (b ≤ 0x7f)) = true) :
    ∀ b ∈ s, b ≤ 0x7f :=
  fun b hb => of_decide_eq_true (List.all_eq_true.mp h b hb)

theorem ascii_digits {n : ℕ} {b : UInt8} (hb : b ∈ digits n) : b ≤ 0x7f := by
  have hdigit := isDecimal_digits hb
  rw [Json.isDecimal, Bool.and_eq_true, decide_eq_true_eq, decide_eq_true_eq] at hdigit
  exact le_trans hdigit.2 (by decide)

theorem ascii_decimal {n : ℤ} {b : UInt8} (hb : b ∈ decimal n) : b ≤ 0x7f := by
  cases n with
  | ofNat n => exact ascii_digits hb
  | negSucc n =>
    rcases List.mem_append.mp hb with hb | hb
    · rw [List.mem_singleton.mp hb]
      decide
    · exact ascii_digits hb

theorem ascii_zeroFilled {width : ℕ} {n : ℤ} {b : UInt8} (hb : b ∈ zeroFilled width n) :
    b ≤ 0x7f := by
  rw [zeroFilled, List.leftpad] at hb
  rcases List.mem_append.mp hb with hb | hb
  · rw [List.eq_of_mem_replicate hb]
    decide
  · exact ascii_decimal hb

theorem validateUtf8_time (t : Timestamp) : validateUtf8 (rfc3339ToString t) = true := by
  refine validateUtf8_ascii ?_
  rw [rfc3339ToString, Tm.format]
  simp only [List.forall_mem_append]
  exact ⟨⟨⟨⟨⟨⟨⟨⟨⟨⟨⟨⟨⟨fun b => ascii_decimal, ascii_of_all rfl⟩, fun b => ascii_zeroFilled⟩,
    ascii_of_all rfl⟩, fun b => ascii_zeroFilled⟩, ascii_of_all rfl⟩, fun b => ascii_zeroFilled⟩,
    ascii_of_all rfl⟩, fun b => ascii_zeroFilled⟩, ascii_of_all rfl⟩, fun b => ascii_zeroFilled⟩,
    ascii_of_all rfl⟩, fun b => ascii_zeroFilled⟩, ascii_of_all rfl⟩

/-! ## Entries -/

theorem metadataEntry_eq (resource : MonitoredResource) (metadata : Metadata) :
    metadataEntry resource metadata = .object [
      (lit "collectTime", .string (rfc3339ToString metadata.collectedAt)),
      (lit "createTime", .string (rfc3339ToString metadata.createdAt)),
      (lit "rawContent", metadata.metadata),
      (lit "rawContentVersion", .string metadata.version),
      (lit "resource", resource.toJSON),
      (lit "state", .string (if metadata.isDeleted then lit "DELETED" else lit "ACTIVE"))] := rfl

/-- What can be said in JSON: all texts are valid, and the content is not nested too deep. -/
structure Sendable (toDouble : LongDouble → LongDouble) (e : MonitoredResource × Metadata) :
    Prop where
  resource : ValidTexts e.1
  version : validateUtf8 e.2.version = true
  ordered : e.2.metadata.Ordered
  content : EncodableAt validateUtf8 toDouble 3 e.2.metadata

section Entries
variable {toDouble : LongDouble → LongDouble}

theorem encodableAt_toJSON {r : MonitoredResource} (hr : ValidTexts r) :
    EncodableAt validateUtf8 toDouble 3 r.toJSON := by
  have hnames : validateUtf8 (lit "labels") = true ∧ validateUtf8 (lit "type") = true := by
    decide +kernel
  rw [toJSON_eq]
  refine encodableAt_object (by decide) fun f hf => ?_
  rcases List.mem_cons.mp hf with rfl | hf
  · refine ⟨hnames.1, encodableAt_object (by decide) fun f hf => ?_⟩
    obtain ⟨e, he, rfl⟩ := List.mem_map.mp hf
    exact ⟨(hr.labels e he).1, encodableAt_string (hr.labels e he).2 (by decide)⟩
  · rw [List.mem_singleton.mp hf]
    exact ⟨hnames.2, encodableAt_string hr.type (by decide)⟩

theorem encodableAt_entry {e : MonitoredResource × Metadata} (he : Sendable toDouble e) :
    EncodableAt validateUtf8 toDouble 2 (metadataEntry e.1 e.2) := by
  have hnames : ∀ name ∈ [lit "collectTime", lit "createTime", lit "rawContent",
      lit "rawContentVersion", lit "resource", lit "state"], validateUtf8 name = true := by
    decide +kernel
  have hstates : validateUtf8 (lit "DELETED") = true ∧ validateUtf8 (lit "ACTIVE") = true := by
    decide +kernel
  have hstate : validateUtf8 (if e.2.isDeleted then lit "DELETED" else lit "ACTIVE") = true := by
    cases e.2.isDeleted
    · exact hstates.2
    · exact hstates.1
  rw [metadataEntry_eq]
  refine encodableAt_object (by decide) fun f hf => ⟨?_, ?_⟩
  · exact hnames f.1 (List.mem_map_of_mem hf)
  · simp only [List.mem_cons, List.not_mem_nil, or_false] at hf
    rcases hf with rfl | rfl | rfl | rfl | rfl | rfl
    · exact encodableAt_string (validateUtf8_time _) (by decide)
    · exact encodableAt_string (validateUtf8_time _) (by decide)
    · exact he.content
    · exact encodableAt_string he.version (by decide)
    · exact encodableAt_toJSON he.resource
    · exact encodableAt_string hstate (by decide)

theorem ordered_entry {e : MonitoredResource × Metadata} (he : Sendable toDouble e) :
    (metadataEntry e.1 e.2).Ordered := by
  have hnames : [lit "collectTime", lit "createTime", lit "rawContent", lit "rawContentVersion",
      lit "resource", lit "state"].Pairwise fun a b => a < b := by decide
  rw [metadataEntry_eq, Value.Ordered, orderedFields_iff]
  refine ⟨?_, fun f hf => ?_⟩
  · exact List.pairwise_map.mp hnames
  · simp only [List.mem_cons, List.not_mem_nil, or_false] at hf
    rcases hf with rfl | rfl | rfl | rfl | rfl | rfl
    · trivial
    · trivial
    · exact he.ordered
    · trivial
    · exact ordered_toJSON e.1
    · trivial

/-- An entry is about one resource, and tells its version, its content and its state. -/
theorem metadataEntry_injective {r r' : MonitoredResource} {m m' : Metadata}
    (h : metadataEntry r m = metadataEntry r' m') :
    r = r' ∧ m.version = m'.version ∧ m.metadata = m'.metadata ∧ m.isDeleted = m'.isDeleted ∧
      rfc3339ToString m.createdAt = rfc3339ToString m'.createdAt ∧
      rfc3339ToString m.collectedAt = rfc3339ToString m'.collectedAt := by
  rw [metadataEntry_eq, metadataEntry_eq] at h
  simp only [Value.object.injEq, List.cons.injEq, Prod.mk.injEq, Value.string.injEq, true_and,
    and_true] at h
  obtain ⟨hcollected, hcreated, hcontent, hversion, hresource, hstate⟩ := h
  refine ⟨toJSON_injective hresource, hversion, hcontent, ?_, hcreated, hcollected⟩
  revert hstate
  cases m.isDeleted <;> cases m'.isDeleted <;> decide

end Entries

/-! ## Requests -/

/-- The batches that have been posted in the end; all of them, if no post failed. -/
theorem postAll_prefix (toString : Value → Bytes) (target : RequestTarget) (server : Server)
    (posted : List Request) (bs : List (List Value)) :
    ∃ sent rest, bs = sent ++ rest ∧
      (postAll toString target server posted bs).1 = posted ++ sent.map (request toString target) ∧
      ((postAll toString target server posted bs).2 = .ok () → rest = []) := by
  induction bs generalizing posted with
  | nil => exact ⟨[], [], rfl, (List.append_nil posted).symm, fun _ => rfl⟩
  | cons b bs ih =>
    rw [postAll, sendMetadataRequest]
    cases houtcome : (server posted.length (request toString target b)).outcome with
    | ok u =>
      obtain ⟨sent, rest, rfl, hposted, hall⟩ := ih (posted ++ [request toString target b])
      refine ⟨b :: sent, rest, rfl, ?_, hall⟩
      rw [hposted, List.append_assoc, List.map_cons]
      rfl
    | error e =>
      refine ⟨[b], bs, rfl, rfl, fun h => ?_⟩
      cases h

section Service
variable {g : YajlGen} {formatDouble : LongDouble → Bytes} {toDouble : LongDouble → LongDouble}
  {y : Yajl} {Between InsideMap Failed : y.State → Prop}

theorem fromString_request (hg : g.Documented validateUtf8)
    (hy : y.Documented Between InsideMap Failed) (hfinish : y.Finishes Between)
    (hreads : ReadsTexts y validateUtf8 formatDouble toDouble) (target : RequestTarget)
    {b : List Value} (hordered : ∀ v ∈ b, v.Ordered)
    (hb : ∀ v ∈ b, EncodableAt validateUtf8 toDouble 2 v) :
    fromString y (request (Value.bytes g formatDouble toDouble) target b).body =
      .ok (some (updateMetadataRequest b)) := by
  have hname : validateUtf8 (lit "entries") = true := by decide +kernel
  rw [request, updateMetadataRequest_eq]
  refine fromString_bytes hg hy hfinish hreads ?_ (encodable_of_at ?_)
  · rw [Value.Ordered, orderedFields_iff]
    refine ⟨List.pairwise_singleton _ _, fun f hf => ?_⟩
    rw [List.mem_singleton.mp hf, Value.Ordered, orderedElements_iff]
    exact hordered
  · refine encodableAt_object (by decide) fun f hf => ?_
    rw [List.mem_singleton.mp hf]
    exact ⟨hname, encodableAt_array (by decide) hb⟩

end Service

end MetadataAgent.MetadataReporter
