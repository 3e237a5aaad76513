import MetadataAgent.Reporter.Send
import MetadataAgent.Json.Exchange

/-! # The size of a request

The body of a request is its entries with a comma between two of them. The running size of the loop
leaves the commas out, and so the bodies stay within the limit when every greedy batch has room for
them too. What `yajl_gen` does with a call that it rejects is not documented, so the entries are
such that none is rejected. -/
namespace MetadataAgent.MetadataReporter
open Lib Json
set_option autoImplicit false

/-! ## The text of a request -/

theorem updateMetadataRequest_eq (entries : List Value) :
    updateMetadataRequest entries = .object [(lit "entries", .array entries)] := by
  have hentries : array (entries.map some) = .array entries := by
    rw [array, List.filterMap_map]
    exact congrArg Value.array List.filterMap_some
  rw [updateMetadataRequest, hentries]
  rfl

/-- An entry lies within the object of the request and its list. -/
theorem fits_request {toDouble : LongDouble → LongDouble} {entries : List Value} :
    Fits validateUtf8 toDouble 1 (updateMetadataRequest entries) ↔
      ∀ entry ∈ entries, Fits validateUtf8 toDouble 3 entry := by
  have hname : validateUtf8 (lit "entries") = true := by decide +kernel
  rw [updateMetadataRequest_eq, fits_object]
  simp only [List.mem_singleton, forall_eq, hname, true_and, fits_array]
  exact ⟨fun h => h.2.2, fun h => ⟨by decide, by decide, h⟩⟩

theorem compactText_request (formatDouble : LongDouble → Bytes)
    (toDouble : LongDouble → LongDouble) (entries : List Value) :
    compactText formatDouble toDouble (updateMetadataRequest entries) =
      lit "\x7b\"entries\":[" ++
        ([0x2c].intercalate (entries.map (compactText formatDouble toDouble)) ++ lit "]\x7d") := by
  rw [updateMetadataRequest_eq, compactText_object, List.map_cons, List.map_nil, compactText_array,
    intercalate_cons, List.flatMap_nil, List.append_nil]
  simp [quote, escapeByte, lit]

section Size
variable {g : YajlGen} {formatDouble : LongDouble → Bytes} {toDouble : LongDouble → LongDouble}

/-- The text of a request: the texts of its entries, one comma between two of them. -/
theorem bytes_request (hg : g.Documented validateUtf8) {entries : List Value}
    (h : ∀ entry ∈ entries, Fits validateUtf8 toDouble 3 entry) :
    (updateMetadataRequest entries).bytes g formatDouble toDouble =
      lit "\x7b\"entries\":[" ++
        ([0x2c].intercalate (entries.map (Value.bytes g formatDouble toDouble)) ++
          lit "]\x7d") := by
  have hentries : entries.map (Value.bytes g formatDouble toDouble) =
      entries.map (compactText formatDouble toDouble) :=
    List.map_congr_left fun entry hentry => bytes_of_fits hg ((h entry hentry).outside (by decide))
  rw [hentries, bytes_of_fits hg (fits_request.mpr h), compactText_request]

theorem length_body (hg : g.Documented validateUtf8) (target : RequestTarget) {batch : List Value}
    (h : ∀ entry ∈ batch, Fits validateUtf8 toDouble 3 entry) :
    let toString := Value.bytes g formatDouble toDouble
    ((request toString target batch).body.length : ℤ) =
      emptySize toString + total (entrySize toString) batch + (batch.length - 1 : ℕ) := by
  intro toString
  have hsum : (batch.map (List.length ∘ Value.bytes g formatDouble toDouble)).sum =
      total (entrySize toString) batch := rfl
  have hempty : toString (updateMetadataRequest []) = _ :=
    bytes_request hg fun _ hentry => absurd hentry List.not_mem_nil
  have hbody : (request toString target batch).body = _ := bytes_request hg h
  rw [emptySize, hempty, hbody]
  simp only [List.length_append, length_intercalate, List.map_map, List.length_map, hsum,
    List.map_nil, List.length_nil, List.sum_nil]
  push_cast
  omega

/-- The bodies stay within the limit exactly when every greedy batch of the kept entries also
leaves room for its commas. -/
theorem body_within_limit_iff (hg : g.Documented validateUtf8) (target : RequestTarget)
    (limits : RequestLimits) (hcount : 1 ≤ limits.count)
    (metadata : OrderedMap MonitoredResource Metadata)
    (hfits : ∀ entry ∈ keptEntries (Value.bytes g formatDouble toDouble) limits metadata.entries,
      Fits validateUtf8 toDouble 3 entry) :
    let toString := Value.bytes g formatDouble toDouble
    (∀ server, ∀ r ∈ (sendMetadata toString target limits server metadata).1,
      (r.body.length : ℤ) ≤ limits.bytes) ↔
    ∀ bs, Greedy limits.count (emptySize toString) limits.bytes (entrySize toString) bs
        (keptEntries toString limits metadata.entries) →
      ∀ b ∈ bs, emptySize toString + total (entrySize toString) b + (b.length - 1 : ℕ) ≤
        limits.bytes := by
  intro toString
  have hbatch : ∀ b ∈ batches toString limits metadata.entries, ∀ entry ∈ b,
      Fits validateUtf8 toDouble 3 entry := by
    intro b hb entry hentry
    refine hfits entry ?_
    rw [← (greedy_batches toString limits hcount metadata.entries).flatten_eq]
    exact List.mem_flatten_of_mem hb hentry
  constructor
  · intro hbody bs hbs b hb
    obtain rfl : bs = batches toString limits metadata.entries := hbs.eq_batchesFrom
    have haccepted : Accepted toString target (fun _ _ => .response 200 [])
        (batches toString limits metadata.entries)
        (batches toString limits metadata.entries).length := fun _ _ _ => rfl
    have hposted : request toString target b ∈
        (sendMetadata toString target limits (fun _ _ => .response 200 []) metadata).1 := by
      rw [sendMetadata_eq_postAll, postAll_ok toString target _ _ haccepted]
      exact List.mem_map_of_mem hb
    have hlength := hbody _ _ hposted
    rw [length_body hg target (hbatch b hb)] at hlength
    exact hlength
  · intro hroom server r hr
    obtain ⟨b, hb, rfl⟩ := mem_posted toString target limits hr
    rw [length_body hg target (hbatch b hb)]
    exact hroom _ (greedy_batches toString limits hcount metadata.entries) b hb

end Size

/-- The serializer, with a formatter that writes halves. -/
abbrev plainBytes : Value → Bytes := Value.bytes (yajlGen validateUtf8) formatHalf toHalf

theorem fits_twoEntries (limits : RequestLimits) :
    ∀ entry ∈ keptEntries plainBytes limits twoEntries.entries,
      Fits validateUtf8 toHalf 3 entry := by
  have hall : ∀ e ∈ twoEntries.entries, Fits validateUtf8 toHalf 3 (metadataEntry e.1 e.2) := by
    unfold Fits Writable
    decide +kernel
  intro entry hentry
  obtain ⟨e, he, rfl⟩ := List.mem_map.mp (List.mem_of_mem_filter hentry)
  exact hall e he

theorem two_entries_over_limit :
    (yajlGen validateUtf8).Documented validateUtf8 ∧
      (∀ entry ∈ keptEntries plainBytes ⟨386, 1000⟩ twoEntries.entries,
        Fits validateUtf8 toHalf 3 entry) ∧
      ∃ r ∈ (sendMetadata plainBytes ⟨[], [], []⟩ ⟨386, 1000⟩ acceptAll twoEntries).1,
        386 < r.body.length :=
  ⟨yajlGen_documented validateUtf8, fits_twoEntries _, by decide +kernel⟩

theorem two_entries_within_limit :
    (∀ entry ∈ keptEntries plainBytes ⟨387, 1000⟩ twoEntries.entries,
      Fits validateUtf8 toHalf 3 entry) ∧
    ∀ server, ∀ r ∈ (sendMetadata plainBytes ⟨[], [], []⟩ ⟨387, 1000⟩ server twoEntries).1,
      (r.body.length : ℤ) ≤ 387 := by
  refine ⟨fits_twoEntries _, (body_within_limit_iff (yajlGen_documented validateUtf8) ⟨[], [], []⟩
    ⟨387, 1000⟩ (by decide) twoEntries (fits_twoEntries _)).mpr ?_⟩
  intro bs hbs
  rw [hbs.eq_batchesFrom]
  decide +kernel

end MetadataAgent.MetadataReporter
