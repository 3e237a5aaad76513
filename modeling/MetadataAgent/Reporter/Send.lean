import MetadataAgent.Store
import MetadataAgent.Http
import MetadataAgent.Json.Text
import MetadataAgent.Lib.Batches

/-! # Sending metadata

`SendMetadata` walks the map, drops the entries that cannot be sent alone and posts the others in
requests limited by number and by size. The server answers every post from its position and its
content; `ToString` is a parameter. The requests are those of the greedy batches of the kept
entries, up to the first one that fails. -/
namespace MetadataAgent.MetadataReporter
open Lib Json
set_option autoImplicit false

structure Request where
  endpoint : Bytes
  headers : List (Bytes × Bytes)
  body : Bytes
  deriving DecidableEq

/-- What `client.post` and reading its response come to. -/
inductive PostResult where
  | response (status : ℤ) (statusMessage : Bytes)
  | failure (e : SystemError)

abbrev Server := ℕ → Request → PostResult

structure RequestTarget where
  endpoint : Bytes
  authHeader : Bytes
  userAgent : Bytes

structure RequestLimits where
  bytes : ℤ
  count : ℕ

/-- What the caller of a post gets: an error from 300 on. -/
def PostResult.outcome : PostResult → Except SystemError Unit
  | .response status statusMessage =>
    if status ≥ 300 then .error ⟨serverResponded status statusMessage⟩ else .ok ()
  | .failure e => .error e

def updateMetadataRequest (entries : List Value) : Value :=
  object [(lit "entries", some (array (entries.map some)))]

def metadataEntry (resource : MonitoredResource) (metadata : Metadata) : Value :=
  object [
    (lit "resource", some resource.toJSON),
    (lit "rawContentVersion", some (.string metadata.version)),
    (lit "rawContent", some metadata.metadata),
    (lit "state", some (.string (if metadata.isDeleted then lit "DELETED" else lit "ACTIVE"))),
    (lit "createTime", some (.string (rfc3339ToString metadata.createdAt))),
    (lit "collectTime", some (.string (rfc3339ToString metadata.collectedAt)))]

section Send
variable (toString : Value → Bytes) (target : RequestTarget) (limits : RequestLimits)

def request (entries : List Value) : Request :=
  let body := toString (updateMetadataRequest entries)
  { endpoint := target.endpoint
    headers := [
      (lit "User-Agent", target.userAgent),
      (lit "Content-Length", decimal body.length),
      (lit "Content-Type", lit "application/json"),
      (lit "Authorization", target.authHeader)]
    body := body }

def entrySize (entry : Value) : ℕ := (toString entry).length

def emptySize : ℤ := (toString (updateMetadataRequest [])).length

/-- One post after the `posted` ones: the requests posted by then, and how it went. -/
def sendMetadataRequest (server : Server) (posted : List Request) (entries : List Value) :
    List Request × Except SystemError Unit :=
  (posted ++ [request toString target entries],
    (server posted.length (request toString target entries)).outcome)

/-- The loop of `SendMetadata`, with the requests posted so far, the entries of the next one and
the running size. -/
def sendLoop (server : Server) (posted : List Request) (entries : List Value) (totalSize : ℤ) :
    List (MonitoredResource × Metadata) → List Request × Except SystemError Unit
  | [] =>
    if entries.isEmpty then (posted, .ok ())
    else sendMetadataRequest toString target server posted entries
  | (resource, metadata) :: rest =>
    let entry := metadataEntry resource metadata
    let size : ℤ := entrySize toString entry
    if emptySize toString + size > limits.bytes then
      sendLoop server posted entries totalSize rest
    else if entries.length = limits.count ∨ totalSize + size > limits.bytes then
      match sendMetadataRequest toString target server posted entries with
      | (posted, .ok ()) => sendLoop server posted [entry] (emptySize toString + size) rest
      | (posted, .error e) => (posted, .error e)
    else sendLoop server posted (entries ++ [entry]) (totalSize + size) rest

def sendMetadata (server : Server) (metadata : OrderedMap MonitoredResource Metadata) :
    List Request × Except SystemError Unit :=
  if metadata.isEmpty then ([], .ok ())
  else sendLoop toString target limits server [] [] (emptySize toString) metadata.entries

/-! ## The loop posts the greedy batches -/

/-- The entries that fit into a request of their own. -/
def keptEntries (metadata : List (MonitoredResource × Metadata)) : List Value :=
  (metadata.map fun e => metadataEntry e.1 e.2).filter fun entry =>
    decide (emptySize toString + entrySize toString entry ≤ limits.bytes)

def postAll (server : Server) (posted : List Request) :
    List (List Value) → List Request × Except SystemError Unit
  | [] => (posted, .ok ())
  | batch :: batches =>
    match sendMetadataRequest toString target server posted batch with
    | (posted, .ok ()) => postAll server posted batches
    | (posted, .error e) => (posted, .error e)

def batches (metadata : List (MonitoredResource × Metadata)) : List (List Value) :=
  batchesFrom limits.count (emptySize toString) limits.bytes (entrySize toString) []
    (keptEntries toString limits metadata)

theorem sendLoop_eq_postAll (server : Server) (posted : List Request) (pending : List Value)
    (metadata : List (MonitoredResource × Metadata)) :
    sendLoop toString target limits server posted pending
        (emptySize toString + total (entrySize toString) pending) metadata =
      postAll toString target server posted
        (batchesFrom limits.count (emptySize toString) limits.bytes (entrySize toString) pending
          (keptEntries toString limits metadata)) := by
  induction metadata generalizing posted pending with
  | nil =>
    have hkept : keptEntries toString limits [] = [] := rfl
    rw [hkept, sendLoop, batchesFrom]
    cases pending with
    | nil => rfl
    | cons a pending =>
      simp only [List.isEmpty_cons, Bool.false_eq_true, if_false, postAll]
      split <;> rename_i h <;> exact h
  | cons e metadata ih =>
    obtain ⟨resource, m⟩ := e
    by_cases hdrop : emptySize toString + entrySize toString (metadataEntry resource m) >
        limits.bytes
    · have hkept : keptEntries toString limits ((resource, m) :: metadata) =
          keptEntries toString limits metadata := by
        rw [keptEntries, List.map_cons, List.filter_cons_of_neg (by simpa using hdrop)]
        rfl
      rw [sendLoop, if_pos hdrop, hkept]
      exact ih posted pending
    · have hkept : keptEntries toString limits ((resource, m) :: metadata) =
          metadataEntry resource m :: keptEntries toString limits metadata := by
        rw [keptEntries, List.map_cons, List.filter_cons_of_pos (by simpa using hdrop)]
        rfl
      have hsingle := ih (posted ++ [request toString target pending]) [metadataEntry resource m]
      have hmore := ih posted (pending ++ [metadataEntry resource m])
      simp only [total_append, total_cons, total_nil, Nat.add_zero] at hsingle hmore
      push_cast at hmore
      rw [← add_assoc] at hmore
      rw [sendLoop, if_neg hdrop, hkept, batchesFrom]
      by_cases hfull : pending.length = limits.count ∨
          limits.bytes < emptySize toString + total (entrySize toString) pending +
            entrySize toString (metadataEntry resource m)
      · rw [if_pos hfull, if_pos hfull, postAll, sendMetadataRequest]
        cases (server posted.length (request toString target pending)).outcome with
        | ok u => exact hsingle
        | error e => rfl
      · rw [if_neg hfull, if_neg hfull]
        exact hmore

theorem sendMetadata_eq_postAll (server : Server)
    (metadata : OrderedMap MonitoredResource Metadata) :
    sendMetadata toString target limits server metadata =
      postAll toString target server [] (batches toString limits metadata.entries) := by
  have hloop := sendLoop_eq_postAll toString target limits server [] [] metadata.entries
  have hzero : emptySize toString + total (entrySize toString) [] = emptySize toString := by
    rw [total_nil]
    omega
  rw [hzero] at hloop
  rw [sendMetadata, batches, ← hloop]
  unfold OrderedMap.isEmpty
  cases metadata.entries with
  | nil => rfl
  | cons e es => rfl

theorem greedy_batches (hcount : 1 ≤ limits.count)
    (metadata : List (MonitoredResource × Metadata)) :
    Greedy limits.count (emptySize toString) limits.bytes (entrySize toString)
      (batches toString limits metadata) (keptEntries toString limits metadata) := by
  apply greedy_batchesFrom hcount
  intro entry hentry
  exact of_decide_eq_true (List.mem_filter.mp hentry).2

/-! ## What is posted -/

/-- The first `k` batches are accepted by the server. -/
def Accepted (server : Server) (batches : List (List Value)) (k : ℕ) : Prop :=
  ∀ j (hj : j < batches.length), j < k →
    (server j (request toString target batches[j])).outcome = .ok ()

theorem postAll_append (server : Server) (posted : List Request) (bs cs : List (List Value))
    (hok : ∀ j (hj : j < bs.length),
      (server (posted.length + j) (request toString target bs[j])).outcome = .ok ()) :
    postAll toString target server posted (bs ++ cs) =
      postAll toString target server (posted ++ bs.map (request toString target)) cs := by
  induction bs generalizing posted with
  | nil => rw [List.nil_append, List.map_nil, List.append_nil]
  | cons b bs ih =>
    have hfirst : (server posted.length (request toString target b)).outcome = .ok () :=
      hok 0 (by simp)
    have hrest := ih (posted ++ [request toString target b]) fun j hj => by
      have hj' := hok (j + 1) (by simpa using hj)
      rw [List.length_append, List.length_singleton, Nat.add_assoc, Nat.add_comm 1 j]
      exact hj'
    rw [List.cons_append, postAll, sendMetadataRequest, hfirst, List.map_cons]
    rw [List.append_assoc, List.singleton_append] at hrest
    exact hrest

theorem postAll_ok (server : Server) (bs : List (List Value))
    (hok : Accepted toString target server bs bs.length) :
    postAll toString target server [] bs = (bs.map (request toString target), .ok ()) := by
  have happend := postAll_append toString target server [] bs [] fun j hj => by
    rw [List.length_nil, Nat.zero_add]
    exact hok j hj hj
  rw [List.append_nil] at happend
  rw [happend]
  rfl

theorem postAll_error (server : Server) (bs : List (List Value)) {k : ℕ} (hk : k < bs.length)
    {e : SystemError} (hok : Accepted toString target server bs k)
    (herror : (server k (request toString target bs[k])).outcome = .error e) :
    postAll toString target server [] bs =
      ((bs.take (k + 1)).map (request toString target), .error e) := by
  have hlength : (bs.take k).length = k := List.length_take_of_le hk.le
  have hsplit : bs = bs.take k ++ bs[k] :: bs.drop (k + 1) := by
    rw [List.getElem_cons_drop hk, List.take_append_drop]
  have happend := postAll_append toString target server [] (bs.take k) (bs[k] :: bs.drop (k + 1))
    fun j hj => by
      rw [List.length_nil, Nat.zero_add, List.getElem_take]
      rw [hlength] at hj
      exact hok j (by omega) hj
  rw [← hsplit] at happend
  rw [happend, List.nil_append, postAll, sendMetadataRequest, List.length_map, hlength, herror,
    List.take_succ_eq_append_getElem hk, List.map_append]
  rfl

theorem mem_posted {server : Server} {metadata : OrderedMap MonitoredResource Metadata}
    {r : Request} (h : r ∈ (sendMetadata toString target limits server metadata).1) :
    ∃ b ∈ batches toString limits metadata.entries, r = request toString target b := by
  have hposted : ∀ (bs : List (List Value)) (posted : List Request),
      r ∈ (postAll toString target server posted bs).1 →
        r ∈ posted ∨ ∃ b ∈ bs, r = request toString target b := by
    intro bs
    induction bs with
    | nil => exact fun _ hr => .inl hr
    | cons b bs ih =>
      intro posted hr
      rw [postAll, sendMetadataRequest] at hr
      have hone : r ∈ posted ++ [request toString target b] ∨
          ∃ c ∈ bs, r = request toString target c := by
        cases houtcome : (server posted.length (request toString target b)).outcome with
        | ok u =>
          rw [houtcome] at hr
          exact ih _ hr
        | error e =>
          rw [houtcome] at hr
          exact .inl hr
      rcases hone with hr | ⟨c, hc, hr⟩
      · rcases List.mem_append.mp hr with hr | hr
        · exact .inl hr
        · exact .inr ⟨b, List.mem_cons_self, List.mem_singleton.mp hr⟩
      · exact .inr ⟨c, List.mem_cons_of_mem _ hc, hr⟩
  rw [sendMetadata_eq_postAll] at h
  simpa using hposted _ _ h

theorem sendMetadata_of_accepting {server : Server}
    (hserver : ∀ k r, (server k r).outcome = .ok ())
    (metadata : OrderedMap MonitoredResource Metadata) :
    (sendMetadata toString target limits server metadata).2 = .ok () := by
  rw [sendMetadata_eq_postAll, postAll_ok toString target server _ fun j _ _ => hserver j _]

end Send

def plainText : Value → Bytes := compactText (fun _ => lit "0.0") id

def acceptAll : Server := fun _ _ => .response 200 (lit "OK")

/-- Two active entries of 186 bytes each; an empty request has 14. -/
def twoEntries : OrderedMap MonitoredResource Metadata :=
  .ofList [
    (.ofLabels (lit "a") [], ⟨[], false, 0, 0, .object [], false⟩),
    (.ofLabels (lit "b") [], ⟨[], false, 0, 0, .object [], false⟩)]

end MetadataAgent.MetadataReporter
