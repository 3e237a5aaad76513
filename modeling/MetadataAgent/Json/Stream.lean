import MetadataAgent.Json.Pushdown
import MetadataAgent.Lib.Iteration

/-! # Parsing an input stream

`ParseStream` reads blocks until the stream reports its end. A stream has two more bits than the one
for its end, and a read on a stream that is not good changes neither its end nor its bytes. A read
that fails delivers nothing, so that only whole blocks come before a failure. -/
namespace MetadataAgent.Json
open Lib
set_option autoImplicit false

/-! ## Input streams -/

/-- What happens when there are no more bytes: the end of the file, or a read that fails. -/
inductive ReadEnd where
  | endOfFile
  | failure
  deriving DecidableEq

/-- `std::istream`: its three bits, and the bytes that are left in front of its end or failure. -/
structure InputStream where
  eof : Bool
  fail : Bool
  bad : Bool
  left : Bytes
  ending : ReadEnd
  deriving DecidableEq

namespace InputStream

def good (s : InputStream) : Bool := !s.eof && !s.fail && !s.bad

/-- `std::istream::read`, with the bytes that `gcount` counts: none, if the buffer throws. -/
def read (s : InputStream) (n : ℕ) : Bytes × InputStream :=
  if s.good then
    if n ≤ s.left.length then (s.left.take n, { s with left := s.left.drop n })
    else
      match s.ending with
      | .endOfFile => (s.left, { s with eof := true, fail := true, left := [] })
      | .failure => ([], { s with bad := true, left := [] })
  else ([], { s with fail := true })

/-- The bytes that reads of `n` still deliver: all that are left, or the whole blocks of them. -/
def delivers (s : InputStream) (n : ℕ) : Bytes :=
  if s.good then
    match s.ending with
    | .endOfFile => s.left
    | .failure => s.left.take (s.left.length / n * n)
  else []

/-- A good stream with these bytes and this end. -/
def opened (left : Bytes) (ending : ReadEnd) : InputStream := ⟨false, false, false, left, ending⟩

theorem eq_opened_of_good {s : InputStream} (h : s.good = true) : s = opened s.left s.ending := by
  obtain ⟨eof, fail, bad, left, ending⟩ := s
  simp only [good, Bool.and_eq_true, Bool.not_eq_true'] at h
  obtain ⟨⟨rfl, rfl⟩, rfl⟩ := h
  rfl

theorem delivers_opened (left : Bytes) (ending : ReadEnd) (n : ℕ) :
    (opened left ending).delivers n =
      match ending with
      | .endOfFile => left
      | .failure => left.take (left.length / n * n) :=
  if_pos rfl

/-- Whole blocks, one after the other. -/
theorem take_blocks {left : Bytes} {n : ℕ} (hn : 0 < n) (h : n ≤ left.length) :
    left.take n ++ (left.drop n).take ((left.drop n).length / n * n) =
      left.take (left.length / n * n) := by
  have hblocks : left.length / n = (left.length - n) / n + 1 := Nat.div_eq_sub_div hn h
  rw [List.length_drop, hblocks, Nat.add_one_mul, Nat.add_comm, List.take_add]

theorem read_opened_full {left : Bytes} {n : ℕ} (ending : ReadEnd) (h : n ≤ left.length) :
    (opened left ending).read n = (left.take n, opened (left.drop n) ending) := by
  unfold read
  rw [if_pos (show (opened left ending).good = true from rfl)]
  exact if_pos h

theorem read_opened_short {left : Bytes} {n : ℕ} (ending : ReadEnd) (h : ¬ n ≤ left.length) :
    (opened left ending).read n =
      match ending with
      | .endOfFile => (left, ⟨true, true, false, [], ending⟩)
      | .failure => ([], ⟨false, false, true, [], ending⟩) := by
  unfold read
  rw [if_pos (show (opened left ending).good = true from rfl)]
  cases ending with
  | endOfFile => exact if_neg h
  | failure => exact if_neg h

/-- Every byte is delivered by one read. -/
theorem read_append_delivers (s : InputStream) {n : ℕ} (hn : 0 < n) :
    (s.read n).1 ++ (s.read n).2.delivers n = s.delivers n := by
  cases hgood : s.good with
  | false =>
    have hread : s.read n = ([], { s with fail := true }) := by
      rw [read, hgood]
      rfl
    have hfailed : ({ s with fail := true } : InputStream).good = false := by simp [good]
    rw [hread, delivers, delivers, hgood, hfailed]
    rfl
  | true =>
    rw [eq_opened_of_good hgood]
    by_cases hfull : n ≤ s.left.length
    · rw [read_opened_full s.ending hfull, delivers_opened, delivers_opened]
      cases s.ending with
      | endOfFile => exact List.take_append_drop n s.left
      | failure => exact take_blocks hn hfull
    · rw [read_opened_short s.ending hfull, delivers_opened]
      cases s.ending with
      | endOfFile => exact List.append_nil s.left
      | failure =>
        have hnone : s.left.length / n = 0 := Nat.div_eq_of_lt (not_le.mp hfull)
        simp only [hnone, Nat.zero_mul, List.take_zero]
        rfl

/-- The stream has failed and does not say that it is at its end. -/
def Stuck (s : InputStream) : Prop := s.eof = false ∧ s.good = false

theorem read_stuck {s : InputStream} (h : s.Stuck) (n : ℕ) :
    (s.read n).1 = [] ∧ (s.read n).2.Stuck := by
  obtain ⟨heof, hbad⟩ := h
  unfold read
  rw [if_neg (by simp [hbad])]
  exact ⟨rfl, heof, by simp [good]⟩

end InputStream

/-! ## The loop -/

section Loop
variable (y : Yajl) {γ : Type} (callback : UserCallback γ Exception)

/-- The loop's state: the stream, the parser, the blocks that yajl was given and their bytes. -/
structure ReadState (y : Yajl) (γ : Type) where
  stream : InputStream
  parser : ParseState y γ
  handed : List Bytes
  totalBytesConsumed : ℕ

/-- A test of the loop in `ParseStream` and the turn that follows. -/
def parseTurn (s : ReadState y γ) : (ReadState y γ × Except Exception ℕ) ⊕ ReadState y γ :=
  if s.stream.eof then .inl (s, .ok s.totalBytesConsumed)
  else
    let data := (s.stream.read kMax).1
    let stream := (s.stream.read kMax).2
    match parseBlock y callback s.parser data with
    | (parser, some e) =>
      .inl (⟨stream, parser, s.handed ++ [data], s.totalBytesConsumed⟩, .error e)
    | (parser, none) =>
      .inr ⟨stream, parser, s.handed ++ [data], s.totalBytesConsumed + data.length⟩

def ReadState.start (parser : ParseState y γ) (stream : InputStream) : ReadState y γ :=
  ⟨stream, parser, [], 0⟩

/-- A parser that has not stopped on anything it was given. -/
structure OpenParser (user : γ) where
  parser : ParseState y γ
  earlier : Bytes
  reached : yajlParse y callback (ParseState.init y user) earlier = (parser, none)

/-- The parser as it is constructed. -/
def OpenParser.init (user : γ) : OpenParser y callback user := ⟨ParseState.init y user, [], rfl⟩

/-- The loop is left, and yajl was given the bytes that the reads delivered, each of them once. -/
def EndsHavingHanded {user : γ} (p : OpenParser y callback user) (stream : InputStream) : Prop :=
  ∃ n final outcome,
    iterate (parseTurn y callback) n (.start y p.parser stream) = some (final, outcome) ∧
      final.handed.flatten ++ final.stream.delivers kMax = stream.delivers kMax

variable {y callback}

theorem parseBlock_of_none {p q : ParseState y γ} {block : Bytes}
    (h : yajlParse y callback p block = (q, none)) : parseBlock y callback p block = (q, none) := by
  rw [parseBlock, h]
  rfl

theorem turn_of_eof {s : ReadState y γ} (h : s.stream.eof = true) :
    parseTurn y callback s = .inl (s, .ok s.totalBytesConsumed) :=
  if_pos h

theorem turn_of_none {s : ReadState y γ} (heof : s.stream.eof = false) {data : Bytes}
    {stream : InputStream} (hread : s.stream.read kMax = (data, stream)) {q : ParseState y γ}
    (h : yajlParse y callback s.parser data = (q, none)) :
    GoesTo (parseTurn y callback) s
      ⟨stream, q, s.handed ++ [data], s.totalBytesConsumed + data.length⟩ := by
  rw [GoesTo, parseTurn, if_neg (by simp [heof]), hread]
  simp only [parseBlock_of_none h]

theorem turn_of_some {s : ReadState y γ} (heof : s.stream.eof = false) {data : Bytes}
    {stream : InputStream} (hread : s.stream.read kMax = (data, stream)) {q : ParseState y γ}
    {stop : Stop} (h : yajlParse y callback s.parser data = (q, some stop)) :
    parseTurn y callback s = .inl (⟨stream, q, s.handed ++ [data], s.totalBytesConsumed⟩,
      .error (stop.exception (y.errorText q.state data))) := by
  have hblock : parseBlock y callback s.parser data =
      (q, some (stop.exception (y.errorText q.state data))) := by
    rw [parseBlock, h]
    rfl
  rw [parseTurn, if_neg (by simp [heof]), hread]
  simp only [hblock]

/-- The blocks that yajl was given and what reads still deliver are the bytes of the stream. -/
def Handed (bytes : Bytes) (s : ReadState y γ) : Prop :=
  s.handed.flatten ++ s.stream.delivers kMax = bytes

theorem handed_read {bytes : Bytes} {s : ReadState y γ} (h : Handed bytes s) :
    (s.handed ++ [(s.stream.read kMax).1]).flatten ++ (s.stream.read kMax).2.delivers kMax =
      bytes := by
  rw [List.flatten_append, List.flatten_singleton, List.append_assoc,
    s.stream.read_append_delivers (by decide)]
  exact h

theorem handed_of_iterate {bytes : Bytes} {n : ℕ} {s final : ReadState y γ}
    {outcome : Except Exception ℕ} (hs : Handed bytes s)
    (h : iterate (parseTurn y callback) n s = some (final, outcome)) : Handed bytes final := by
  refine iterate_keeps (P := Handed bytes) (Q := fun r => Handed bytes r.1) ?_ ?_ hs h
  · intro s t hs hgo
    rw [GoesTo, parseTurn] at hgo
    split at hgo
    · cases hgo
    · simp only at hgo
      split at hgo
      · cases hgo
      · cases hgo
        exact handed_read hs
  · intro s r hs hend
    rw [parseTurn] at hend
    split at hend
    · cases hend
      exact hs
    · simp only at hend
      split at hend
      · cases hend
        exact handed_read hs
      · cases hend

theorem endsHavingHanded_iff {user : γ} (p : OpenParser y callback user) (stream : InputStream) :
    EndsHavingHanded y callback p stream ↔
      ∃ n r, iterate (parseTurn y callback) n (.start y p.parser stream) = some r := by
  constructor
  · rintro ⟨n, final, outcome, h, _⟩
    exact ⟨n, _, h⟩
  · rintro ⟨n, ⟨final, outcome⟩, h⟩
    have hstart : Handed (stream.delivers kMax) (ReadState.start y p.parser stream) := rfl
    exact ⟨n, final, outcome, h, handed_of_iterate hstart h⟩

/-! ## Streams that are strings -/

theorem parseStream_of_short {p q : ParseState y γ} {left : Bytes} (hshort : left.length < kMax)
    (h : yajlParse y callback p left = (q, none)) :
    parseStream y callback p left = (q, .ok left.length) := by
  rw [parseStream, readBlocks, if_pos hshort, runUntil_cons_none _ (parseBlock_of_none h)]
  rfl

theorem parseStream_of_full {p q : ParseState y γ} {left : Bytes} (hfull : ¬ left.length < kMax)
    (h : yajlParse y callback p (left.take kMax) = (q, none)) :
    parseStream y callback p left = ((parseStream y callback q (left.drop kMax)).1,
      (parseStream y callback q (left.drop kMax)).2.map fun total => kMax + total) := by
  have hlength : kMax + (left.drop kMax).length = left.length := by
    rw [List.length_drop]
    omega
  rw [parseStream, readBlocks, if_neg hfull, runUntil_cons_none _ (parseBlock_of_none h),
    parseStream]
  rcases runUntil (parseBlock y callback) q (readBlocks (left.drop kMax)) with ⟨t, _ | e⟩
  · simp only [Except.map, hlength]
  · rfl

theorem parseStream_of_stop {p q : ParseState y γ} {left block : Bytes} {rest : List Bytes}
    (hblocks : readBlocks left = block :: rest) {stop : Stop}
    (h : yajlParse y callback p block = (q, some stop)) :
    parseStream y callback p left =
      (q, .error (stop.exception (y.errorText q.state block))) := by
  have hblock : parseBlock y callback p block =
      (q, some (stop.exception (y.errorText q.state block))) := by
    rw [parseBlock, h]
    rfl
  rw [parseStream, hblocks, runUntil_cons_some _ hblock]

/-- On a good stream that ends with its file the loop does what the parser does with a string. -/
theorem iterate_opened_endOfFile {left : Bytes} {s : ReadState y γ}
    (hs : s.stream = .opened left .endOfFile) :
    ∃ n final, iterate (parseTurn y callback) n s =
        some (final, (parseStream y callback s.parser left).2.map fun total =>
          s.totalBytesConsumed + total) ∧
      final.parser = (parseStream y callback s.parser left).1 := by
  have heof : s.stream.eof = false := by
    rw [hs]
    rfl
  induction left using readBlocks.induct generalizing s with
  | case1 left hshort =>
    have hread := InputStream.read_opened_short .endOfFile (not_le.mpr hshort)
    have hblocks : readBlocks left = [left] := by
      rw [readBlocks, if_pos hshort]
    rw [← hs] at hread
    rcases hparse : yajlParse y callback s.parser left with ⟨q, _ | stop⟩
    · have hgo := turn_of_none heof hread hparse
      rw [parseStream_of_short hshort hparse]
      have hend : iterate (parseTurn y callback) 1 ⟨⟨true, true, false, [], .endOfFile⟩, q,
          s.handed ++ [left], s.totalBytesConsumed + left.length⟩ = some (_, .ok _) :=
        iterate_succ_of_result (turn_of_eof rfl) 0
      exact ⟨2, _, (iterate_succ_of_goesTo hgo 1).trans hend, rfl⟩
    · rw [parseStream_of_stop hblocks hparse]
      exact ⟨1, _, iterate_succ_of_result (turn_of_some heof hread hparse) 0, rfl⟩
  | case2 left hfull ih =>
    have hread := InputStream.read_opened_full .endOfFile (not_lt.mp hfull)
    have hblocks : readBlocks left = left.take kMax :: readBlocks (left.drop kMax) := by
      rw [readBlocks, if_neg hfull]
    rw [← hs] at hread
    rcases hparse : yajlParse y callback s.parser (left.take kMax) with ⟨q, _ | stop⟩
    · have hgo := turn_of_none heof hread hparse
      obtain ⟨n, final, hn, hparser⟩ := ih (s := ⟨.opened (left.drop kMax) .endOfFile, q,
        s.handed ++ [left.take kMax], s.totalBytesConsumed + (left.take kMax).length⟩) rfl rfl
      rw [parseStream_of_full hfull hparse]
      refine ⟨n + 1, final, ?_, hparser⟩
      rw [iterate_succ_of_goesTo hgo, hn, List.length_take, Nat.min_eq_left (not_lt.mp hfull)]
      cases (parseStream y callback q (left.drop kMax)).2 with
      | error e => rfl
      | ok total => simp only [Except.map, Nat.add_assoc]
    · rw [parseStream_of_stop hblocks hparse]
      exact ⟨1, _, iterate_succ_of_result (turn_of_some heof hread hparse) 0, rfl⟩

/-! ## Which streams end -/

/-- A stream that failed is read for ever, without a byte. -/
theorem never_ends_of_stuck {s : ReadState y γ} (hs : s.stream.Stuck) (n : ℕ) :
    iterate (parseTurn y callback) n s = none := by
  refine iterate_eq_none (P := fun s => s.stream.Stuck) ?_ hs n
  intro s hs
  obtain ⟨hdata, hstuck⟩ := InputStream.read_stuck hs kMax
  have hnone : yajlParse y callback s.parser (s.stream.read kMax).1 = (s.parser, none) := by
    rw [hdata]
    rfl
  exact ⟨_, turn_of_none hs.1 rfl hnone, hstuck⟩

/-- Before it fails, a good stream can only end with an error of the text. -/
theorem ends_of_failing_iff {left : Bytes} {s : ReadState y γ}
    (hs : s.stream = .opened left .failure) :
    (∃ n r, iterate (parseTurn y callback) n s = some r) ↔
      (yajlParse y callback s.parser (left.take (left.length / kMax * kMax))).2 ≠ none := by
  have heof : s.stream.eof = false := by
    rw [hs]
    rfl
  induction left using readBlocks.induct generalizing s with
  | case1 left hshort =>
    have hread := InputStream.read_opened_short .failure (not_le.mpr hshort)
    rw [← hs] at hread
    have hparse : yajlParse y callback s.parser [] = (s.parser, none) := rfl
    have hblocks : left.length / kMax = 0 := Nat.div_eq_of_lt hshort
    rw [ends_iff_of_goesTo (turn_of_none heof hread hparse), hblocks, Nat.zero_mul, List.take_zero,
      hparse]
    refine iff_of_false ?_ fun h => h rfl
    rintro ⟨n, r, hn⟩
    rw [never_ends_of_stuck ⟨rfl, rfl⟩] at hn
    cases hn
  | case2 left hfull ih =>
    have hread := InputStream.read_opened_full .failure (not_lt.mp hfull)
    rw [← hs] at hread
    rw [← InputStream.take_blocks (by decide) (not_lt.mp hfull)]
    rcases hparse : yajlParse y callback s.parser (left.take kMax) with ⟨q, _ | stop⟩
    · have hgo := turn_of_none heof hread hparse
      have hrest : yajlParse y callback s.parser (left.take kMax ++
          (left.drop kMax).take ((left.drop kMax).length / kMax * kMax)) =
            yajlParse y callback q
              ((left.drop kMax).take ((left.drop kMax).length / kMax * kMax)) :=
        runUntil_append_none _ hparse
      rw [ends_iff_of_goesTo hgo, hrest]
      exact ih rfl rfl
    · have hstop : yajlParse y callback s.parser (left.take kMax ++
          (left.drop kMax).take ((left.drop kMax).length / kMax * kMax)) = (q, some stop) :=
        runUntil_append_some _ hparse
      rw [hstop]
      exact iff_of_true (ends_of_result (turn_of_some heof hread hparse)) (by simp)

/-- `ParseStream` ends on a stream that is at its end, and on a good one whose bytes end with the
file or stop the parser before the block in which a read fails. -/
theorem parseStream_ends_iff {user : γ} (p : OpenParser y callback user) (stream : InputStream) :
    EndsHavingHanded y callback p stream ↔
      stream.eof = true ∨ (stream.good = true ∧
        (stream.ending = .endOfFile ∨
          (yajlParse y callback p.parser (stream.delivers kMax)).2 ≠ none)) := by
  rw [endsHavingHanded_iff]
  cases heof : stream.eof with
  | true =>
    have hend : parseTurn y callback (.start y p.parser stream) = .inl _ := turn_of_eof heof
    exact iff_of_true (ends_of_result hend) (Or.inl rfl)
  | false =>
    cases hgood : stream.good with
    | true =>
      have hopened := InputStream.eq_opened_of_good hgood
      cases hending : stream.ending with
      | endOfFile =>
        rw [hending] at hopened
        obtain ⟨n, final, hn, -⟩ :=
          iterate_opened_endOfFile (s := .start y p.parser stream) hopened
        exact iff_of_true ⟨n, _, hn⟩ (Or.inr ⟨rfl, Or.inl rfl⟩)
      | failure =>
        rw [hending] at hopened
        rw [ends_of_failing_iff (s := .start y p.parser stream) hopened, hopened,
          InputStream.delivers_opened]
        simp [ReadState.start, InputStream.opened]
    | false =>
      refine iff_of_false ?_ (by simp)
      rintro ⟨n, r, hn⟩
      rw [never_ends_of_stuck (s := .start y p.parser stream) ⟨heof, hgood⟩] at hn
      cases hn

end Loop

/-! ## A path that is a directory -/

/-- A stream opened on a directory is good, and its first read fails. -/
def directory : InputStream := .opened [] .failure

def keepingParser : OpenParser pushdown keepValue ([] : List Value) := .init pushdown keepValue []

theorem directory_never_ends :
    directory.good = true ∧ ¬ EndsHavingHanded pushdown keepValue keepingParser directory := by
  refine ⟨rfl, ?_⟩
  rintro ⟨n, final, outcome, h, _⟩
  have hstop := (ends_of_failing_iff (s := .start pushdown keepingParser.parser directory) rfl).mp
    ⟨n, _, h⟩
  exact hstop rfl

end MetadataAgent.Json
