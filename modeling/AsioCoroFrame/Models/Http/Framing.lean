import AsioCoroFrame.Core.Lists
import AsioCoroFrame.Models.Http.Connection

/-!
# Header framing and header parsing

One component finds the end of a header by its first empty line, the other one
reads lines until one has no colon. The parser never reads past that end, and
stops right there exactly when the request line has its two spaces and no line
in between lacks a colon. The bytes behind the end are subtracted from the
announced length in wrapping arithmetic.
-/

namespace AsioCoroFrame.Http

/-! ## The lines in front of the empty line -/

/-- The lines of a header whose empty line is found at `i`, the request line first. -/
def headerLines (buf : Bytes) (i : Nat) : List Bytes := (buf.take (i + 1)).splitOn lf

/-- The request line has two spaces, and every line between it and the empty line a colon. -/
def Regular (lines : List Bytes) : Prop :=
  2 ≤ (lines.headD []).count sp ∧ ∀ l ∈ lines.tail, colon ∈ l

/-- The bytes that `parse_request` has taken off a buffer. -/
def consumed (buf : Bytes) (r : Request) : Nat := buf.length - r.content.buf.length

/-- Lines joined by line feeds, with a line feed after the last one. -/
theorem intercalate_append_lf (first : Bytes) (ls : List Bytes) (s : Bytes) :
    [lf].intercalate (first :: ls) ++ lf :: s = first ++ lf :: (terminated ls ++ s) := by
  induction ls generalizing first with
  | nil => simp
  | cons l ls ih =>
    rw [List.intercalate_cons_cons, List.append_assoc, ih l]
    simp

/-- A buffer is written line by line up to its first empty line. -/
theorem exists_headerLines {buf : Bytes} {i : Nat} (h : findSub crlfcrlf buf = some i) :
    ∃ first between, headerLines buf i = first :: between ∧ (∀ l ∈ first :: between, lf ∉ l) ∧
      buf = first ++ lf :: (terminated between ++ ([cr] ++ lf :: buf.drop (i + 4))) := by
  obtain ⟨⟨t, ht⟩, _⟩ := findSub_some h
  obtain ⟨first, between, hlines⟩ := List.exists_cons_of_ne_nil
    (List.splitOn_ne_nil lf (buf.take (i + 1)))
  refine ⟨first, between, hlines, fun l hl => ?_, ?_⟩
  · exact not_mem_of_mem_splitOn (hlines ▸ hl)
  · have hend : buf.drop (i + 1) = lf :: ([cr] ++ lf :: buf.drop (i + 4)) := by
      rw [← List.drop_drop, ← List.drop_drop (i := 4), ← ht]
      rfl
    have hjoin : [lf].intercalate (first :: between) = buf.take (i + 1) := by
      rw [← hlines, List.intercalate_splitOn]
    rw [← intercalate_append_lf, hjoin, ← hend, List.take_append_drop]

/-- A line without two spaces is no request line. -/
theorem requestParts_eq_none {line : Bytes} : requestParts line = none ↔ line.count sp < 2 := by
  cases hm : cut sp line with
  | none =>
    have hzero : line.count sp = 0 := List.count_eq_zero.mpr (cut_eq_none.mp hm)
    simp [requestParts, hm, hzero]
  | some p =>
    obtain ⟨method, rest⟩ := p
    obtain ⟨rfl, hmethod⟩ := cut_eq_some.mp hm
    have hcount : (method ++ sp :: rest).count sp = rest.count sp + 1 := by
      rw [List.count_append, List.count_eq_zero.mpr hmethod, List.count_cons_self, Nat.zero_add]
    rw [requestParts, hm, Option.bind_some, Option.map_eq_none_iff, cut_eq_none, hcount,
      ← List.count_eq_zero]
    omega

/-- Where the loop over the header lines stops: at the empty line, or at an earlier line without
a colon. -/
theorem exists_stop {between : List Bytes} (rest : Bytes) (h : ∀ l ∈ between, lf ∉ l) :
    ∃ ls stop rest', terminated between ++ ([cr] ++ lf :: rest) =
        terminated ls ++ (stop ++ lf :: rest') ∧ (∀ l ∈ ls, lf ∉ l ∧ colon ∈ l) ∧
      (lf ∉ stop ∧ colon ∉ stop) ∧ rest.length ≤ rest'.length ∧
      (rest'.length = rest.length ↔ ∀ l ∈ between, colon ∈ l) := by
  induction between with
  | nil => exact ⟨[], [cr], rest, rfl, by simp, by decide, le_rfl, by simp⟩
  | cons l between ih =>
    obtain ⟨hl, hbetween⟩ := List.forall_mem_cons.mp h
    by_cases hcolon : colon ∈ l
    · obtain ⟨ls, stop, rest', heq, hls, hstop, hle, hiff⟩ := ih hbetween
      have hall : ∀ l' ∈ l :: ls, lf ∉ l' ∧ colon ∈ l' :=
        List.forall_mem_cons.mpr ⟨⟨hl, hcolon⟩, hls⟩
      refine ⟨l :: ls, stop, rest', ?_, hall, hstop, hle, ?_⟩
      · rw [terminated_cons, List.append_assoc, List.cons_append, heq, terminated_cons,
          List.append_assoc, List.cons_append]
      · rw [hiff, List.forall_mem_cons, and_iff_right hcolon]
    · refine ⟨[], l, terminated between ++ ([cr] ++ lf :: rest), by simp, by simp, ⟨hl, hcolon⟩,
        ?_, ?_⟩
      · simp only [List.length_append, List.length_cons]
        omega
      · simp only [List.length_append, List.length_cons, List.forall_mem_cons, hcolon, false_and,
          iff_false]
        omega

/-- The parser leaves a suffix of the buffer that holds at least everything behind the empty line,
and nothing else exactly when the header is regular. -/
theorem parseRequest_left {buf : Bytes} {i : Nat} {r : Request}
    (hend : findSub crlfcrlf buf = some i) (hparse : parseRequest (.new buf) = some (.ok r)) :
    r.content.buf <:+ buf ∧ (buf.drop (i + 4)).length ≤ r.content.buf.length ∧
      (r.content.buf.length = (buf.drop (i + 4)).length ↔ Regular (headerLines buf i)) := by
  obtain ⟨first, between, hlines, hlf, hbuf⟩ := exists_headerLines hend
  obtain ⟨hfirst, hbetween⟩ := List.forall_mem_cons.mp hlf
  obtain ⟨ls, stop, rest, heq, hls, hstop, hle, hiff⟩ := exists_stop (buf.drop (i + 4)) hbetween
  rw [heq] at hbuf
  have hrun := parseRequest_lines rest hfirst hls hstop
  rw [← hbuf, hparse] at hrun
  have hregular : Regular (headerLines buf i) ↔
      requestParts first ≠ none ∧ ∀ l ∈ between, colon ∈ l := by
    rw [hlines, Regular, Ne, requestParts_eq_none, Nat.not_lt]
    rfl
  rw [hregular, ← hiff]
  cases hparts : requestParts first with
  | none =>
    simp only [hparts, Option.some.injEq, Except.ok.injEq] at hrun
    subst hrun
    have hlen : rest.length < (terminated ls ++ (stop ++ lf :: rest)).length := by
      simp only [List.length_append, List.length_cons]
      omega
    refine ⟨?_, hle.trans hlen.le, ?_⟩
    · conv_rhs => rw [hbuf]
      exact (List.suffix_cons ..).trans (List.suffix_append ..)
    · simp only [IStream.over, ne_eq, not_true_eq_false, false_and, iff_false]
      omega
  | some p =>
    obtain ⟨method, path, mark⟩ := p
    by_cases hmark : 5 ≤ mark.length
    · simp only [hparts, hmark, if_true, Option.some.injEq, Except.ok.injEq] at hrun
      subst hrun
      refine ⟨?_, hle, by simp [IStream.over]⟩
      conv_rhs => rw [hbuf]
      have htail : rest <:+ stop ++ lf :: rest :=
        (List.suffix_cons ..).trans (List.suffix_append ..)
      exact ((htail.trans (List.suffix_append ..)).trans (List.suffix_cons ..)).trans
        (List.suffix_append ..)
    · simp [hparts, hmark] at hrun

/-- Parsing never takes a byte from behind the empty line. It takes the whole header, so that the
count of additional bytes is the number of bytes left, exactly when the header is regular. -/
theorem parseRequest_consumed {buf : Bytes} {i : Nat} {r : Request}
    (hend : findSub crlfcrlf buf = some i) (hparse : parseRequest (.new buf) = some (.ok r)) :
    r.content.buf = buf.drop (consumed buf r) ∧ consumed buf r ≤ i + crlfcrlf.length ∧
      (consumed buf r = i + crlfcrlf.length ↔ Regular (headerLines buf i)) ∧
      (sizeSub buf.length (i + crlfcrlf.length) = r.content.buf.length ↔
        Regular (headerLines buf i)) := by
  obtain ⟨hsuffix, hle, hiff⟩ := parseRequest_left hend hparse
  have hlen := (findSub_some hend).2
  have hshort := hsuffix.length_le
  rw [show crlfcrlf.length = 4 from rfl] at hlen ⊢
  rw [List.length_drop] at hle hiff
  rw [← hiff, sizeSub_of_le hlen, consumed]
  exact ⟨List.suffix_iff_eq_drop.mp hsuffix, by omega, by omega, by omega⟩

/-- A request with a line that lacks the colon. -/
def irregularRequest : Bytes := ascii "GET / HTTP/1.1\r\nbad\r\na: b\r\n\r\nx"

/-- The parser stops behind that line, with a field and the empty line still unread. -/
theorem parseRequest_consumed_irregular :
    ∃ r, parseRequest (.new irregularRequest) = some (.ok r) ∧ consumed irregularRequest r = 21 ∧
      r.content.buf = irregularRequest.drop (consumed irregularRequest r) ∧
      consumed irregularRequest r ≤ 25 + crlfcrlf.length ∧
      (consumed irregularRequest r = 25 + crlfcrlf.length ↔
        Regular (headerLines irregularRequest 25)) ∧
      (sizeSub irregularRequest.length (25 + crlfcrlf.length) = r.content.buf.length ↔
        Regular (headerLines irregularRequest 25)) :=
  ⟨_, rfl, by decide, parseRequest_consumed (by decide) rfl⟩

/-! ## The bytes still to be read -/

/-- The count handed to `transfer_exactly` is what is missing of the body, and nothing when
everything is there, exactly when no more than the body has arrived. -/
theorem headerHandler_remaining_iff {buf text : Bytes} {i c : Nat} {r : Request}
    (hend : findSub crlfcrlf buf = some i) (hsize : buf.length < 2 ^ 64)
    (hparse : parseRequest (.new buf) = some (.ok r))
    (htext : r.header contentLengthName = some text) (hc : stoull text 10 = .ok c) :
    let a := buf.length - (i + crlfcrlf.length)
    ∃ request count,
      headerHandler buf (i + crlfcrlf.length) = some (.ok (request, some count)) ∧
      ((count = if a ≤ c then c - a else 0) ∧ count ≤ c ↔ a ≤ c) := by
  intro a
  have hlen := (findSub_some hend).2
  refine ⟨{ r with content := { r.content with buf := relog r.content.buf } }, sizeSub c a, ?_, ?_⟩
  · simp only [headerHandler, hparse, Option.map_some, bind, Except.bind, htext, hc,
      sizeSub_of_le hlen]
    rfl
  · by_cases ha : a ≤ c
    · simp [ha]
    · have hwrap : sizeSub c a = c + 2 ^ 64 - a := if_neg ha
      simp only [ha, if_false, iff_false, hwrap]
      omega

/-- The count for a request whose body has arrived in part. -/
theorem headerHandler_remaining_iff_part :
    ∃ request count,
      headerHandler (ascii "POST / HTTP/1.1\r\nContent-Length: 3\r\n\r\na") 38 =
        some (.ok (request, some count)) ∧
      ((count = if 1 ≤ 3 then 3 - 1 else 0) ∧ count ≤ 3 ↔ 1 ≤ 3) :=
  have hend : findSub crlfcrlf
      (ascii "POST / HTTP/1.1\r\nContent-Length: 3\r\n\r\na") = some 34 := by decide
  headerHandler_remaining_iff hend (by decide) rfl rfl rfl

/-- A request with one byte more than announced. -/
def overfullRequest : Bytes := ascii "POST / HTTP/1.1\r\nContent-Length: 0\r\n\r\nx"

/-- The server waits for all but one of `2 ^ 64` bytes where nothing is missing. -/
theorem remaining_wraps :
    findSub crlfcrlf overfullRequest = some 34 ∧ overfullRequest.length - 38 = 1 ∧
      (∃ request count, headerHandler overfullRequest 38 = some (.ok (request, some count)) ∧
        request.header contentLengthName = some (ascii "0") ∧ stoull (ascii "0") 10 = .ok 0 ∧
        count = 2 ^ 64 - 1 ∧ ¬ ((count = if 1 ≤ 0 then 0 - 1 else 0) ∧ count ≤ 0)) ∧
      readRequestAndContent [overfullRequest] = .truncated overfullRequest :=
  ⟨by decide, by decide, ⟨_, _, rfl, rfl, rfl, rfl, by decide⟩, rfl⟩

end AsioCoroFrame.Http
