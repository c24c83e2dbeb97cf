import AsioCoroFrame.Core.Text
import Mathlib.Logic.Function.Basic

/-!
# The server's request parser

`parse_request` reads the request line and the header lines off the stream of a
fresh request. It is written with the positions the source computes; each line
is then characterised by the parts the positions stand for, and the loop over
the header lines by the list of lines it consumes.
-/

namespace AsioCoroFrame.Http

/-- The header table of a message. -/
abbrev Header := Bytes → Option Bytes

/-- The name of the field that announces a body. -/
def contentLengthName : Bytes := ascii "Content-Length"

/-- `ServerBase::Request`; `content` reads the request's own stream buffer. -/
structure Request where
  method : Bytes
  path : Bytes
  httpVersion : Bytes
  header : Header
  content : IStream

/-- A new request over a buffer. -/
def Request.new (buf : Bytes) : Request := ⟨[], [], [], fun _ => none, .over buf⟩

/-- The first line, cut at its first two spaces; without them there is nothing to take. -/
def requestLine (line : Bytes) : Except StdException (Option (Bytes × Bytes × Bytes)) :=
  match findFrom sp 0 line with
  | none => .ok none
  | some methodEnd =>
    match findFrom sp (methodEnd + 1) line with
    | none => .ok none
    | some pathEnd => do
      let method ← substr line 0 methodEnd
      let path ← substr line (methodEnd + 1) (sizeSub (sizeSub pathEnd methodEnd) 1)
      let version ← substr line (pathEnd + 6) (sizeSub (sizeSub line.length pathEnd) 7)
      return some (method, path, version)

/-- The body of the header loop for a line with a colon at `paramEnd`. -/
def headerLine (line : Bytes) (paramEnd : Nat) : Except StdException (Bytes × Bytes) := do
  let valueStart := if (line)[paramEnd + 1]? = some sp then paramEnd + 2 else paramEnd + 1
  let name ← substr line 0 paramEnd
  let value ← substr line valueStart (sizeSub (sizeSub line.length valueStart) 1)
  return (name, value)

/-- The loop over the header lines; running out of fuel means that it never ends. -/
def headerLoop : Nat → Bytes → IStream → Header → Option (Except StdException (Header × IStream))
  | 0, _, _, _ => none
  | fuel + 1, line, stream, header =>
    let (line, stream) := stream.getline line
    match findFrom colon 0 line with
    | none => some (.ok (header, stream))
    | some paramEnd =>
      match headerLine line paramEnd with
      | .error e => some (.error e)
      | .ok (name, value) =>
        headerLoop fuel line stream (Function.update header name (some value))

/-- `ServerBase::parse_request`. A stream at its end leaves the last line in place, so the loop
reads at most one line for each byte, and then the same one for ever. -/
def parseRequest (request : Request) : Option (Except StdException Request) :=
  let (line, stream) := request.content.getline []
  match requestLine line with
  | .error e => some (.error e)
  | .ok none => some (.ok { request with content := stream })
  | .ok (some (method, path, version)) =>
    (headerLoop (stream.buf.length + 2) line stream request.header).map fun result =>
      result.map fun (header, stream) => ⟨method, path, version, header, stream⟩

/-! ## One line -/

/-- The three parts of a request line, the last one with the `HTTP/` mark. -/
def requestParts (line : Bytes) : Option (Bytes × Bytes × Bytes) :=
  (cut sp line).bind fun (method, rest) =>
    (cut sp rest).map fun (path, mark) => (method, path, mark)

/-- The text of the version after the `HTTP/` mark, whose last byte is taken for the carriage
return. -/
def versionText (mark : Bytes) : Bytes := (mark.drop 5).dropLast

/-- A count that stops one byte before the end; at the very end it may have wrapped. -/
theorem substr_dropLast {s : Bytes} {pos count : Nat} (h : pos ≤ s.length)
    (hc : pos < s.length → count = s.length - pos - 1) :
    substr s pos count = .ok (s.drop pos).dropLast := by
  rw [substr_of_le _ h, List.dropLast_eq_take, List.length_drop]
  rcases Nat.lt_or_ge pos s.length with hpos | hpos
  · rw [hc hpos]
  · rw [List.drop_of_length_le hpos, List.take_nil, List.take_nil]

/-- The version is read from six bytes after the second space on. -/
theorem substr_version (pre mark : Bytes) :
    substr (pre ++ sp :: mark) (pre.length + 6)
        (sizeSub (sizeSub (pre ++ sp :: mark).length pre.length) 7) =
      if 5 ≤ mark.length then .ok (versionText mark) else .error (.outOfRange substrWhat) := by
  have hlen : (pre ++ sp :: mark).length = pre.length + 1 + mark.length := by
    rw [List.length_append, List.length_cons]
    omega
  have hdrop : (pre ++ sp :: mark).drop (pre.length + 6) = mark.drop 5 := by
    rw [List.drop_append, List.drop_of_length_le (by omega), Nat.add_sub_cancel_left]
    rfl
  by_cases h : 5 ≤ mark.length
  · rw [if_pos h, versionText, ← hdrop]
    refine substr_dropLast (by omega) fun hpos => ?_
    simp (disch := omega) only [sizeSub_of_le]
    omega
  · rw [if_neg h, substr, if_neg (by omega)]

/-- The parser takes the parts of the request line, and raises when the last one is too short
for the mark. -/
theorem requestLine_eq (line : Bytes) :
    requestLine line = match requestParts line with
      | none => .ok none
      | some (method, path, mark) =>
        if 5 ≤ mark.length then .ok (some (method, path, versionText mark))
        else .error (.outOfRange substrWhat) := by
  cases hm : cut sp line with
  | none => simp [requestLine, requestParts, findFrom, hm]
  | some p =>
    obtain ⟨method, rest⟩ := p
    obtain ⟨rfl, hmethod⟩ := cut_eq_some.mp hm
    have hfind : findFrom sp 0 (method ++ sp :: rest) = some method.length :=
      findFrom_zero_append rest hmethod
    cases hp : cut sp rest with
    | none =>
      have hfind' : findFrom sp (method.length + 1) (method ++ sp :: rest) = none := by
        simp [findFrom, hp, List.drop_append, List.drop_of_length_le]
      simp [requestLine, requestParts, hm, hp, hfind, hfind']
    | some p =>
      obtain ⟨path, mark⟩ := p
      obtain ⟨rfl, hpath⟩ := cut_eq_some.mp hp
      have hassoc : method ++ sp :: (path ++ sp :: mark) =
          (method ++ [sp]) ++ (path ++ sp :: mark) := by simp
      have hfind' : findFrom sp (method.length + 1) (method ++ sp :: (path ++ sp :: mark)) =
          some (method.length + 1 + path.length) := by
        rw [hassoc]
        exact findFrom_append _ mark hpath (by simp)
      have hmeth : substr (method ++ sp :: (path ++ sp :: mark)) 0 method.length = .ok method :=
        substr_append [] method _ rfl rfl
      have hpth : substr (method ++ sp :: (path ++ sp :: mark)) (method.length + 1)
          (sizeSub (sizeSub (method.length + 1 + path.length) method.length) 1) = .ok path := by
        rw [hassoc]
        refine substr_append _ path _ (by simp) ?_
        simp (disch := omega) only [sizeSub_of_le]
        omega
      have hver := substr_version (method ++ sp :: path) mark
      have hpre : (method ++ sp :: path) ++ sp :: mark = method ++ sp :: (path ++ sp :: mark) := by
        simp
      have hend : (method ++ sp :: path).length = method.length + 1 + path.length := by
        rw [List.length_append, List.length_cons]
        omega
      rw [hpre, hend] at hver
      simp only [requestLine, hfind, hfind', hmeth, hpth, hver, requestParts, hm, hp,
        Option.bind_some, Option.map_some]
      by_cases h : 5 ≤ mark.length
      · simp [h, bind, Except.bind, pure, Except.pure]
      · simp [h, bind, Except.bind]

/-- A path is cut at the spaces around it. -/
theorem requestParts_path {line method path mark : Bytes}
    (h : requestParts line = some (method, path, mark)) : sp ∉ path := by
  obtain ⟨⟨_, rest⟩, _, h⟩ := Option.bind_eq_some_iff.mp h
  obtain ⟨⟨_, _⟩, hcut, he⟩ := Option.map_eq_some_iff.mp h
  cases he
  exact (cut_eq_some.mp hcut).2

/-- The path of a parsed request holds no space. -/
theorem parseRequest_path {buf : Bytes} {r : Request}
    (h : parseRequest (.new buf) = some (.ok r)) : sp ∉ r.path := by
  rw [parseRequest] at h
  generalize (Request.new buf).content.getline [] = p at h
  obtain ⟨line, stream⟩ := p
  simp only [requestLine_eq] at h
  cases hparts : requestParts line with
  | none =>
    simp only [hparts, Option.some.injEq, Except.ok.injEq] at h
    subst h
    exact List.not_mem_nil
  | some p =>
    obtain ⟨method, path, mark⟩ := p
    by_cases hmark : 5 ≤ mark.length
    · simp only [hparts, hmark, if_true, Option.map_eq_some_iff] at h
      obtain ⟨_ | ⟨header, stream'⟩, _, h⟩ := h
      · cases h
      · cases h
        exact requestParts_path hparts
    · simp [hparts, hmark] at h

/-- The name and the value of a header line: one space after the colon is skipped, and the last
byte is taken for the carriage return. -/
def headerField (line : Bytes) : Option (Bytes × Bytes) :=
  (cut colon line).map fun (name, rest) =>
    (name, (if rest.head? = some sp then rest.tail else rest).dropLast)

/-- The offsets of a header line never leave the line, so reading it raises nothing. -/
theorem headerLine_eq {line name rest : Bytes} (h : cut colon line = some (name, rest)) :
    headerLine line name.length =
      .ok (name, (if rest.head? = some sp then rest.tail else rest).dropLast) := by
  obtain ⟨rfl, _⟩ := cut_eq_some.mp h
  have hname : substr (name ++ colon :: rest) 0 name.length = .ok name :=
    substr_append [] name _ rfl rfl
  have hlen : (name ++ colon :: rest).length = name.length + 1 + rest.length := by
    rw [List.length_append, List.length_cons]
    omega
  have hdrop : ∀ i, (name ++ colon :: rest).drop (name.length + 1 + i) = rest.drop i := by
    intro i
    rw [List.drop_append, List.drop_of_length_le (by omega), List.nil_append,
      show name.length + 1 + i - name.length = i + 1 by omega, List.drop_succ_cons]
  have hget : (name ++ colon :: rest)[name.length + 1]? = rest.head? := by
    rw [List.head?_eq_getElem?, ← Nat.add_zero (name.length + 1), ← List.getElem?_drop, hdrop 0,
      List.drop_zero]
  have hvalue : ∀ i, i ≤ rest.length → substr (name ++ colon :: rest) (name.length + 1 + i)
      (sizeSub (sizeSub (name ++ colon :: rest).length (name.length + 1 + i)) 1) =
        .ok (rest.drop i).dropLast := by
    intro i hi
    rw [← hdrop i]
    refine substr_dropLast (by omega) fun hpos => ?_
    simp (disch := omega) only [sizeSub_of_le]
  simp only [headerLine, hname, hget, bind, Except.bind]
  by_cases hspace : rest.head? = some sp
  · have hpos : 1 ≤ rest.length := by
      cases rest with
      | nil => cases hspace
      | cons b rest => simp
    simp only [hspace, if_true, hvalue 1 hpos, List.drop_one]
    rfl
  · have hzero := hvalue 0 (Nat.zero_le _)
    rw [Nat.add_zero, List.drop_zero] at hzero
    simp only [hspace, if_false, hzero]
    rfl

/-! ## The whole header -/

/-- Enter a header line into the table. -/
def Header.enter (header : Header) (line : Bytes) : Header :=
  match headerField line with
  | none => header
  | some (name, value) => Function.update header name (some value)

/-- The loop enters the lines with a colon and stops after the first line without one. -/
theorem headerLoop_lines {ls : List Bytes} {stop : Bytes} (rest : Bytes)
    (hls : ∀ l ∈ ls, lf ∉ l ∧ colon ∈ l) (hstop : lf ∉ stop ∧ colon ∉ stop) {fuel : Nat}
    (hfuel : ls.length < fuel) (old : Bytes) (header : Header) :
    headerLoop fuel old (.over (terminated ls ++ (stop ++ lf :: rest))) header =
      some (.ok (ls.foldl Header.enter header, .over rest)) := by
  induction ls generalizing fuel old header with
  | nil =>
    obtain ⟨fuel, rfl⟩ := Nat.exists_eq_succ_of_ne_zero (Nat.pos_iff_ne_zero.mp hfuel)
    have hfind : findFrom colon 0 stop = none := findFrom_zero_eq_none.mpr hstop.2
    simp [headerLoop, IStream.getline_line old rest hstop.1, hfind]
  | cons l ls ih =>
    obtain ⟨fuel, rfl⟩ := Nat.exists_eq_succ_of_ne_zero (Nat.pos_iff_ne_zero.mp
      (Nat.zero_lt_of_lt hfuel))
    obtain ⟨hl, hcolon⟩ := hls l List.mem_cons_self
    obtain ⟨name, value, hline, hname⟩ := exists_append_of_mem hcolon
    have hcut : cut colon l = some (name, value) := cut_eq_some.mpr ⟨hline, hname⟩
    have hfind : findFrom colon 0 l = some name.length := by
      rw [hline]
      exact findFrom_zero_append value hname
    have htail := ih (fun l' hl' => hls l' (List.mem_cons_of_mem _ hl'))
      (Nat.lt_of_succ_lt_succ hfuel)
    simp only [terminated_cons, List.append_assoc, List.cons_append, headerLoop,
      IStream.getline_line old _ hl, hfind, headerLine_eq hcut, htail, List.foldl_cons,
      Header.enter, headerField, hcut, Option.map_some]

/-- There are no more lines than bytes. -/
theorem lines_lt_fuel (ls : List Bytes) (s : Bytes) :
    ls.length < (terminated ls ++ s).length + 2 := by
  have hlen : ls.length ≤ (terminated ls).length := by
    induction ls with
    | nil => simp
    | cons l ls ih =>
      simp only [terminated_cons, List.length_append, List.length_cons]
      omega
  rw [List.length_append]
  omega

/-- What `parse_request` does with a buffer that is written line by line up to the first header
line without a colon. -/
theorem parseRequest_lines {first stop : Bytes} {ls : List Bytes} (rest : Bytes)
    (hfirst : lf ∉ first) (hls : ∀ l ∈ ls, lf ∉ l ∧ colon ∈ l)
    (hstop : lf ∉ stop ∧ colon ∉ stop) :
    parseRequest (.new (first ++ lf :: (terminated ls ++ (stop ++ lf :: rest)))) =
      match requestParts first with
      | none =>
        some (.ok ⟨[], [], [], fun _ => none, .over (terminated ls ++ (stop ++ lf :: rest))⟩)
      | some (method, path, mark) =>
        if 5 ≤ mark.length then
          some (.ok ⟨method, path, versionText mark, ls.foldl Header.enter fun _ => none,
            .over rest⟩)
        else some (.error (.outOfRange substrWhat)) := by
  have hloop := headerLoop_lines rest hls hstop (lines_lt_fuel ls (stop ++ lf :: rest)) first
    fun _ => none
  simp only [parseRequest, Request.new, IStream.getline_line [] _ hfirst, requestLine_eq]
  cases requestParts first with
  | none => rfl
  | some p =>
    obtain ⟨method, path, mark⟩ := p
    by_cases h : 5 ≤ mark.length
    · simp only [h, if_true]
      rw [show (IStream.over (terminated ls ++ (stop ++ lf :: rest))).buf.length =
        (terminated ls ++ (stop ++ lf :: rest)).length from rfl, hloop]
      rfl
    · simp [h]

/-- The header lines of a buffer end at a line without a colon. -/
def HeaderEnds (s : Bytes) : Prop :=
  ∃ ls stop rest, s = terminated ls ++ (stop ++ lf :: rest) ∧
    (∀ l ∈ ls, lf ∉ l ∧ colon ∈ l) ∧ lf ∉ stop ∧ colon ∉ stop

theorem HeaderEnds.line {l s : Bytes} (hl : lf ∉ l) (h : HeaderEnds s) :
    HeaderEnds (l ++ lf :: s) := by
  by_cases hcolon : colon ∈ l
  · obtain ⟨ls, stop, rest, rfl, hls, hstop⟩ := h
    refine ⟨l :: ls, stop, rest, by simp, ?_, hstop⟩
    intro l' hl'
    rcases List.mem_cons.mp hl' with rfl | hl'
    · exact ⟨hl, hcolon⟩
    · exact hls l' hl'
  · exact ⟨[], l, s, rfl, by simp, hl, hcolon⟩

/-- Lines in front of an ended header do not change that it ends. -/
theorem HeaderEnds.lines (n : Nat) {x s : Bytes} (hn : x.length ≤ n) (h : HeaderEnds s) :
    HeaderEnds (x ++ lf :: s) := by
  induction n generalizing x with
  | zero =>
    obtain rfl := List.eq_nil_of_length_eq_zero (Nat.le_zero.mp hn)
    exact h.line (by simp)
  | succ n ih =>
    rcases line_cases x with hx | ⟨l, x', rfl, hl⟩
    · exact h.line hx
    · rw [List.append_assoc, List.cons_append]
      refine HeaderEnds.line hl (ih ?_)
      rw [List.length_append, List.length_cons] at hn
      omega

/-- A buffer with an empty line has a first header line without a colon. -/
theorem exists_header_lines {buf : Bytes} (h : crlfcrlf <:+: buf) :
    ∃ first ls stop rest, buf = first ++ lf :: (terminated ls ++ (stop ++ lf :: rest)) ∧
      lf ∉ first ∧ (∀ l ∈ ls, lf ∉ l ∧ colon ∈ l) ∧ lf ∉ stop ∧ colon ∉ stop := by
  obtain ⟨a, b, rfl⟩ := h
  have hbase : HeaderEnds ([cr] ++ lf :: b) :=
    ⟨[], [cr], b, rfl, by simp, by decide, by decide⟩
  have hsplit : a ++ crlfcrlf ++ b = (a ++ [cr]) ++ lf :: ([cr] ++ lf :: b) := by
    simp [crlfcrlf]
  rw [hsplit]
  rcases line_cases (a ++ [cr]) with hfirst | ⟨first, x, hx, hfirst⟩
  · obtain ⟨ls, stop, rest, hs, hls, hstop⟩ := hbase
    exact ⟨a ++ [cr], ls, stop, rest, by rw [hs], hfirst, hls, hstop⟩
  · obtain ⟨ls, stop, rest, hs, hls, hstop⟩ := HeaderEnds.lines _ le_rfl (x := x) hbase
    exact ⟨first, ls, stop, rest, by rw [hx, ← hs]; simp, hfirst, hls, hstop⟩

end AsioCoroFrame.Http
