import AsioCoroFrame.Models.Http.Connection

/-!
# Which client input lets an exception leave an io thread

Three conversions of client text stand in handlers without a `try` block: the
version text is cut off at a fixed offset, the announced length goes through
`stoull`, and the version of an answered request through `stof`. The criterion
is stated on the raw lines of what a client has sent.
-/

namespace AsioCoroFrame.Http

/-- The request line, with its carriage return. -/
def firstLine (buf : Bytes) : Bytes := (buf.splitOn lf).headD []

/-- The header lines up to the first one without a colon. -/
def fieldLines (buf : Bytes) : List Bytes := (buf.splitOn lf).tail.takeWhile (colon ∈ ·)

/-- The value on the last line of a name. -/
def lastValue (name : Bytes) (ls : List Bytes) : Option Bytes :=
  ls.reverse.findSome? fun l => (headerField l).bind fun f => if f.1 = name then some f.2 else none

/-- The version text of a buffer; empty when the request line has no two spaces. -/
def versionOf (buf : Bytes) : Bytes :=
  match requestParts (firstLine buf) with
  | none => []
  | some (_, _, mark) => versionText mark

/-- The header of the buffer can be read: a request line with two spaces is long enough for the
`HTTP/` mark, and then the announced length, if any, is a number that fits. -/
structure Readable (buf : Bytes) : Prop where
  mark : ∀ method path mark, requestParts (firstLine buf) = some (method, path, mark) →
    5 ≤ mark.length
  length : (requestParts (firstLine buf)).isSome → ∀ text,
    lastValue contentLengthName (fieldLines buf) = some text → ∃ n, stoull text 10 = .ok n

/-- Besides, the version of a request that is answered is a number that fits. -/
structure Harmless (buf : Bytes) (answered : Bool) : Prop extends Readable buf where
  version : answered = true → ∃ v, stof (versionOf buf) = .ok v

/-! ## The lines of a buffer -/

theorem splitOn_terminated {ls : List Bytes} (h : ∀ l ∈ ls, lf ∉ l) (s : Bytes) :
    (terminated ls ++ s).splitOn lf = ls ++ s.splitOn lf := by
  induction ls with
  | nil => rfl
  | cons l ls ih =>
    rw [terminated_cons, List.append_assoc, List.cons_append,
      List.splitOn_append_cons_self_of_not_mem (h l List.mem_cons_self),
      ih fun l' hl' => h l' (List.mem_cons_of_mem _ hl'), List.cons_append]

theorem firstLine_eq {first : Bytes} (h : lf ∉ first) (s : Bytes) :
    firstLine (first ++ lf :: s) = first := by
  rw [firstLine, List.splitOn_append_cons_self_of_not_mem h]
  rfl

theorem fieldLines_eq {first stop : Bytes} {ls : List Bytes} (rest : Bytes) (hfirst : lf ∉ first)
    (hls : ∀ l ∈ ls, lf ∉ l ∧ colon ∈ l) (hstop : lf ∉ stop ∧ colon ∉ stop) :
    fieldLines (first ++ lf :: (terminated ls ++ (stop ++ lf :: rest))) = ls := by
  rw [fieldLines, List.splitOn_append_cons_self_of_not_mem hfirst, List.tail_cons,
    splitOn_terminated fun l hl => (hls l hl).1,
    List.splitOn_append_cons_self_of_not_mem hstop.1,
    List.takeWhile_append_of_pos fun l hl => by simpa using (hls l hl).2,
    List.takeWhile_cons_of_neg (by simpa using hstop.2), List.append_nil]

/-- The table read from some lines holds the last value of each name. -/
theorem foldl_enter (ls : List Bytes) (name : Bytes) :
    ls.foldl Header.enter (fun _ => none) name = lastValue name ls := by
  induction ls using List.reverseRecOn with
  | nil => rfl
  | append_singleton ls l ih =>
    rw [List.foldl_append, List.foldl_cons, List.foldl_nil, lastValue, List.reverse_append,
      List.reverse_singleton, List.singleton_append, List.findSome?_cons, Header.enter]
    cases hf : headerField l with
    | none => simpa [lastValue] using ih
    | some f =>
      by_cases hname : f.1 = name
      · simp [hname]
      · simpa [hname, Ne.symm hname, lastValue] using ih

/-! ## The handlers -/

/-- The completion handler returns on any delivered buffer, and raises exactly on those that are
not readable. -/
theorem headerHandler_cases {buf : Bytes} (h : crlfcrlf <:+: buf) (n : Nat) :
    (¬ Readable buf ∧ ∃ e, headerHandler buf n = some (.error e)) ∨
      Readable buf ∧ ∃ r k, headerHandler buf n = some (.ok (r, k)) ∧
        r.httpVersion = versionOf buf := by
  obtain ⟨first, ls, stop, rest, rfl, hfirst, hls, hstop⟩ := exists_header_lines h
  have hparse := parseRequest_lines rest hfirst hls hstop
  have hfields := fieldLines_eq rest hfirst hls hstop
  have hline := firstLine_eq hfirst (terminated ls ++ (stop ++ lf :: rest))
  cases hparts : requestParts first with
  | none =>
    refine .inr ⟨⟨?_, ?_⟩, ?_⟩
    · simp [hline, hparts]
    · simp [hline, hparts]
    · simp [headerHandler, hparse, hparts, versionOf, hline, bind, Except.bind, pure, Except.pure]
  | some p =>
    obtain ⟨method, path, mark⟩ := p
    by_cases hmark : 5 ≤ mark.length
    · have htable := foldl_enter ls contentLengthName
      cases htext : lastValue contentLengthName ls with
      | none =>
        rw [htext] at htable
        refine .inr ⟨⟨?_, ?_⟩, ?_⟩
        · simpa [hline, hparts] using hmark
        · simp [hfields, htext]
        · simp [headerHandler, hparse, hparts, hmark, htable, versionOf, hline, bind, Except.bind,
            pure, Except.pure]
      | some text =>
        rw [htext] at htable
        cases hn : stoull text 10 with
        | error e =>
          refine .inl ⟨fun hr => ?_, e, ?_⟩
          · obtain ⟨v, hv⟩ := hr.length (by simp [hline, hparts]) text (by rw [hfields, htext])
            rw [hn] at hv
            cases hv
          · simp [headerHandler, hparse, hparts, hmark, htable, hn, bind, Except.bind]
        | ok v =>
          refine .inr ⟨⟨?_, ?_⟩, ?_⟩
          · simpa [hline, hparts] using hmark
          · simp [hfields, htext, hn]
          · simp [headerHandler, hparse, hparts, hmark, htable, hn, versionOf, hline, bind,
              Except.bind, pure, Except.pure]
    · refine .inl ⟨fun hr => hmark (hr.mark method path mark (by rw [hline, hparts])), ?_⟩
      simp [headerHandler, hparse, hparts, hmark, bind, Except.bind]

/-- What the outcome of a reading says about the buffer that was delivered. -/
def Reading.Explained : Reading → Prop
  | .closed => True
  | .stuck _ => False
  | .raised buf _ => ¬ Readable buf
  | .truncated buf => Readable buf
  | .handed buf request _ => Readable buf ∧ request.httpVersion = versionOf buf

/-- A delivered buffer has an empty line, so its completion handler always returns. -/
theorem readRequestAndContent_explained (socket : Socket) :
    (readRequestAndContent socket).Explained := by
  unfold readRequestAndContent
  cases hread : readUntil [] socket with
  | none => trivial
  | some p =>
    obtain ⟨buf, n, rest⟩ := p
    obtain ⟨i, hi, _⟩ := readUntil_findSub hread
    have hinfix : crlfcrlf <:+: buf :=
      (findSub_some hi).1.isInfix.trans (List.drop_suffix i buf).isInfix
    rcases headerHandler_cases hinfix n with ⟨hr, e, he⟩ | ⟨hr, request, k, hok, hversion⟩
    · simp only [he]
      exact hr
    · cases k with
      | none =>
        simp only [hok]
        exact ⟨hr, hversion⟩
      | some k =>
        simp only [hok]
        cases htransfer : transferExactly k rest with
        | none => exact hr
        | some b => exact ⟨hr, hversion⟩

/-- The io threads survive a connection exactly when every buffer it delivers is harmless. -/
theorem serveRounds_closed_iff (answer : Request → Bool) (fuel : Nat) (socket : Socket) :
    (serveRounds answer fuel socket).2 = .closed ↔
      ∀ r ∈ (serveRounds answer fuel socket).1, Harmless r.buffer r.answered := by
  induction fuel generalizing socket with
  | zero => simp [serveRounds]
  | succ fuel ih =>
    have hcases := readRequestAndContent_explained socket
    cases hread : readRequestAndContent socket with
    | closed => simp [serveRounds, hread]
    | stuck buf => exact (hread ▸ hcases : Reading.Explained (.stuck buf)).elim
    | raised buf e =>
      rw [hread] at hcases
      simp only [serveRounds, hread, List.mem_singleton, forall_eq]
      exact iff_of_false (by simp) fun h => hcases h.toReadable
    | truncated buf =>
      rw [hread] at hcases
      simp only [serveRounds, hread, List.mem_singleton, forall_eq]
      exact iff_of_true trivial ⟨hcases, by simp⟩
    | handed buf request rest =>
      rw [hread] at hcases
      obtain ⟨hreadable, hversion⟩ := hcases
      cases hanswer : answer request with
      | false =>
        simp only [serveRounds, hread, hanswer, Bool.false_eq_true, if_false, List.mem_singleton,
          forall_eq]
        exact iff_of_true trivial ⟨hreadable, by simp⟩
      | true =>
        cases hv : stof (versionOf buf) with
        | error e =>
          simp only [serveRounds, hread, hanswer, keepAlive, hversion, hv, if_true, Except.map,
            List.mem_singleton, forall_eq]
          refine iff_of_false (by simp) fun h => ?_
          obtain ⟨v, hv'⟩ := h.version rfl
          rw [hv] at hv'
          cases hv'
        | ok v =>
          have hharmless : Harmless buf true := ⟨hreadable, fun _ => ⟨v, hv⟩⟩
          cases hexceeds : exceeds105 v with
          | false =>
            simp only [serveRounds, hread, hanswer, keepAlive, hversion, hv, if_true, Except.map,
              hexceeds, List.mem_singleton, forall_eq]
            exact iff_of_true trivial hharmless
          | true =>
            simp only [serveRounds, hread, hanswer, keepAlive, hversion, hv, if_true, Except.map,
              hexceeds, List.mem_cons, forall_eq_or_imp, ih rest, hharmless, true_and]

/-- No handler of a connection raises or hangs exactly when every request line it reads that has
two spaces is long enough, every announced length is a number that fits, and the version of every
answered request is. -/
theorem serve_closed_iff (answer : Request → Bool) (socket : Socket) :
    (serve answer socket).2 = .closed ↔
      ∀ r ∈ (serve answer socket).1, Harmless r.buffer r.answered :=
  serveRounds_closed_iff answer _ socket

/-- A request line without a version, a length that is no number and a version that is none. -/
theorem serve_raises :
    (serve (fun _ => true) [ascii "GET / \r\n\r\n"]).2 = .raised (.outOfRange substrWhat) ∧
    (serve (fun _ => true) [ascii "GET / HTTP/1.1\r\nContent-Length: abc\r\n\r\n"]).2 =
      .raised (.invalidArgument (ascii "stoull")) ∧
    (serve (fun _ => true) [ascii "GET / HTTP/x\r\n\r\n"]).2 =
      .raised (.invalidArgument (ascii "stof")) := by
  refine ⟨by decide, by decide, by decide⟩

end AsioCoroFrame.Http
