import AsioCoroFrame.Models.FlowNumber.Handler
import AsioCoroFrame.Models.Http.StaticFile

/-!
# The commands sent for a request path

The company and the type are client text. They are joined into the key without
a separator of their own, the key goes through `c_str()`, and the command text
made of it is handed to a `printf`-like formatter. The two commands are the
meant ones exactly when the split yields both segments and neither holds a
percent sign or a NUL byte.
-/

namespace AsioCoroFrame.FlowNumber

open Cluster
open Http (flowNoPrefix)

/-- The mark of a conversion directive. -/
def percent : Byte := 37

/-- The arguments of a command text without directives: its words between spaces. -/
def words (text : Bytes) : List Bytes := (text.splitOn sp).filter (· ≠ [])

/-- The text a format without conversions stands for; a doubled percent sign is one. -/
def unescape : Bytes → Option Bytes
  | [] => some []
  | [b] => if b = percent then none else some [b]
  | b :: c :: s =>
    if b = percent then
      if c = percent then (unescape s).map (percent :: ·) else none
    else (unescape (c :: s)).map (b :: ·)

/-- What is relied on of `redisvFormatCommand` when it is given a format and nothing else: the
text is split at its spaces, and a directive takes an argument that was not passed. A percent sign
at the very end is no directive. -/
def FormatsWords (format : Bytes → Option (List Bytes)) : Prop :=
  ∀ f, f.getLast? ≠ some percent → format f = (unescape f).map words

/-- The key and the arguments of the commands that a run of the handler sends. -/
def sentCommands (format : Bytes → Option (List Bytes)) (cmds : List Command) :
    List (Bytes × Option (List Bytes)) :=
  cmds.map fun c => (c.key, format c.format)

/-- The key and the arguments of the two commands meant for a key. -/
def meantCommands (id : Bytes) : List (Bytes × Option (List Bytes)) :=
  [(id, some [ascii "incr", id]), (id, some [ascii "get", id])]

/-- The handler increments and reads the counter of the path's company and type, stopping at an
exception; or it sends nothing and answers 400. -/
def IssuesMeant (format : Bytes → Option (List Bytes)) (path : Bytes) : Prop :=
  ∀ now answer, let (cmds, response) := (dealWithFlowNumber now path).run answer
    (∃ company type rest, segments path = .ok (company :: type :: rest) ∧
      sentCommands format cmds <+: meantCommands (idName company type) ∧
      ((∀ c, ∃ r, answer c = .ok r) →
        sentCommands format cmds = meantCommands (idName company type))) ∨
    cmds = [] ∧ ∃ what, response = some (badRequest what)

/-! ## The formatter -/

/-- Words keep every byte but the spaces. -/
theorem flatten_words (text : Bytes) : (words text).flatten = text.filter (· ≠ sp) := by
  rw [words, List.flatten_filter_ne_nil, flatten_splitOn]

/-- Two texts without spaces, one space between them. -/
theorem words_append {a b : Bytes} (ha : sp ∉ a) (hb : sp ∉ b) (hane : a ≠ []) (hbne : b ≠ []) :
    words (a ++ sp :: b) = [a, b] := by
  rw [words, List.splitOn_append_cons_self_of_not_mem ha, List.splitOn_eq_singleton hb]
  simp [hane, hbne]

theorem unescape_of_not_mem {f : Bytes} (h : percent ∉ f) : unescape f = some f := by
  fun_induction unescape f with
  | case1 => rfl
  | case2 | case4 | case5 => simp at h
  | case3 => rfl
  | case6 b c s hb ih => simp [ih (List.not_mem_of_not_mem_cons h)]

/-- Undoubling halves the number of percent signs. -/
theorem count_unescape {f g : Bytes} (h : unescape f = some g) :
    f.count percent = 2 * g.count percent := by
  fun_induction unescape f generalizing g with
  | case1 =>
    cases h
    rfl
  | case2 | case5 => cases h
  | case3 b hb =>
    cases h
    simp [hb]
  | case4 s ih =>
    obtain ⟨g, hg, rfl⟩ := Option.map_eq_some_iff.mp h
    rw [List.count_cons_self, List.count_cons_self, List.count_cons_self, ih hg]
    omega
  | case6 b c s hb ih =>
    obtain ⟨g, hg, rfl⟩ := Option.map_eq_some_iff.mp h
    rw [List.count_cons_of_ne hb, List.count_cons_of_ne hb, ih hg]

/-- A text of two words is taken for these words exactly when it holds no percent sign. -/
theorem format_append_iff {format : Bytes → Option (List Bytes)} (hformat : FormatsWords format)
    {verb id : Bytes} (hverb : sp ∉ verb ∧ percent ∉ verb ∧ verb ≠ [])
    (hid : sp ∉ id ∧ id ≠ [] ∧ id.getLast? ≠ some percent) :
    format (verb ++ sp :: id) = some [verb, id] ↔ percent ∉ id := by
  have hlast : (verb ++ sp :: id).getLast? ≠ some percent := by
    obtain ⟨b, s, rfl⟩ := List.exists_cons_of_ne_nil hid.2.1
    simpa [List.getLast?_append, List.getLast?_cons_cons] using hid.2.2
  rw [hformat _ hlast]
  constructor
  · intro h
    obtain ⟨g, hg, hwords⟩ := Option.map_eq_some_iff.mp h
    have hkept : g.count percent = id.count percent := by
      have hflat := congrArg (List.count percent) (flatten_words g)
      rw [hwords, List.count_filter (by decide)] at hflat
      simpa [List.count_eq_zero.mpr hverb.2.1] using hflat.symm
    have hcount := count_unescape hg
    rw [List.count_append, List.count_cons_of_ne (by decide), List.count_eq_zero.mpr hverb.2.1,
      hkept] at hcount
    exact List.count_eq_zero.mp (by omega)
  · intro h
    have hno : percent ∉ verb ++ sp :: id := by
      simp [hverb.2.1, h, show percent ≠ sp by decide]
    rw [unescape_of_not_mem hno, Option.map_some, words_append hverb.1 hid.1 hverb.2.2 hid.2.1]

/-! ## The segments of a path -/

/-- The first command on a key. -/
def incrCommand (id : Bytes) : Command := ⟨cString id, cString (ascii "incr " ++ id)⟩

/-- The second command on a key. -/
def getCommand (id : Bytes) : Command := ⟨cString id, cString (ascii "get " ++ id)⟩

/-- An exception of the first command keeps the second one from being sent. -/
theorem allocate_run (answer : Command → CommandResult) (id : Bytes) :
    (allocate id).run answer = match answer (incrCommand id) with
      | .error e => ([incrCommand id], .raised e)
      | .ok _ => ([incrCommand id, getCommand id], finish (answer (getCommand id))) := by
  rw [allocate, Prog.run, ← incrCommand]
  cases answer (incrCommand id) with
  | error e => rfl
  | ok r => rfl

/-- The handler of a path with a company and a type runs the two commands on their key. -/
theorem flowNumber_of_segments {path company type : Bytes} {rest : List Bytes}
    (h : segments path = .ok (company :: type :: rest)) :
    flowNumber path = allocate (idName company type) := by
  simp only [flowNumber, h]

/-- A path behind the prefix is split; it has at least one segment. -/
theorem segments_of_prefix {path : Bytes} (h : flowNoPrefix <+: path) :
    ∃ company others, segments path = .ok (company :: others) ∧
      company :: others = (path.drop flowNoPrefix.length).splitOn slash := by
  have hlen : (ascii "/flowNo/").length ≤ path.length := h.length_le
  obtain ⟨company, others, hsplit⟩ :=
    List.exists_cons_of_ne_nil (List.splitOn_ne_nil slash (path.drop flowNoPrefix.length))
  have hsub : substr path (ascii "/flowNo/").length path.length =
      .ok (path.drop flowNoPrefix.length) := by
    rw [substr_of_le _ hlen, List.take_of_length_le (by simp)]
    rfl
  refine ⟨company, others, ?_, hsplit.symm⟩
  rw [segments, hsub, ← hsplit]
  rfl

theorem sp_not_mem_segments {path company : Bytes} {others : List Bytes}
    (h : segments path = .ok (company :: others)) (hflow : flowNoPrefix <+: path)
    (hsp : sp ∉ path) : ∀ s ∈ company :: others, sp ∉ s := by
  obtain ⟨company', others', hsegments, hsplit⟩ := segments_of_prefix hflow
  obtain ⟨rfl, rfl⟩ : company' = company ∧ others' = others := by
    rw [hsegments] at h
    simpa using h
  intro s hs hmem
  rw [hsplit] at hs
  exact hsp (List.mem_of_mem_drop ((isInfix_of_mem_splitOn hs).subset hmem))

/-! ## The key -/

/-- A byte other than those of the fixed parts comes from the company or the type. -/
theorem mem_idName {b : Byte} (h : b ∉ ascii "\x7b__flow_number\x7d:id") (company type : Bytes) :
    b ∈ idName company type ↔ b ∈ company ∨ b ∈ type := by
  have hparts : ascii "\x7b__flow_number\x7d:id" =
      ascii "\x7b" ++ ascii "_" ++ ascii "_" ++ ascii "flow_number\x7d:id" := by decide
  rw [hparts] at h
  simp only [List.mem_append, not_or] at h
  simp [idName, h]

theorem idName_ne_nil (company type : Bytes) : idName company type ≠ [] := by
  simp [idName, show ascii "\x7b" ≠ [] by decide]

theorem getLast?_idName (company type : Bytes) :
    (idName company type).getLast? = some 100 := by
  rw [idName, List.getLast?_append, show (ascii "flow_number\x7d:id").getLast? = some 100 by decide]
  rfl

/-- The commands sent for a key without spaces are the meant ones exactly when it holds no percent
sign and no NUL byte. -/
theorem sentCommands_iff {format : Bytes → Option (List Bytes)} (hformat : FormatsWords format)
    {id : Bytes} (hsp : sp ∉ id) (hne : id ≠ []) (hlast : id.getLast? ≠ some percent) :
    sentCommands format [incrCommand id, getCommand id] = meantCommands id ↔
      percent ∉ id ∧ (0 : Byte) ∉ id := by
  have htext {verb : Bytes} (hverb : sp ∉ verb ∧ percent ∉ verb ∧ verb ≠ [])
      (hz : (0 : Byte) ∉ verb ++ [sp]) : cString id = id →
        (format (cString (verb ++ [sp] ++ id)) = some [verb, id] ↔ percent ∉ id) := by
    intro hid
    rw [cString_append id hz, hid, List.append_assoc, List.singleton_append]
    exact format_append_iff hformat hverb ⟨hsp, hne, hlast⟩
  have hincr : ascii "incr " = ascii "incr" ++ [sp] := by decide
  have hget : ascii "get " = ascii "get" ++ [sp] := by decide
  simp only [sentCommands, meantCommands, incrCommand, getCommand, List.map_cons, List.map_nil,
    List.cons.injEq, Prod.mk.injEq, and_true, hincr, hget, ← cString_eq_self]
  constructor
  · rintro ⟨⟨hid, hfirst⟩, _⟩
    exact ⟨(htext (by decide) (by decide) hid).mp hfirst, hid⟩
  · rintro ⟨hpercent, hid⟩
    exact ⟨⟨hid, (htext (by decide) (by decide) hid).mpr hpercent⟩,
      hid, (htext (by decide) (by decide) hid).mpr hpercent⟩

/-! ## Which paths are handled as meant -/

/-- The run of the handler on a path with a company and a type. -/
theorem dealWithFlowNumber_run {path company type : Bytes} {rest : List Bytes}
    (h : segments path = .ok (company :: type :: rest)) (now : Bytes)
    (answer : Command → CommandResult) :
    (dealWithFlowNumber now path).run answer =
      (((allocate (idName company type)).run answer).1,
        respond now ((allocate (idName company type)).run answer).2) := by
  rw [dealWithFlowNumber, flowNumber_of_segments h, Prog.run_map]

/-- On a path with a company and a type everything depends on the two commands. -/
theorem issuesMeant_of_segments {format : Bytes → Option (List Bytes)} {path company type : Bytes}
    {rest : List Bytes} (h : segments path = .ok (company :: type :: rest)) :
    IssuesMeant format path ↔
      sentCommands format [incrCommand (idName company type), getCommand (idName company type)] =
        meantCommands (idName company type) := by
  constructor
  · intro hmeant
    have hrun := hmeant [] fun _ => .ok none
    rw [dealWithFlowNumber_run h, allocate_run] at hrun
    rcases hrun with ⟨c, t, o, hseg, _, hsent⟩ | ⟨hnone, _⟩
    · rw [h, Except.ok.injEq, List.cons.injEq, List.cons.injEq] at hseg
      obtain ⟨rfl, rfl, rfl⟩ := hseg
      exact hsent fun _ => ⟨_, rfl⟩
    · cases hnone
  · intro hsent now answer
    rw [dealWithFlowNumber_run h, allocate_run]
    refine .inl ⟨company, type, rest, h, ?_⟩
    cases hincr : answer (incrCommand (idName company type)) with
    | error e =>
      refine ⟨?_, fun hok => ?_⟩
      · rw [← hsent]
        exact ⟨[_], rfl⟩
      · obtain ⟨r, hr⟩ := hok (incrCommand (idName company type))
        rw [hincr] at hr
        cases hr
    | ok r =>
      rw [← hsent]
      exact ⟨List.prefix_refl _, fun _ => rfl⟩

/-- For the path of a parsed request, the handler sends exactly the commands it means to when the
path has a company and a type without percent signs and NUL bytes, and not otherwise: a path with
one segment is not answered at all. -/
theorem issuesMeant_iff {format : Bytes → Option (List Bytes)} (hformat : FormatsWords format)
    {buf : Bytes} {r : Http.Request} (hparse : Http.parseRequest (.new buf) = some (.ok r))
    (hflow : flowNoPrefix <+: r.path) :
    IssuesMeant format r.path ↔
      ∃ company type rest, segments r.path = .ok (company :: type :: rest) ∧
        ∀ s ∈ [company, type], percent ∉ s ∧ (0 : Byte) ∉ s := by
  obtain ⟨company, others, hsegments, _⟩ := segments_of_prefix hflow
  have hspaces := sp_not_mem_segments hsegments hflow (Http.parseRequest_path hparse)
  cases others with
  | nil =>
    have hrun (answer : Command → CommandResult) :
        (dealWithFlowNumber [] r.path).run answer = ([], none) := by
      simp [dealWithFlowNumber, flowNumber, hsegments, Prog.map, Prog.run, respond]
    constructor
    · intro h
      have hmeant := h [] fun _ => .ok none
      rw [hrun] at hmeant
      simp [hsegments] at hmeant
    · simp [hsegments]
  | cons type rest =>
    have hkey : percent ∉ idName company type ∧ (0 : Byte) ∉ idName company type ↔
        ∀ s ∈ [company, type], percent ∉ s ∧ (0 : Byte) ∉ s := by
      rw [mem_idName (by decide), mem_idName (by decide)]
      simp only [List.forall_mem_cons, List.not_mem_nil, false_implies, implies_true, and_true]
      tauto
    have hsp : sp ∉ idName company type := by
      rw [mem_idName (by decide), not_or]
      exact ⟨hspaces _ (by simp), hspaces _ (by simp)⟩
    have hsent := sentCommands_iff hformat hsp (idName_ne_nil company type)
      (by rw [getLast?_idName]; decide)
    rw [issuesMeant_of_segments hsegments, hsent, hkey]
    constructor
    · intro h
      exact ⟨company, type, rest, hsegments, h⟩
    · rintro ⟨c, t, o, hseg, h⟩
      rw [hsegments, Except.ok.injEq, List.cons.injEq, List.cons.injEq] at hseg
      obtain ⟨rfl, rfl, _⟩ := hseg
      exact h

/-- A request for a company and a type. -/
def meantGet : Http.Message := Http.getMessage (ascii "/flowNo/test/tt") (by decide) (by decide)

/-- The criterion applied to that request. -/
theorem issuesMeant_iff_test :
    IssuesMeant (fun f => (unescape f).map words) (meantGet.request []).path ↔
      ∃ company type rest, segments (meantGet.request []).path = .ok (company :: type :: rest) ∧
        ∀ s ∈ [company, type], percent ∉ s ∧ (0 : Byte) ∉ s :=
  issuesMeant_iff (fun _ _ => rfl) (meantGet.parseRequest_encode []) ⟨ascii "test/tt", by decide⟩

/-- The path of the documented load test has one segment; reading the type is undefined. -/
theorem issues_unmeant :
    ¬ ∀ buf r, Http.parseRequest (.new buf) = some (.ok r) → flowNoPrefix <+: r.path →
      IssuesMeant (fun f => (unescape f).map words) r.path := by
  intro h
  have hparse := (Http.getMessage flowNoPrefix (by decide) (by decide)).parseRequest_encode []
  rcases h _ _ hparse (List.prefix_refl _) [] fun _ => .ok none with
    ⟨company, type, rest, hsegments, _⟩ | ⟨_, what, hresponse⟩
  · have hone : segments flowNoPrefix = .ok [[]] := rfl
    cases hone.symm.trans hsegments
  · cases hresponse

/-! ## Which pairs share a key -/

/-- The key of a path with a company and a type. -/
def keyOf (path : Bytes) : Option Bytes :=
  match segments path with
  | .ok (company :: type :: _) => some (idName company type)
  | _ => none

/-- It is the key that the handler works on. -/
theorem flowNumber_of_keyOf {path id : Bytes} (h : keyOf path = some id) :
    flowNumber path = allocate id := by
  unfold keyOf at h
  split at h
  · cases h
    exact flowNumber_of_segments ‹_›
  · cases h

/-- One company and type run into the other: the second company is the first one, an underscore
and a text that the first type begins with, an underscore behind it. -/
def RunsInto (company type company' type' : Bytes) : Prop :=
  ∃ m, company' = company ++ ascii "_" ++ m ∧ type = m ++ ascii "_" ++ type'

/-- Two keys agree when their parts do or one pair runs into the other. -/
theorem idName_eq_iff {company type company' type' : Bytes} :
    idName company type = idName company' type' ↔
      (company = company' ∧ type = type') ∨ RunsInto company type company' type' ∨
        RunsInto company' type' company type := by
  have hunderscore : ascii "_" = [95] := by decide
  have hsuffix : 95 :: ascii "flow_number\x7d:id" = ascii "_flow_number\x7d:id" := by decide
  have hsplit (c t : Bytes) :
      idName c t = ascii "\x7b" ++ ((c ++ 95 :: t) ++ ascii "_flow_number\x7d:id") := by
    simp [idName, hunderscore, ← hsuffix]
  rw [hsplit, hsplit, List.append_right_inj, List.append_left_inj, append_cons_eq_append_cons_iff]
  simp only [RunsInto, hunderscore, List.append_assoc, List.singleton_append]

/-- A pair does not run into itself. -/
theorem RunsInto.ne {company type company' type' : Bytes}
    (h : RunsInto company type company' type') : company ≠ company' := by
  obtain ⟨m, hm, _⟩ := h
  intro he
  rw [← he, List.append_assoc, List.self_eq_append_right, List.append_eq_nil_iff] at hm
  exact absurd hm.1 (by decide)

end AsioCoroFrame.FlowNumber
