import AsioCoroFrame.Models.Http.Parser
import AsioCoroFrame.Core.Rewriting

/-!
# Well-formed request headers

A message is a request line and header fields whose parts avoid the separators,
so its wire text cannot be read in two ways. Its header block ends at the first
empty line of any stream it begins, and the parser takes it apart into exactly
its parts, leaving what follows unread.
-/

namespace AsioCoroFrame.Http

/-- A header field; the space after the colon is optional. -/
structure Field where
  name : Bytes
  spaced : Bool
  value : Bytes
  name_colon : colon ∉ name
  name_lf : lf ∉ name
  value_lf : lf ∉ value
  /-- A value that starts with a space is written after one more space. -/
  spaced_of_head : value.head? = some sp → spaced = true

/-- A request line and the fields after it. -/
structure Message where
  method : Bytes
  path : Bytes
  version : Bytes
  fields : List Field
  method_sp : sp ∉ method
  method_lf : lf ∉ method
  path_sp : sp ∉ path
  path_lf : lf ∉ path
  version_lf : lf ∉ version

/-- The line of a field, without its line end. -/
def Field.line (f : Field) : Bytes :=
  f.name ++ colon :: (if f.spaced then sp :: f.value else f.value)

/-- The request line, without its line end. -/
def Message.requestLine (m : Message) : Bytes :=
  m.method ++ sp :: (m.path ++ sp :: (ascii "HTTP/" ++ m.version))

/-- All lines of the header but the empty one. -/
def Message.lines (m : Message) : List Bytes := m.requestLine :: m.fields.map Field.line

/-- The header block on the wire. -/
def Message.encode (m : Message) : Bytes := m.lines.flatMap (· ++ crlf) ++ crlf

/-- The table of the fields; a later field replaces an earlier one of its name. -/
def Message.table (m : Message) : Header :=
  m.fields.foldl (fun t f => Function.update t f.name (some f.value)) fun _ => none

/-- The request the server should see, with `rest` left in its buffer. -/
def Message.request (m : Message) (rest : Bytes) : Request :=
  ⟨m.method, m.path, m.version, m.table, .over rest⟩

/-! ## The literals of a request without and with a body -/

theorem one_one_lf : lf ∉ ascii "1.1" := by decide

theorem root_sp : sp ∉ ascii "/" := by decide

theorem root_lf : lf ∉ ascii "/" := by decide

theorem contentLengthName_colon : colon ∉ contentLengthName := by decide

theorem contentLengthName_lf : lf ∉ contentLengthName := by decide

/-- The literal that both ends write in front of a length. -/
theorem ascii_contentLength : ascii "Content-Length: " = contentLengthName ++ ascii ": " := by
  decide

/-! ## Reading the lines back -/

/-- Lines ended by `CRLF` are lines that end in a carriage return. -/
theorem flatMap_crlf (ls : List Bytes) :
    ls.flatMap (· ++ crlf) = terminated (ls.map (· ++ [cr])) := by
  simp [terminated, List.flatMap_map, crlf]

theorem Field.line_lf (f : Field) : lf ∉ f.line := by
  cases h : f.spaced <;> simp [line, h, f.name_lf, f.value_lf]

theorem Message.requestLine_lf (m : Message) : lf ∉ m.requestLine := by
  have hmark : lf ∉ ascii "HTTP/" := by decide
  simp [requestLine, m.method_lf, m.path_lf, m.version_lf, hmark]

/-- Reading the line of a field gives the field back. -/
theorem Field.headerField_line (f : Field) :
    headerField (f.line ++ [cr]) = some (f.name, f.value) := by
  have hcut : cut colon (f.line ++ [cr]) =
      some (f.name, (if f.spaced then sp :: f.value else f.value) ++ [cr]) := by
    rw [line, List.append_assoc, List.cons_append]
    exact cut_append _ f.name_colon
  cases h : f.spaced with
  | true => simp [headerField, hcut, h]
  | false =>
    have hhead : (f.value ++ [cr]).head? ≠ some sp := by
      intro hh
      cases hv : f.value with
      | nil => simp [hv] at hh
      | cons b v =>
        simp only [hv, List.cons_append, List.head?_cons] at hh
        exact absurd (f.spaced_of_head (by simp [hv, hh])) (by simp [h])
    simp only [headerField, hcut, Option.map_some, h, Bool.false_eq_true, if_false, hhead,
      List.dropLast_concat]

theorem Message.requestParts_requestLine (m : Message) :
    requestParts (m.requestLine ++ [cr]) =
      some (m.method, m.path, ascii "HTTP/" ++ m.version ++ [cr]) := by
  simp [requestParts, requestLine, cut_append _ m.method_sp, cut_append _ m.path_sp]

theorem versionText_mark (v : Bytes) : versionText (ascii "HTTP/" ++ v ++ [cr]) = v := by
  rw [versionText, List.append_assoc, List.drop_left' (by decide), List.dropLast_concat]

/-- The loop over the header lines takes the lines of fields. -/
theorem field_lines {fields : List Field} :
    ∀ l ∈ (fields.map Field.line).map (· ++ [cr]), lf ∉ l ∧ colon ∈ l := by
  intro l hl
  rw [List.map_map, List.mem_map] at hl
  obtain ⟨f, _, rfl⟩ := hl
  exact ⟨by simp [f.line_lf], by simp [Field.line]⟩

/-- The lines of fields enter the fields into the table. -/
theorem foldl_enter_fields (fields : List Field) (t : Header) :
    ((fields.map Field.line).map (· ++ [cr])).foldl Header.enter t =
      fields.foldl (fun (t : Header) f => Function.update t f.name (some f.value)) t := by
  rw [List.map_map, List.foldl_map]
  congr 1
  funext t f
  simp [Header.enter, f.headerField_line]

/-- The parser takes a message apart exactly, whatever follows it. -/
theorem Message.parseRequest_encode (m : Message) (rest : Bytes) :
    parseRequest (.new (m.encode ++ rest)) = some (.ok (m.request rest)) := by
  have hsplit : m.encode ++ rest = (m.requestLine ++ [cr]) ++ lf ::
      (terminated ((m.fields.map Field.line).map (· ++ [cr])) ++ ([cr] ++ lf :: rest)) := by
    rw [encode, lines, flatMap_crlf]
    simp [crlf]
  have hfirst : lf ∉ m.requestLine ++ [cr] := by
    simp [m.requestLine_lf]
  have henter : ((m.fields.map Field.line).map (· ++ [cr])).foldl Header.enter (fun _ => none) =
      m.table := foldl_enter_fields ..
  have hmark : 5 ≤ (ascii "HTTP/" ++ m.version ++ [cr]).length := by
    rw [List.append_assoc, List.length_append, show (ascii "HTTP/").length = 5 by decide]
    exact Nat.le_add_right _ _
  rw [hsplit, parseRequest_lines rest hfirst field_lines ⟨by decide, by decide⟩,
    m.requestParts_requestLine, henter]
  simp only [hmark, if_true, versionText_mark, request]

/-! ## Where the header block ends -/

/-- No empty line starts inside a line. -/
theorem clear_line {b : Bytes} (hb : lf ∉ b) (s : Bytes) : Clear crlfcrlf b (cr :: s) := by
  rintro i hi ⟨t, ht⟩
  have hget : (b ++ cr :: s)[i + 1]? = some lf := by
    rw [← List.getElem?_drop, ← ht]
    rfl
  rcases Nat.lt_or_ge (i + 1) b.length with hlt | hge
  · rw [List.getElem?_append_left hlt] at hget
    exact hb (List.mem_of_getElem? hget)
  · obtain he : i + 1 = b.length := by omega
    rw [he, List.getElem?_append_right le_rfl, Nat.sub_self, List.getElem?_cons_zero,
      Option.some.injEq] at hget
    exact absurd hget (by decide)

/-- No empty line starts at the end of a line either, when the next line is not empty. -/
theorem clear_lineEnd {l : Bytes} (hl : lf ∉ l) (hne : l ≠ []) (s : Bytes) :
    Clear crlfcrlf crlf (l ++ cr :: s) := by
  refine .cons ?_ (.cons ?_ (.nil _ _))
  · rintro ⟨t, ht⟩
    cases l with
    | nil => exact hne rfl
    | cons c l =>
      simp only [crlfcrlf, List.cons_append, List.cons.injEq, List.nil_append] at ht
      obtain ⟨_, _, rfl, ht⟩ := ht
      cases l with
      | nil => exact absurd (List.cons.inj ht).1 (by decide)
      | cons d l =>
        obtain ⟨rfl, _⟩ := List.cons.inj ht
        simp at hl
  · rintro ⟨t, ht⟩
    exact absurd (List.cons.inj ht).1 (by decide)

/-- The first empty line comes right after lines that are not empty themselves. -/
theorem findSub_lines {b : Bytes} {ls : List Bytes} (rest : Bytes)
    (hls : ∀ l ∈ b :: ls, lf ∉ l ∧ l ≠ []) :
    findSub crlfcrlf ((b :: ls).flatMap (· ++ crlf) ++ (crlf ++ rest)) =
      some (((b :: ls).flatMap (· ++ crlf)).length - 2) := by
  induction ls generalizing b with
  | nil =>
    obtain ⟨hb, _⟩ := hls b List.mem_cons_self
    have hsplit : [b].flatMap (· ++ crlf) ++ (crlf ++ rest) = b ++ (crlfcrlf ++ rest) := by
      simp [crlf, crlfcrlf]
    rw [hsplit, findSub_clear (clear_line hb _)]
    simp [crlf]
  | cons b' ls ih =>
    obtain ⟨hb, _⟩ := hls b List.mem_cons_self
    obtain ⟨hb', hne⟩ := hls b' (by simp)
    have htail := ih fun l hl => hls l (List.mem_cons_of_mem _ hl)
    have hsplit : (b :: b' :: ls).flatMap (· ++ crlf) ++ (crlf ++ rest) =
        (b ++ crlf) ++ ((b' :: ls).flatMap (· ++ crlf) ++ (crlf ++ rest)) := by
      simp [crlf]
    have hnext : (b' :: ls).flatMap (· ++ crlf) ++ (crlf ++ rest) =
        b' ++ cr :: (lf :: (ls.flatMap (· ++ crlf) ++ (crlf ++ rest))) := by
      simp [crlf]
    have hclear : Clear crlfcrlf (b ++ crlf)
        ((b' :: ls).flatMap (· ++ crlf) ++ (crlf ++ rest)) :=
      clear_append.mpr ⟨clear_line hb _, hnext ▸ clear_lineEnd hb' hne _⟩
    rw [hsplit, findSub_skip _ _ hclear, htail]
    simp [crlf]
    omega

/-- The header block of a message ends at the first empty line of any stream it begins. -/
theorem Message.findSub_encode (m : Message) (rest : Bytes) :
    findSub crlfcrlf (m.encode ++ rest) = some (m.encode.length - 4) := by
  have hls : ∀ l ∈ m.requestLine :: m.fields.map Field.line, lf ∉ l ∧ l ≠ [] := by
    intro l hl
    rcases List.mem_cons.mp hl with rfl | hl
    · exact ⟨m.requestLine_lf, by simp [requestLine]⟩
    · obtain ⟨f, _, rfl⟩ := List.mem_map.mp hl
      exact ⟨f.line_lf, by simp [Field.line]⟩
  rw [encode, lines, List.append_assoc, findSub_lines rest hls, List.length_append,
    show crlf.length = 2 from rfl]
  congr 1

theorem Message.four_le_length_encode (m : Message) : 4 ≤ m.encode.length := by
  simp only [encode, lines, List.flatMap_cons, List.length_append, show crlf.length = 2 from rfl]
  omega

end AsioCoroFrame.Http
