import AsioCoroFrame.Core.Numeral
import AsioCoroFrame.Models.Http.Message

/-!
# The client's request encoder

The header block that `ClientBase::request` writes is the wire text of a
message, so the server's parser reads back what the caller of the client passed
in.
-/

namespace AsioCoroFrame.Http

/-- The name of the field that the client writes by itself. -/
def hostName : Bytes := ascii "Host"

/-- The header block written by `ClientBase::request` for a body of `contentLength` bytes. -/
def clientRequest (host requestType path : Bytes) (header : List (Bytes × Bytes))
    (contentLength : Nat) : Bytes :=
  let correctedPath := if path = [] then ascii "/" else path
  requestType ++ ascii " " ++ correctedPath ++ ascii " HTTP/1.1\r\n" ++
    (ascii "Host: " ++ host ++ ascii "\r\n") ++
    header.flatMap (fun h => h.1 ++ ascii ": " ++ h.2 ++ ascii "\r\n") ++
    (if 0 < contentLength then ascii "Content-Length: " ++ decimal contentLength ++ ascii "\r\n"
      else []) ++
    ascii "\r\n"

/-- The parts a caller may pass to the client. -/
structure ClientCall where
  host : Bytes
  method : Bytes
  path : Bytes
  header : List (Bytes × Bytes)
  contentLength : Nat
  host_lf : lf ∉ host
  method_sp : sp ∉ method
  method_lf : lf ∉ method
  path_sp : sp ∉ path
  path_lf : lf ∉ path
  names_nodup : (header.map (·.1)).Nodup
  name_colon : ∀ h ∈ header, colon ∉ h.1
  name_lf : ∀ h ∈ header, lf ∉ h.1
  name_host : ∀ h ∈ header, h.1 ≠ hostName
  name_length : ∀ h ∈ header, h.1 ≠ contentLengthName
  value_lf : ∀ h ∈ header, lf ∉ h.2

/-- A field as the client writes it, with one space after the colon. -/
def spacedField (name value : Bytes) (hc : colon ∉ name) (hn : lf ∉ name) (hv : lf ∉ value) :
    Field :=
  ⟨name, true, value, hc, hn, hv, fun _ => rfl⟩

/-- The fields of the caller's map. -/
def ClientCall.callerFields (c : ClientCall) : List Field :=
  c.header.attach.map fun h =>
    spacedField h.1.1 h.1.2 (c.name_colon h.1 h.2) (c.name_lf h.1 h.2) (c.value_lf h.1 h.2)

theorem decimal_lf (n : Nat) : lf ∉ decimal n := not_mem_decimal n (by decide)

/-- The message that the client writes. -/
def ClientCall.message (c : ClientCall) : Message where
  method := c.method
  path := if c.path = [] then ascii "/" else c.path
  version := ascii "1.1"
  fields := spacedField hostName c.host (by decide) (by decide) c.host_lf :: (c.callerFields ++
    if 0 < c.contentLength then [spacedField contentLengthName (decimal c.contentLength)
      contentLengthName_colon contentLengthName_lf (decimal_lf _)] else [])
  method_sp := c.method_sp
  method_lf := c.method_lf
  path_sp := by
    split
    · exact root_sp
    · exact c.path_sp
  path_lf := by
    split
    · exact root_lf
    · exact c.path_lf
  version_lf := one_one_lf

theorem spacedField_line (name value : Bytes) (hc : colon ∉ name) (hn : lf ∉ name)
    (hv : lf ∉ value) : (spacedField name value hc hn hv).line = name ++ ascii ": " ++ value := by
  simp [Field.line, spacedField, show ascii ": " = [colon, sp] by decide]

theorem ClientCall.callerFields_lines (c : ClientCall) :
    (c.callerFields.map Field.line).flatMap (· ++ crlf) =
      c.header.flatMap fun h => h.1 ++ ascii ": " ++ h.2 ++ crlf := by
  rw [callerFields, List.map_map, List.flatMap_map]
  simp only [Function.comp_apply, spacedField_line]
  conv_rhs => rw [← List.attach_map_subtype_val c.header, List.flatMap_map]

/-- The block the client writes is the wire text of its message. -/
theorem ClientCall.encode_message (c : ClientCall) :
    clientRequest c.host c.method c.path c.header c.contentLength = c.message.encode := by
  have hcrlf : ascii "\r\n" = crlf := by decide
  have hmark : ascii " HTTP/1.1\r\n" = sp :: (ascii "HTTP/" ++ ascii "1.1") ++ crlf := by decide
  have hsp : ascii " " = [sp] := by decide
  have hhost : ascii "Host: " = hostName ++ ascii ": " := by decide
  have hfields := c.callerFields_lines
  by_cases h : 0 < c.contentLength
  · simp only [clientRequest, hcrlf, hmark, hsp, hhost, ascii_contentLength, h, if_true,
      Message.encode, Message.lines, message, Message.requestLine, List.map_cons,
      List.map_append, List.map_nil, List.flatMap_cons, List.flatMap_append, List.flatMap_nil,
      hfields, spacedField_line]
    simp
  · simp only [clientRequest, hcrlf, hmark, hsp, hhost, h, if_false, Message.encode,
      Message.lines, message, Message.requestLine, List.map_cons, List.map_append, List.map_nil,
      List.flatMap_cons, List.flatMap_append, List.flatMap_nil, hfields, spacedField_line]
    simp

/-- Entering the pairs of a map, one after the other, gives the map. -/
theorem foldl_update_lookup {l : List (Bytes × Bytes)} (h : (l.map (·.1)).Nodup) (t : Header)
    (name : Bytes) :
    l.foldl (fun (t : Header) h => Function.update t h.1 (some h.2)) t name =
      (l.lookup name).or (t name) := by
  induction l generalizing t with
  | nil => rfl
  | cons p l ih =>
    obtain ⟨k, v⟩ := p
    rw [List.map_cons, List.nodup_cons] at h
    rw [List.foldl_cons, ih h.2]
    by_cases hk : name = k
    · subst hk
      have hnone : l.lookup name = none := by
        rw [List.lookup_eq_none_iff]
        intro p hp
        have hne : name ≠ p.1 := fun he => h.1 (List.mem_map.mpr ⟨p, hp, he.symm⟩)
        simpa using hne
      simp [hnone]
    · have hbeq : (name == k) = false := by simpa using hk
      simp [List.lookup_cons, hbeq, hk]

theorem ClientCall.lookup_eq_none (c : ClientCall) {name : Bytes}
    (h : ∀ p ∈ c.header, p.1 ≠ name) : c.header.lookup name = none := by
  rw [List.lookup_eq_none_iff]
  intro p hp
  simpa using (h p hp).symm

/-- The table of the client's message: the caller's map, the host, and the length of a body. -/
theorem ClientCall.table_message (c : ClientCall) (name : Bytes) :
    c.message.table name =
      if name = hostName then some c.host
      else if name = contentLengthName then
        if 0 < c.contentLength then some (decimal c.contentLength) else none
      else c.header.lookup name := by
  have hcaller : ∀ t : Header, c.callerFields.foldl
      (fun (t : Header) f => Function.update t f.name (some f.value)) t name =
        (c.header.lookup name).or (t name) := by
    intro t
    rw [← foldl_update_lookup c.names_nodup, callerFields, List.foldl_map]
    conv_rhs => rw [← List.attach_map_subtype_val c.header, List.foldl_map]
    rfl
  have hne : hostName ≠ contentLengthName := by decide
  have hlast : c.message.table name = if 0 < c.contentLength ∧ name = contentLengthName then
      some (decimal c.contentLength) else c.callerFields.foldl
        (fun (t : Header) f => Function.update t f.name (some f.value))
        (Function.update (fun _ => none) hostName (some c.host)) name := by
    by_cases h : 0 < c.contentLength
    · by_cases hname : name = contentLengthName
      · simp [Message.table, message, h, hname, spacedField]
      · simp [Message.table, message, h, hname, spacedField]
    · simp [Message.table, message, h, spacedField]
  rw [hlast, hcaller]
  by_cases hhost : name = hostName
  · subst hhost
    simp [c.lookup_eq_none c.name_host, hne]
  · by_cases hname : name = contentLengthName
    · subst hname
      simp [c.lookup_eq_none c.name_length, hhost]
    · simp [hhost, hname]

/-- The length that the client announces is the one that the server goes on to read. -/
theorem ClientCall.stoull_announced (c : ClientCall) (h : c.contentLength < 2 ^ 64) {text : Bytes}
    (htext : c.message.table contentLengthName = some text) :
    stoull text 10 = .ok c.contentLength := by
  have hne : contentLengthName ≠ hostName := by decide
  rw [c.table_message, if_neg hne, if_pos rfl, Option.ite_none_right_eq_some,
    Option.some.injEq] at htext
  obtain ⟨_, rfl⟩ := htext
  exact stoull_decimal h

/-- What the client writes ends at its first empty line, and the server's parser reads back the
method, the path (a slash for the empty one), version `1.1` and exactly the caller's fields, the
host and the length of a body. -/
theorem parseRequest_clientRequest (c : ClientCall) (rest : Bytes) :
    let block := clientRequest c.host c.method c.path c.header c.contentLength
    findSub crlfcrlf (block ++ rest) = some (block.length - 4) ∧ 4 ≤ block.length ∧
      ∃ r, parseRequest (.new (block ++ rest)) = some (.ok r) ∧ r.method = c.method ∧
        r.path = (if c.path = [] then ascii "/" else c.path) ∧ r.httpVersion = ascii "1.1" ∧
        r.content = .over rest ∧ ∀ name, r.header name =
          if name = hostName then some c.host
          else if name = contentLengthName then
            if 0 < c.contentLength then some (decimal c.contentLength) else none
          else c.header.lookup name := by
  simp only [c.encode_message]
  refine ⟨c.message.findSub_encode rest, c.message.four_le_length_encode, c.message.request rest,
    c.message.parseRequest_encode rest, rfl, rfl, rfl, rfl, c.table_message⟩

/-- A call with a field without a value and one whose value starts with a space. -/
def sampleCall : ClientCall where
  host := ascii "localhost:8080"
  method := ascii "PUT"
  path := []
  header := [(ascii "X-Empty", []), (ascii "X-Padded", ascii " a: b")]
  contentLength := 3
  host_lf := by decide
  method_sp := by decide
  method_lf := by decide
  path_sp := List.not_mem_nil
  path_lf := List.not_mem_nil
  names_nodup := by decide
  name_colon := by decide
  name_lf := by decide
  name_host := by decide
  name_length := by decide
  value_lf := by decide

/-- The agreement applied to that call. -/
theorem parseRequest_clientRequest_padded :
    ∃ r, parseRequest (.new (sampleCall.message.encode ++ ascii "abc")) = some (.ok r) ∧
      r.path = ascii "/" ∧ r.header (ascii "X-Empty") = some [] ∧
      r.header (ascii "X-Padded") = some (ascii " a: b") := by
  obtain ⟨_, _, r, hr, _, hpath, _, _, hheader⟩ :=
    parseRequest_clientRequest sampleCall (ascii "abc")
  rw [sampleCall.encode_message] at hr
  exact ⟨r, hr, hpath, hheader _, hheader _⟩

end AsioCoroFrame.Http
