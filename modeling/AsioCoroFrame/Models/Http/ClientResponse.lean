import AsioCoroFrame.Models.FlowNumber.Handler
import AsioCoroFrame.Models.Http.Client
import AsioCoroFrame.Models.Http.Connection

/-!
# What the client reads back

`ClientBase::request` reads until its buffer holds an empty line, parses the
status line and the header off the front, and reads on by the announced length
or chunk by chunk. The counts it asks the socket for are kept beside the
response, since they are computed in wrapping arithmetic from what the first
read happened to take in.
-/

namespace AsioCoroFrame.Http

/-- `ClientBase::Response`; `content` reads `content_buffer`. -/
structure ClientResponse where
  httpVersion : Bytes
  statusCode : Bytes
  header : Header
  content : IStream

/-- A new response over the buffer filled by the first read. -/
def ClientResponse.new (buf : Bytes) : ClientResponse := ⟨[], [], fun _ => none, .over buf⟩

/-- The exceptions that `request` passes on as an `invalid_argument`. -/
inductive ClientException where
  /-- The socket is closed before a read is satisfied. -/
  | endOfFile
  /-- `std::length_error` of `resize`. -/
  | lengthError
  | std (e : StdException)
  deriving DecidableEq, Repr

/-- How reading a response ends, with the counts handed to `transfer_exactly`. -/
inductive Receipt (α : Type) where
  | returned (a : α) (asked : List Nat)
  | raised (e : ClientException) (asked : List Nat)
  /-- `pop_back` on an empty string. -/
  | undefined
  /-- A loop that never ends. -/
  | stuck

/-- Go on with what has been read. -/
def Receipt.bind {α β : Type} : Receipt α → (α → Receipt β) → Receipt β
  | .returned a asked, f =>
    match f a with
    | .returned b asked' => .returned b (asked ++ asked')
    | .raised e asked' => .raised e (asked ++ asked')
    | .undefined => .undefined
    | .stuck => .stuck
  | .raised e asked, _ => .raised e asked
  | .undefined, _ => .undefined
  | .stuck, _ => .stuck

/-- `boost::asio::read_until(.., delim)` into a buffer that may already hold something. -/
def readUntilDelim (delim buf : Bytes) : Socket → Option (Bytes × Nat × Socket)
  | [] => (findSub delim buf).map fun i => (buf, i + delim.length, [])
  | s :: rest =>
    match findSub delim buf with
    | some i => some (buf, i + delim.length, s :: rest)
    | none => readUntilDelim delim (buf ++ s) rest

/-- The first line of `parse_response_header`; without a space there is nothing to take. -/
def statusLine (line : Bytes) : Except StdException (Option (Bytes × Bytes)) :=
  match findFrom sp 0 line with
  | none => .ok none
  | some versionEnd => do
    let version ← substr line 5 (sizeSub versionEnd 5)
    let status ← substr line (versionEnd + 1) (sizeSub (sizeSub line.length versionEnd) 2)
    return some (version, status)

/-- `ClientBase::parse_response_header`; the header loop is the one of the server. -/
def parseResponseHeader (response : ClientResponse) :
    Option (Except StdException ClientResponse) :=
  let (line, stream) := response.content.getline []
  match statusLine line with
  | .error e => some (.error e)
  | .ok none => some (.ok { response with content := stream })
  | .ok (some (version, status)) =>
    (headerLoop (stream.buf.length + 2) line stream response.header).map fun result =>
      result.map fun (header, stream) => ⟨version, status, header, stream⟩

/-- `boost::asio::read(.., transfer_exactly(n))` into the buffer behind a stream. -/
def readExactly (content : IStream) (n : Nat) (socket : Socket) : Receipt (IStream × Socket) :=
  match transferExactly n socket with
  | none => .raised .endOfFile [n]
  | some (b, rest) => .returned (content.append b, rest) [n]

/-- The state of the loop over the chunks after a round. -/
structure Chunk where
  length : Nat
  content : IStream
  /-- The string `buffer`, which holds the bytes of the chunk. -/
  buffer : Bytes
  socket : Socket

/-- `getline(response->content, line)`, with the bytes that are buffered behind the size line. -/
def sizeLine (content : IStream) (bytesTransferred : Nat) : Bytes × IStream × Nat :=
  let (line, content) := content.getline []
  (line, content,
    sizeSub content.buf.length (sizeSub bytesTransferred (line.length + 1)))

/-- The size line has been read: the chunk and its line end are completed in the buffer, copied
out and dropped. -/
def takeChunk (length numAdditionalBytes : Nat) (content : IStream) (buffer : Bytes)
    (socket : Socket) : Receipt Chunk :=
  let wanted := (2 + length) % 2 ^ 64
  let reading := if numAdditionalBytes < wanted then
      readExactly content (wanted - numAdditionalBytes) socket
    else .returned (content, socket) []
  reading.bind fun (content, socket) =>
    if 2 ^ 63 ≤ length then .raised .lengthError []
    else
      let (stored, content) := content.read length
      .returned ⟨length, content.get.get, stored ++ (resize buffer length).drop stored.length,
        socket⟩ []

/-- One round of the loop over the chunks. -/
def readChunk (content : IStream) (buffer : Bytes) (socket : Socket) : Receipt Chunk :=
  match readUntilDelim crlf content.buf socket with
  | none => .raised .endOfFile []
  | some (buf, bytesTransferred, socket) =>
    let (line, content, numAdditionalBytes) := sizeLine { content with buf := buf } bytesTransferred
    if line = [] then .undefined
    else match stoull line.dropLast 16 with
      | .error e => .raised (.std e) []
      | .ok length => takeChunk length numAdditionalBytes content buffer socket

/-- The `do`-`while` loop; `decoded` is what has been written to the local stream buffer. -/
def chunkLoop : Nat → IStream → Bytes → Bytes → Socket → Receipt (IStream × Bytes)
  | 0, _, _, _, _ => .stuck
  | fuel + 1, content, decoded, buffer, socket =>
    (readChunk content buffer socket).bind fun c =>
      if 0 < c.length then chunkLoop fuel c.content (decoded ++ c.buffer) c.buffer c.socket
      else .returned (c.content, decoded ++ c.buffer) []

/-- The name of the field that announces chunks. -/
def transferEncodingName : Bytes := ascii "Transfer-Encoding"

/-- `ClientBase::request` after the request has been written. Every round of the loop takes a byte
of the size line off the buffer, so the loop is given as many rounds as there are bytes. -/
def receive (socket : Socket) : Receipt ClientResponse :=
  match readUntilDelim crlfcrlf [] socket with
  | none => .raised .endOfFile []
  | some (buf, bytesTransferred, rest) =>
    let numAdditionalBytes := sizeSub buf.length bytesTransferred
    match parseResponseHeader (.new buf) with
    | none => .stuck
    | some (.error e) => .raised (.std e) []
    | some (.ok response) =>
      match response.header contentLengthName with
      | some text =>
        match stoull text 10 with
        | .error e => .raised (.std e) []
        | .ok n => (readExactly response.content (sizeSub n numAdditionalBytes) rest).bind
            fun (content, _) => .returned { response with content := content } []
      | none =>
        if response.header transferEncodingName = some (ascii "chunked") then
          (chunkLoop (socket.flatten.length + 1) response.content [] [] rest).bind
            fun (content, decoded) =>
              .returned { response with content := content.append decoded } []
        else .returned response []

/-! ## The responses of the server's handlers -/

/-- The form of every response that the server's handlers write. -/
def serverResponse (status body : Bytes) : Bytes :=
  ascii "HTTP/1.1 " ++ status ++ crlf ++ ascii "Content-Length: " ++ decimal body.length ++
    crlfcrlf ++ body

/-- A status text and a body of which such a response can be made. -/
structure HandlerResponse where
  status : Bytes
  body : Bytes
  status_lf : lf ∉ status
  /-- The length is a `size_t`. -/
  body_length : body.length < 2 ^ 64

/-- The response on the wire. -/
def HandlerResponse.encode (r : HandlerResponse) : Bytes := serverResponse r.status r.body

/-- The table of its only field. -/
def HandlerResponse.table (r : HandlerResponse) : Header :=
  Function.update (fun _ => none) contentLengthName (some (decimal r.body.length))

/-- What the client should see. -/
def HandlerResponse.response (r : HandlerResponse) : ClientResponse :=
  ⟨ascii "1.1", r.status, r.table, .over r.body⟩

/-! ## Reading up to a delimiter -/

/-- A delimiter that the stream contains is found however the stream is cut into reads; what has
been read in excess and what is still to come are together what follows the buffer. -/
theorem readUntilDelim_eq_some {delim buf : Bytes} {socket : Socket} {i : Nat}
    (h : findSub delim (buf ++ socket.flatten) = some i) :
    ∃ buf' rest, readUntilDelim delim buf socket = some (buf', i + delim.length, rest) ∧
      buf' ++ rest.flatten = buf ++ socket.flatten ∧ i + delim.length ≤ buf'.length := by
  induction socket generalizing buf with
  | nil =>
    rw [List.flatten_nil, List.append_nil] at h
    exact ⟨buf, [], by simp [readUntilDelim, h], rfl, (findSub_some h).2⟩
  | cons s socket ih =>
    cases hbuf : findSub delim buf with
    | some j =>
      obtain rfl : j = i := by
        rw [findSub_append hbuf] at h
        exact Option.some.inj h
      exact ⟨buf, s :: socket, by simp [readUntilDelim, hbuf], rfl, (findSub_some hbuf).2⟩
    | none =>
      rw [List.flatten_cons, ← List.append_assoc] at h
      obtain ⟨buf', rest, hread, hflat, hlen⟩ := ih h
      refine ⟨buf', rest, by simp [readUntilDelim, hbuf, hread], ?_, hlen⟩
      rw [hflat, List.flatten_cons, List.append_assoc]

/-! ## The header of a response -/

/-- The status line is taken apart at its first space, its last byte taken for the carriage
return. -/
theorem statusLine_append {mark rest : Bytes} (hsp : sp ∉ mark) (hmark : 5 ≤ mark.length) :
    statusLine (mark ++ sp :: rest) = .ok (some (mark.drop 5, rest.dropLast)) := by
  have hfind : findFrom sp 0 (mark ++ sp :: rest) = some mark.length :=
    findFrom_zero_append rest hsp
  have hlen : (mark ++ sp :: rest).length = mark.length + 1 + rest.length := by
    rw [List.length_append, List.length_cons]
    omega
  have hversion : substr (mark ++ sp :: rest) 5 (sizeSub mark.length 5) = .ok (mark.drop 5) := by
    rw [substr_of_le _ (by omega), sizeSub_of_le hmark, List.drop_append_of_le_length hmark,
      List.take_left' (List.length_drop ..)]
  have hstatus : substr (mark ++ sp :: rest) (mark.length + 1)
      (sizeSub (sizeSub (mark ++ sp :: rest).length mark.length) 2) = .ok rest.dropLast := by
    have hdrop : (mark ++ sp :: rest).drop (mark.length + 1) = rest := by
      rw [← List.drop_drop, List.drop_left, List.drop_one, List.tail_cons]
    rw [substr_dropLast (by omega), hdrop]
    intro hpos
    simp (disch := omega) only [sizeSub_of_le]
    omega
  simp only [statusLine, hfind, hversion, hstatus]
  rfl

/-- A status text and header fields. -/
structure ResponseHead where
  status : Bytes
  fields : List Field
  status_lf : lf ∉ status

/-- The lines of the header. -/
def ResponseHead.lines (r : ResponseHead) : List Bytes :=
  (ascii "HTTP/1.1 " ++ r.status) :: r.fields.map Field.line

/-- The header on the wire, up to the empty line. -/
def ResponseHead.encode (r : ResponseHead) : Bytes := r.lines.flatMap (· ++ crlf) ++ crlf

/-- The table of the fields; a later field replaces an earlier one of its name. -/
def ResponseHead.table (r : ResponseHead) : Header :=
  r.fields.foldl (fun t f => Function.update t f.name (some f.value)) fun _ => none

theorem ResponseHead.statusLine_lf (r : ResponseHead) : lf ∉ ascii "HTTP/1.1 " ++ r.status := by
  have hmark : lf ∉ ascii "HTTP/1.1 " := by decide
  simp [hmark, r.status_lf]

/-- The first empty line of a response ends its header. -/
theorem ResponseHead.findSub_encode (r : ResponseHead) (rest : Bytes) :
    ∃ i, findSub crlfcrlf (r.encode ++ rest) = some i ∧ i + crlfcrlf.length = r.encode.length := by
  have hlines : ∀ l ∈ r.lines, lf ∉ l ∧ l ≠ [] := by
    intro l hl
    rcases List.mem_cons.mp hl with rfl | hl
    · exact ⟨r.statusLine_lf, by simp [show ascii "HTTP/1.1 " ≠ [] by decide]⟩
    · obtain ⟨f, _, rfl⟩ := List.mem_map.mp hl
      exact ⟨f.line_lf, by simp [Field.line]⟩
  have hlong : 2 ≤ (r.lines.flatMap (· ++ crlf)).length := by
    rw [lines, List.flatMap_cons, List.length_append, List.length_append,
      show crlf.length = 2 from rfl]
    omega
  rw [encode, List.append_assoc]
  refine ⟨_, findSub_lines rest hlines, ?_⟩
  change (r.lines.flatMap (· ++ crlf)).length - 2 + 4 = _
  rw [List.length_append, show crlf.length = 2 from rfl]
  omega

/-- However the response is cut into reads, the first read ends in the header or takes in the
beginning of the body. -/
theorem ResponseHead.readUntilDelim_encode (r : ResponseHead) {socket : Socket} {body : Bytes}
    (h : socket.flatten = r.encode ++ body) :
    ∃ b rest, readUntilDelim crlfcrlf [] socket = some (r.encode ++ b, r.encode.length, rest) ∧
      b ++ rest.flatten = body := by
  obtain ⟨i, hfind, hi⟩ := r.findSub_encode body
  rw [← h, ← List.nil_append socket.flatten] at hfind
  obtain ⟨buf, rest, hread, hflat, hlen⟩ := readUntilDelim_eq_some hfind
  rw [List.nil_append, h] at hflat
  rw [hi] at hread hlen
  obtain ⟨b, rfl⟩ : r.encode <+: buf := by
    apply List.prefix_of_prefix_length_le (List.prefix_append _ body) _ hlen
    rw [← hflat]
    exact List.prefix_append ..
  rw [List.append_assoc] at hflat
  exact ⟨b, rest, hread, List.append_cancel_left hflat⟩

/-- The parser takes the header of a response apart and leaves what follows unread. -/
theorem ResponseHead.parseResponseHeader_encode (r : ResponseHead) (rest : Bytes) :
    parseResponseHeader (.new (r.encode ++ rest)) =
      some (.ok ⟨ascii "1.1", r.status, r.table, .over rest⟩) := by
  have hsplit : r.encode ++ rest = (ascii "HTTP/1.1 " ++ r.status ++ [cr]) ++ lf ::
      (terminated ((r.fields.map Field.line).map (· ++ [cr])) ++ ([cr] ++ lf :: rest)) := by
    rw [encode, lines, flatMap_crlf]
    simp [crlf]
  have hfirst : lf ∉ ascii "HTTP/1.1 " ++ r.status ++ [cr] := by
    simpa using r.statusLine_lf
  have hstatus : statusLine (ascii "HTTP/1.1 " ++ r.status ++ [cr]) =
      .ok (some (ascii "1.1", r.status)) := by
    have hmark : ascii "HTTP/1.1 " = ascii "HTTP/1.1" ++ [sp] := by decide
    rw [hmark, List.append_assoc, List.append_assoc, List.singleton_append,
      statusLine_append (by decide) (by decide), List.dropLast_concat]
    rfl
  generalize hls : (r.fields.map Field.line).map (· ++ [cr]) = ls at hsplit
  have hfields : ∀ l ∈ ls, lf ∉ l ∧ colon ∈ l := hls ▸ field_lines
  have henter : ls.foldl Header.enter (fun _ => none) = r.table := by
    rw [← hls]
    exact foldl_enter_fields ..
  have hstop : lf ∉ [cr] ∧ colon ∉ [cr] := by decide
  have hloop := headerLoop_lines rest hfields hstop
    (lines_lt_fuel ls ([cr] ++ lf :: rest)) (ascii "HTTP/1.1 " ++ r.status ++ [cr]) fun _ => none
  rw [hsplit]
  simp only [parseResponseHeader, ClientResponse.new, IStream.getline_line [] _ hfirst, hstatus]
  rw [show (IStream.over (terminated ls ++ ([cr] ++ lf :: rest))).buf =
    terminated ls ++ ([cr] ++ lf :: rest) from rfl, hloop, henter]
  rfl

/-! ## Reading a response with a length -/

/-- The field that announces the body. -/
def HandlerResponse.field (r : HandlerResponse) : Field :=
  spacedField contentLengthName (decimal r.body.length) contentLengthName_colon
    contentLengthName_lf (decimal_lf _)

/-- The lines of the header. -/
def HandlerResponse.lines (r : HandlerResponse) : List Bytes :=
  [ascii "HTTP/1.1 " ++ r.status, r.field.line]

/-- The header block of a response, up to the empty line. -/
def HandlerResponse.headerBlock (r : HandlerResponse) : Bytes :=
  r.lines.flatMap (· ++ crlf) ++ crlf

/-- The status and the only field. -/
def HandlerResponse.head (r : HandlerResponse) : ResponseHead := ⟨r.status, [r.field], r.status_lf⟩

/-- A response is its header and the body. -/
theorem HandlerResponse.encode_eq (r : HandlerResponse) : r.encode = r.headerBlock ++ r.body := by
  have hend : crlfcrlf = crlf ++ crlf := rfl
  simp [encode, serverResponse, headerBlock, lines, field, spacedField_line, ascii_contentLength,
    hend]

/-- However the response is cut into reads, the first read takes in a part of the body. -/
theorem HandlerResponse.readUntilDelim_encode (r : HandlerResponse) {socket : Socket}
    (h : socket.flatten = r.encode) :
    ∃ b rest, readUntilDelim crlfcrlf [] socket =
      some (r.headerBlock ++ b, r.headerBlock.length, rest) ∧ b ++ rest.flatten = r.body :=
  r.head.readUntilDelim_encode (h.trans r.encode_eq)

/-- The parser takes the header of a response apart and leaves what follows unread. -/
theorem HandlerResponse.parseResponseHeader_headerBlock (r : HandlerResponse) (rest : Bytes) :
    parseResponseHeader (.new (r.headerBlock ++ rest)) =
      some (.ok ⟨ascii "1.1", r.status, r.table, .over rest⟩) :=
  r.head.parseResponseHeader_encode rest

/-- When the first read takes in `k` bytes of the body, the client goes on to read exactly the
`body.length - k` bytes that are missing, and returns the response as it was sent. -/
theorem receive_encode (r : HandlerResponse) {socket : Socket} (h : socket.flatten = r.encode) :
    ∃ k rest, k ≤ r.body.length ∧
      readUntilDelim crlfcrlf [] socket =
        some (r.headerBlock ++ r.body.take k, r.headerBlock.length, rest) ∧
      receive socket = .returned r.response [r.body.length - k] := by
  obtain ⟨b, rest, hread, hbody⟩ := r.readUntilDelim_encode h
  have hlen : r.body.length = b.length + rest.flatten.length := by
    rw [← hbody, List.length_append]
  have hextra : sizeSub (r.headerBlock ++ b).length r.headerBlock.length = b.length := by
    rw [List.length_append, sizeSub_of_le (Nat.le_add_right _ _), Nat.add_sub_cancel_left]
  have hcount : sizeSub r.body.length b.length = rest.flatten.length := by
    rw [hlen, sizeSub_of_le (Nat.le_add_right _ _), Nat.add_sub_cancel_left]
  obtain ⟨rest', htransfer, _⟩ := transferExactly_eq_some (le_refl rest.flatten.length)
  rw [List.take_length] at htransfer
  have htext : r.table contentLengthName = some (decimal r.body.length) :=
    Function.update_self ..
  have hcontent : (IStream.over b).append rest.flatten = .over r.body := by
    rw [← hbody]
    rfl
  have htake : r.body.take b.length = b := by
    rw [← hbody, List.take_left]
  refine ⟨b.length, rest, by omega, by rw [htake, hread], ?_⟩
  rw [show r.body.length - b.length = rest.flatten.length by omega]
  simp only [receive, hread, hextra, r.parseResponseHeader_headerBlock, htext,
    stoull_decimal r.body_length, hcount, readExactly, htransfer, Receipt.bind, hcontent]
  rfl

/-- A response whose body looks like a header. -/
def sampleResponse : HandlerResponse where
  status := ascii "200 OK"
  body := ascii "a: b\r\n\r\nc"
  status_lf := by decide
  body_length := by decide

/-- That response, cut inside the empty line and inside the body. -/
theorem receive_encode_cut :
    ∃ k rest, k ≤ sampleResponse.body.length ∧
      readUntilDelim crlfcrlf []
          [ascii "HTTP/1.1 200 OK\r\nContent-Length: 9\r\n\r", ascii "\na: b\r", ascii "\n\r\nc"] =
        some (sampleResponse.headerBlock ++ sampleResponse.body.take k,
          sampleResponse.headerBlock.length, rest) ∧
      receive
          [ascii "HTTP/1.1 200 OK\r\nContent-Length: 9\r\n\r", ascii "\na: b\r", ascii "\n\r\nc"] =
        .returned sampleResponse.response [sampleResponse.body.length - k] :=
  receive_encode sampleResponse (by decide)

/-! ## The flow-number handler -/

/-- A response determines its status and its body. -/
theorem serverResponse_inj {status status' body body' : Bytes} (hs : lf ∉ status)
    (hs' : lf ∉ status') (h : serverResponse status body = serverResponse status' body') :
    status = status' ∧ body = body' := by
  have hfirst {s : Bytes} (hlf : lf ∉ s) (b : Bytes) : cut lf (serverResponse s b) =
      some (ascii "HTTP/1.1 " ++ s ++ [cr],
        ascii "Content-Length: " ++ (decimal b.length ++ cr :: lf :: cr :: lf :: b)) := by
    have hline : lf ∉ ascii "HTTP/1.1 " ++ s ++ [cr] := by
      simp [hlf, show lf ∉ ascii "HTTP/1.1 " by decide]
    rw [← cut_append _ hline]
    simp [serverResponse, crlf, crlfcrlf]
  have hcut := congrArg (cut lf) h
  rw [hfirst hs, hfirst hs', Option.some.injEq, Prod.mk.injEq, List.append_left_inj,
    List.append_right_inj, List.append_right_inj] at hcut
  have hbody := congrArg (cut cr) hcut.2
  rw [cut_append _ (not_mem_decimal _ (by decide)), cut_append _ (not_mem_decimal _ (by decide)),
    Option.some.injEq, Prod.mk.injEq] at hbody
  exact ⟨hcut.1, by simpa using hbody.2⟩

/-- The handler's successful response has that form. -/
theorem okResponse_eq (now value : Bytes) :
    FlowNumber.okResponse now value = serverResponse (ascii "200 OK")
      (ascii "\x7b\"flowNo\":\"" ++ value ++ ascii "\",\"replyTime\" : \"" ++ now ++
        ascii "\"\x7d") := by
  have hline : ascii "HTTP/1.1 200 OK\r\nContent-Length: " =
      ascii "HTTP/1.1 " ++ ascii "200 OK" ++ crlf ++ ascii "Content-Length: " := by decide
  rw [FlowNumber.okResponse, hline]
  rfl

/-- So has the response of its `catch` clauses. -/
theorem badRequest_eq (what : Bytes) :
    FlowNumber.badRequest what =
      serverResponse (ascii "400 Bad Request") (Cluster.cString what) := by
  have hline : ascii "HTTP/1.1 400 Bad Request\r\nContent-Length: " =
      ascii "HTTP/1.1 " ++ ascii "400 Bad Request" ++ crlf ++ ascii "Content-Length: " := by decide
  rw [FlowNumber.badRequest, hline]
  rfl

end AsioCoroFrame.Http
