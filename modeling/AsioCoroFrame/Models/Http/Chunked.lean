import AsioCoroFrame.Models.Http.ClientResponse

/-!
# Decoding a chunked response

The client reads a size line, tops its buffer up to the end of the chunk and
copies the data out, until it meets an empty chunk. What is buffered and what
the socket still delivers are together what follows the chunks taken so far,
so the result does not depend on how the network cuts the stream.
-/

namespace AsioCoroFrame.Http

/-! ## Chunks on the wire -/

/-- A chunk and the hexadecimal numeral that announces it. -/
structure WireChunk where
  size : Bytes
  data : Bytes
  size_ne : size ≠ []
  size_digit : ∀ b ∈ size, isDigit 16 b = true
  size_value : digitsValue 16 size = data.length
  /-- The data fit in a `std::string`. -/
  data_length : data.length < 2 ^ 63

/-- The size line, the data and a line end. -/
def WireChunk.encode (c : WireChunk) : Bytes := c.size ++ crlf ++ c.data ++ crlf

/-- The empty chunk that closes a body. -/
def WireChunk.last : WireChunk where
  size := ascii "0"
  data := []
  size_ne := by decide
  size_digit := List.all_eq_true.mp rfl
  size_value := by decide
  data_length := by decide

/-- A response whose header announces chunks and no length. -/
structure ChunkedResponse where
  head : ResponseHead
  chunks : List WireChunk
  chunk_ne : ∀ c ∈ chunks, c.data ≠ []
  unsized : head.table contentLengthName = none
  chunked : head.table transferEncodingName = some (ascii "chunked")

/-- The chunks, closed by `0` and two line ends. -/
def encodeChunks (cs : List WireChunk) : Bytes :=
  cs.flatMap WireChunk.encode ++ (ascii "0" ++ crlf ++ crlf)

/-- The response on the wire. -/
def ChunkedResponse.encode (r : ChunkedResponse) : Bytes := r.head.encode ++ encodeChunks r.chunks

/-- What the client should see. -/
def ChunkedResponse.response (r : ChunkedResponse) : ClientResponse :=
  ⟨ascii "1.1", r.head.status, r.head.table, .over (r.chunks.flatMap WireChunk.data)⟩

/-! ## One chunk -/

/-- A pattern is found right behind bytes that avoid its first byte. -/
theorem findSub_behind {p : Byte} {ps a : Bytes} (b : Bytes) (h : p ∉ a) :
    findSub (p :: ps) (a ++ (p :: ps ++ b)) = some a.length :=
  findSub_clear (clear_of_notMem h ps _)

/-- The size line is taken off the buffer; what is left belongs to the data. -/
theorem sizeLine_line {size : Bytes} (hsize : lf ∉ size) (x : Bytes) :
    sizeLine (.over (size ++ crlf ++ x)) (size.length + crlf.length) =
      (size ++ [cr], .over x, x.length) := by
  have hline : lf ∉ size ++ [cr] := by simp [hsize]
  have hsplit : size ++ crlf ++ x = (size ++ [cr]) ++ lf :: x := by simp [crlf]
  have hcount : sizeSub (size.length + crlf.length) ((size ++ [cr]).length + 1) = 0 := by
    rw [List.length_append, show crlf.length = 2 from rfl, show [cr].length = 1 from rfl,
      sizeSub_of_le le_rfl, Nat.sub_self]
  rw [hsplit, sizeLine]
  simp only [IStream.getline_line [] x hline, hcount]
  simp [IStream.over]

/-- A good stream yields the data in front and drops the line end behind them. -/
theorem read_data (data y : Bytes) :
    (IStream.over (data ++ crlf ++ y)).read data.length = (data, .over (crlf ++ y)) ∧
      (IStream.over (crlf ++ y)).get.get = .over y := by
  constructor
  · simp [IStream.read, IStream.over]
  · simp [IStream.get, IStream.over, crlf]

/-- What is missing of a chunk is read, so that the buffer starts with all of it. -/
theorem topUp_data {data x y : Bytes} {socket : Socket}
    (h : x ++ socket.flatten = data ++ crlf ++ y) :
    ∃ z socket' asked, (if x.length < 2 + data.length then
        readExactly (.over x) (2 + data.length - x.length) socket
      else .returned (.over x, socket) []) =
        .returned (.over (data ++ crlf ++ z), socket') asked ∧ z ++ socket'.flatten = y := by
  have hchunk : (data ++ crlf).length = 2 + data.length := by
    rw [List.length_append, show crlf.length = 2 from rfl, Nat.add_comm]
  have htotal := congrArg List.length h
  rw [List.length_append, List.length_append, hchunk] at htotal
  by_cases hmissing : x.length < 2 + data.length
  · obtain ⟨socket', htransfer, hrest⟩ := @transferExactly_eq_some
      (2 + data.length - x.length) socket (by omega)
    have hx : x ++ socket.flatten.take (2 + data.length - x.length) = data ++ crlf := by
      have htake := congrArg (List.take (2 + data.length)) h
      rwa [List.take_append, List.take_of_length_le hmissing.le, List.take_left' hchunk] at htake
    have hdrop : socket.flatten.drop (2 + data.length - x.length) = y := by
      have hd := congrArg (List.drop (2 + data.length)) h
      rwa [List.drop_append, List.drop_of_length_le hmissing.le, List.nil_append,
        List.drop_left' hchunk] at hd
    refine ⟨[], socket', [2 + data.length - x.length], ?_, ?_⟩
    · simp only [hmissing, if_true, readExactly, htransfer, IStream.append, IStream.over, hx,
        List.append_nil]
    · rw [List.nil_append, hrest, hdrop]
  · obtain ⟨z, rfl⟩ : data ++ crlf <+: x := by
      refine List.prefix_of_prefix_length_le (List.prefix_append _ y) ?_ (by omega)
      exact h ▸ List.prefix_append ..
    refine ⟨z, socket, [], by simp only [hmissing, if_false], ?_⟩
    rw [List.append_assoc] at h
    exact List.append_cancel_left h

/-- Once the size line has been read, the data are copied out and the line end is dropped. -/
theorem takeChunk_data {data x y : Bytes} (buffer : Bytes) {socket : Socket}
    (hlen : data.length < 2 ^ 63) (h : x ++ socket.flatten = data ++ crlf ++ y) :
    ∃ b socket' asked, takeChunk data.length x.length (.over x) buffer socket =
        .returned ⟨data.length, .over b, data, socket'⟩ asked ∧ b ++ socket'.flatten = y := by
  have hwanted : (2 + data.length) % 2 ^ 64 = 2 + data.length := Nat.mod_eq_of_lt (by omega)
  have hfit : ¬ 2 ^ 63 ≤ data.length := by omega
  have hbuffer : data ++ (resize buffer data.length).drop data.length = data := by
    have hsize : (resize buffer data.length).length = data.length := by
      simp only [resize, List.length_append, List.length_take, List.length_replicate]
      omega
    rw [List.drop_of_length_le hsize.le, List.append_nil]
  obtain ⟨z, socket', asked, hread, hz⟩ := topUp_data h
  obtain ⟨hdata, hget⟩ := read_data data z
  refine ⟨z, socket', asked ++ [], ?_, hz⟩
  rw [List.append_assoc] at hdata hread
  simp only [takeChunk, hwanted, hread, Receipt.bind, hfit, if_false, hdata, hget, hbuffer]

/-- A round of the loop takes one chunk off the stream, however it is spread over the buffer and
the reads to come. -/
theorem readChunk_encode (c : WireChunk) {b y : Bytes} (buffer : Bytes) {socket : Socket}
    (h : b ++ socket.flatten = c.encode ++ y) :
    ∃ b' socket' asked, readChunk (.over b) buffer socket =
        .returned ⟨c.data.length, .over b', c.data, socket'⟩ asked ∧
      b' ++ socket'.flatten = y := by
  have hcr : cr ∉ c.size := fun hmem => absurd (c.size_digit _ hmem) (by decide)
  have hlf : lf ∉ c.size := fun hmem => absurd (c.size_digit _ hmem) (by decide)
  have hsplit : c.encode ++ y = c.size ++ (crlf ++ (c.data ++ crlf ++ y)) := by
    simp [WireChunk.encode]
  have hfind : findSub crlf (b ++ socket.flatten) = some c.size.length := by
    rw [h, hsplit]
    exact findSub_behind _ hcr
  obtain ⟨buf, rest, hread, hflat, hlen⟩ := readUntilDelim_eq_some hfind
  rw [h, hsplit, ← List.append_assoc] at hflat
  obtain ⟨x, rfl⟩ : c.size ++ crlf <+: buf := by
    refine List.prefix_of_prefix_length_le (List.prefix_append _ (c.data ++ crlf ++ y)) ?_ ?_
    · exact hflat ▸ List.prefix_append ..
    · rwa [List.length_append]
  rw [List.append_assoc] at hflat
  have hnum : stoull c.size 16 = .ok c.data.length := by
    rw [← c.size_value]
    refine stoull_hex c.size_ne c.size_digit ?_
    rw [c.size_value]
    exact c.data_length.trans (by decide)
  obtain ⟨b', socket', asked, htake, hrest⟩ :=
    takeChunk_data buffer c.data_length (List.append_cancel_left hflat)
  refine ⟨b', socket', asked, ?_, hrest⟩
  have hline : sizeLine { IStream.over b with buf := c.size ++ crlf ++ x }
      (c.size.length + crlf.length) = (c.size ++ [cr], .over x, x.length) := sizeLine_line hlf x
  have hbuf : (IStream.over b).buf = b := rfl
  have hne : c.size ++ [cr] ≠ [] := by simp
  simp only [readChunk, hbuf, hread, hline, hne, if_false, List.dropLast_concat, hnum, htake]

/-! ## All chunks -/

/-- The loop takes the chunks one after the other and ends with the empty one. -/
theorem chunkLoop_encode {cs : List WireChunk} (hcs : ∀ c ∈ cs, c.data ≠ []) {fuel : Nat}
    (hfuel : cs.length < fuel) {b : Bytes} (decoded buffer : Bytes) {socket : Socket}
    (h : b ++ socket.flatten = encodeChunks cs) :
    ∃ asked, chunkLoop fuel (.over b) decoded buffer socket =
      .returned (.over [], decoded ++ cs.flatMap WireChunk.data) asked := by
  induction cs generalizing fuel b decoded buffer socket with
  | nil =>
    obtain ⟨fuel, rfl⟩ := Nat.exists_eq_succ_of_ne_zero (Nat.pos_iff_ne_zero.mp hfuel)
    have hlast : b ++ socket.flatten = WireChunk.last.encode ++ [] := by
      rw [h]
      simp [encodeChunks, WireChunk.encode, WireChunk.last]
    obtain ⟨b', socket', asked, hread, hrest⟩ := readChunk_encode _ buffer hlast
    obtain ⟨rfl, _⟩ := List.append_eq_nil_iff.mp hrest
    have hzero : ¬ 0 < WireChunk.last.data.length := Nat.lt_irrefl 0
    refine ⟨asked ++ [], ?_⟩
    simp only [chunkLoop, hread, Receipt.bind, hzero, if_false]
    rfl
  | cons c cs ih =>
    obtain ⟨fuel, rfl⟩ := Nat.exists_eq_succ_of_ne_zero (Nat.pos_iff_ne_zero.mp
      (Nat.zero_lt_of_lt hfuel))
    obtain ⟨hc, hcs⟩ := List.forall_mem_cons.mp hcs
    have hfirst : b ++ socket.flatten = c.encode ++ encodeChunks cs := by
      rw [h]
      simp [encodeChunks]
    obtain ⟨b', socket', asked, hread, hrest⟩ := readChunk_encode _ buffer hfirst
    obtain ⟨asked', hloop⟩ := ih hcs (Nat.lt_of_succ_lt_succ hfuel) (decoded ++ c.data) c.data hrest
    refine ⟨asked ++ asked', ?_⟩
    simp only [chunkLoop, hread, Receipt.bind, List.length_pos_iff.mpr hc, if_true, hloop,
      List.flatMap_cons, List.append_assoc]

/-- Every chunk has at least one byte on the wire. -/
theorem length_le_encodeChunks (cs : List WireChunk) : cs.length ≤ (encodeChunks cs).length := by
  induction cs with
  | nil => exact Nat.zero_le _
  | cons c cs ih =>
    have hsplit : encodeChunks (c :: cs) = c.encode ++ encodeChunks cs := by simp [encodeChunks]
    have hpos : 0 < c.encode.length := by simp [WireChunk.encode, crlf]
    rw [hsplit, List.length_append, List.length_cons]
    omega

/-- However a chunked response is cut into reads, the client returns its status, its header table
and the data of its chunks. -/
theorem receive_chunked (r : ChunkedResponse) {socket : Socket} (h : socket.flatten = r.encode) :
    ∃ asked, receive socket = .returned r.response asked := by
  obtain ⟨b, rest, hread, hbody⟩ := r.head.readUntilDelim_encode h
  have hfuel : r.chunks.length < socket.flatten.length + 1 := by
    have hchunks := length_le_encodeChunks r.chunks
    rw [h, ChunkedResponse.encode, List.length_append]
    omega
  obtain ⟨asked, hloop⟩ := chunkLoop_encode r.chunk_ne hfuel [] [] hbody
  refine ⟨asked ++ [], ?_⟩
  simp only [receive, hread, r.head.parseResponseHeader_encode, r.unsized, r.chunked, if_true,
    hloop, Receipt.bind]
  rfl

/-- Two chunks, the first of which looks like the end of a body. -/
def sampleChunked : ChunkedResponse where
  head := ⟨sampleResponse.status, [⟨transferEncodingName, true, ascii "chunked", by decide,
    by decide, by decide, fun _ => rfl⟩], sampleResponse.status_lf⟩
  chunks := [
    ⟨ascii "5", ascii "0\r\n\r\n", by decide, List.all_eq_true.mp rfl, by decide, by decide⟩,
    ⟨ascii "0A", ascii "0123456789", by decide, List.all_eq_true.mp rfl, by decide, by decide⟩]
  chunk_ne := by decide
  unsized := by decide
  chunked := by decide

/-- That response, cut inside the chunks, the first one buffered with the header. -/
theorem receive_chunked_cut :
    ∃ asked, receive
        [ascii "HTTP/1.1 200 OK\r\nTransfer-Encoding: chunked\r\n\r\n5\r\n0\r\n\r\n\r\n0",
          ascii "A\r\n01234", ascii "56789\r\n0\r\n\r\n"] =
      .returned sampleChunked.response asked :=
  receive_chunked sampleChunked (by decide)

end AsioCoroFrame.Http
