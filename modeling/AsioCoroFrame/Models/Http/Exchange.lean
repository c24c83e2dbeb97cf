import AsioCoroFrame.Models.Http.ClientResponse
import AsioCoroFrame.Models.Http.KeepAlive

/-!
# One request and its response on the wire

Neither side acts on a part of what the other one writes: the server hands over a
request only when its last byte has arrived, and the client returns a response only
when its last byte has.
-/

namespace AsioCoroFrame.Http

/-! ## Reads that end too early -/

/-- The server and the client look for the end of a header in the same way. -/
theorem readUntilDelim_crlfcrlf (buf : Bytes) (socket : Socket) :
    readUntilDelim crlfcrlf buf socket = readUntil buf socket := by
  induction socket generalizing buf with
  | nil => rfl
  | cons s socket ih =>
    rw [readUntilDelim, readUntil, ih]
    rfl

/-- Too few bytes for an exact count. -/
theorem transferExactly_eq_none {n : Nat} {socket : Socket} (h : socket.flatten.length < n) :
    transferExactly n socket = none := by
  induction socket generalizing n with
  | nil =>
    have hn : n ≠ 0 := by
      rintro rfl
      exact Nat.not_lt_zero _ h
    simp [transferExactly, hn]
  | cons s socket ih =>
    rw [List.flatten_cons, List.length_append] at h
    have hn : n ≠ 0 := by omega
    have hs : s.length ≤ n := by omega
    have hrest : transferExactly (n - s.length) socket = none := ih (by omega)
    simp [transferExactly, hn, hs, hrest]

/-- A header that has been found is the one at the front of the stream. -/
theorem readUntil_front {head after : Bytes} {reads rest : Socket} {buf : Bytes} {n i : Nat}
    (hfind : findSub crlfcrlf head = some i) (hi : i + 4 = head.length)
    (hpart : reads.flatten <+: head ++ after) (hread : readUntil [] reads = some (buf, n, rest)) :
    n = head.length ∧ ∃ extra, buf = head ++ extra ∧ extra ++ rest.flatten <+: after := by
  obtain ⟨used, rfl, hbuf⟩ := readUntil_append hread
  rw [List.nil_append] at hbuf
  subst hbuf
  obtain ⟨j, hj, rfl⟩ := readUntil_findSub hread
  obtain ⟨t, ht⟩ := hpart
  rw [List.flatten_append, List.append_assoc] at ht
  have hwhole := findSub_append hfind after
  rw [← ht, findSub_append hj, Option.some.injEq] at hwhole
  have hlen : j + 4 ≤ used.flatten.length := (findSub_some hj).2
  refine ⟨by omega, ?_⟩
  obtain ⟨extra, hextra, hafter⟩ | ⟨extra, hextra, hafter⟩ := List.append_eq_append_iff.mp ht
  · have := congrArg List.length hextra
    rw [List.length_append] at this
    obtain rfl : extra = [] := List.eq_nil_of_length_eq_zero (by omega)
    rw [List.append_nil] at hextra
    rw [List.nil_append] at hafter
    exact ⟨[], by simpa using hextra.symm, ⟨t, by simpa using hafter⟩⟩
  · exact ⟨extra, hextra, ⟨t, by rw [hafter, List.append_assoc]⟩⟩

/-- A header that is there is found. -/
theorem readUntil_isSome {head after : Bytes} {reads : Socket} {i : Nat}
    (hfind : findSub crlfcrlf head = some i) (h : reads.flatten = head ++ after) :
    ∃ buf n rest, readUntil [] reads = some (buf, n, rest) := by
  have hwhole := findSub_append hfind after
  rw [← h, ← List.nil_append reads.flatten] at hwhole
  obtain ⟨buf, rest, hread, _⟩ := readUntilDelim_eq_some hwhole
  rw [readUntilDelim_crlfcrlf] at hread
  exact ⟨buf, _, rest, hread⟩

/-! ## The request -/

/-- A call of the client with the body that its content stream holds. -/
structure Call extends ClientCall where
  body : Bytes
  body_length : body.length = contentLength
  /-- The length is a `size_t`. -/
  length_lt : contentLength < 2 ^ 64

/-- What the client writes. -/
def Call.encode (c : Call) : Bytes :=
  clientRequest c.host c.method c.path c.header c.contentLength ++ c.body

/-- The request that is handed over when `k` bytes of the body arrive with the header. -/
def Call.seen (c : Call) (k : Nat) : Request :=
  c.message.request (relog (c.body.take k) ++ c.body.drop k)

/-- A request that this call may give rise to. -/
def Call.Seen (c : Call) (request : Request) : Prop :=
  ∃ k ≤ c.body.length, request = c.seen k

/-- A body without a line feed is handed over as it was sent. -/
theorem Call.Seen.eq_request {c : Call} {request : Request} (h : c.Seen request)
    (hbody : lf ∉ c.body) : request = c.message.request c.body := by
  obtain ⟨k, _, rfl⟩ := h
  have hfront : lf ∉ c.body.take k := fun hmem => hbody (List.mem_of_mem_take hmem)
  rw [seen, relog_eq_self.mpr hfront, List.take_append_drop]

/-- Requests of the client keep the connection alive. -/
theorem Call.Seen.keepAlive {c : Call} {request : Request} (h : c.Seen request) :
    keepAlive request.httpVersion = .ok true := by
  obtain ⟨k, _, rfl⟩ := h
  exact keepAlive_one_one

theorem Call.encode_eq (c : Call) : c.encode = c.message.encode ++ c.body := by
  rw [encode, c.encode_message]

theorem Call.encode_ne_nil (c : Call) : c.encode ≠ [] := by
  intro h
  have hfour := c.message.four_le_length_encode
  rw [c.encode_eq, List.append_eq_nil_iff] at h
  rw [h.1] at hfour
  exact absurd hfour (by decide)

/-- The header of a call announces its body. -/
theorem Call.table_contentLength (c : Call) :
    c.message.table contentLengthName =
      if 0 < c.contentLength then some (decimal c.contentLength) else none := by
  have hne : contentLengthName ≠ hostName := by decide
  rw [c.table_message, if_neg hne, if_pos rfl]

/-- The end of the header of a call. -/
theorem Call.findSub_message (c : Call) :
    ∃ i, findSub crlfcrlf c.message.encode = some i ∧ i + 4 = c.message.encode.length := by
  have hfind := c.message.findSub_encode []
  rw [List.append_nil] at hfind
  exact ⟨_, hfind, Nat.sub_add_cancel c.message.four_le_length_encode⟩

/-- The server's reads of a call, in terms of how much of the body has arrived. -/
theorem Call.readRequestAndContent_front (c : Call) {reads rest : Socket} {extra : Bytes}
    (hread : readUntil [] reads = some (c.message.encode ++ extra, c.message.encode.length, rest))
    (hpart : extra ++ rest.flatten <+: c.body) :
    (extra ++ rest.flatten ≠ c.body ∧ readRequestAndContent reads =
        .truncated (c.message.encode ++ extra)) ∨
      extra ++ rest.flatten = c.body ∧ ∃ rest', readRequestAndContent reads =
        .handed (c.message.encode ++ extra) (c.seen extra.length) rest' ∧ rest'.flatten = [] := by
  have hhandler := c.message.headerHandler_encode extra
  rw [c.table_contentLength] at hhandler
  have hle := hpart.length_le
  rw [List.length_append] at hle
  by_cases hzero : 0 < c.contentLength
  · rw [if_pos hzero] at hhandler
    have hextra : extra.length ≤ c.contentLength := by
      rw [← c.body_length]
      omega
    simp only [stoull_decimal c.length_lt, Except.map, sizeSub_of_le hextra] at hhandler
    by_cases hall : extra ++ rest.flatten = c.body
    · have hcount : c.contentLength - extra.length = rest.flatten.length := by
        rw [← c.body_length, ← hall, List.length_append]
        omega
      obtain ⟨rest', htransfer, hflat⟩ := transferExactly_eq_some (le_refl rest.flatten.length)
      rw [List.take_length] at htransfer
      rw [List.drop_length] at hflat
      refine .inr ⟨hall, rest', ?_, hflat⟩
      have hseen : (c.message.request (relog extra)).append rest.flatten =
          c.seen extra.length := by
        rw [Call.seen, ← hall, List.take_left, List.drop_left]
        rfl
      simp only [readRequestAndContent, hread, hhandler, hcount, htransfer, hseen]
    · refine .inl ⟨hall, ?_⟩
      have hlt : rest.flatten.length < c.contentLength - extra.length := by
        have hne : (extra ++ rest.flatten).length ≠ c.body.length :=
          fun he => hall (hpart.eq_of_length he)
        rw [List.length_append, c.body_length] at hne
        rw [c.body_length] at hle
        omega
      simp only [readRequestAndContent, hread, hhandler, transferExactly_eq_none hlt]
  · rw [if_neg hzero] at hhandler
    have hbody : c.body = [] := List.eq_nil_of_length_eq_zero (by
      rw [c.body_length]
      omega)
    rw [hbody, List.prefix_nil, List.append_eq_nil_iff] at hpart
    obtain ⟨rfl, hrest⟩ := hpart
    refine .inr ⟨by rw [hbody, hrest, List.append_nil], rest, ?_, hrest⟩
    have hseen : c.message.request (relog []) = c.seen 0 := by
      rw [Call.seen, hbody]
      rfl
    simp only [readRequestAndContent, hread, hhandler, hseen, List.length_nil]

/-- A request that is handed over from the bytes of a call has been read to its last byte, and is
one that this call gives rise to. -/
theorem Call.readRequestAndContent_eq_handed (c : Call) {reads rest : Socket} {buf : Bytes}
    {request : Request} (hpart : reads.flatten <+: c.encode)
    (h : readRequestAndContent reads = .handed buf request rest) :
    reads.flatten = c.encode ∧ rest.flatten = [] ∧ c.Seen request := by
  cases hread : readUntil [] reads with
  | none => simp [readRequestAndContent, hread] at h
  | some p =>
    obtain ⟨buf', n, rest'⟩ := p
    obtain ⟨i, hfind, hi⟩ := c.findSub_message
    rw [c.encode_eq] at hpart
    obtain ⟨rfl, extra, rfl, hafter⟩ := readUntil_front hfind hi hpart hread
    obtain ⟨used, rfl, hbuf⟩ := readUntil_append hread
    rw [List.nil_append] at hbuf
    obtain ⟨_, htruncated⟩ | ⟨hall, rest'', hhanded, hrest⟩ :=
      c.readRequestAndContent_front hread hafter
    · rw [htruncated] at h
      cases h
    · rw [hhanded] at h
      cases h
      refine ⟨?_, hrest, extra.length, ?_, rfl⟩
      · rw [c.encode_eq, List.flatten_append, ← hbuf, List.append_assoc, hall]
      · rw [← hall, List.length_append]
        exact Nat.le_add_right _ _

/-- A call whose bytes have all arrived is handed over, however they were cut into reads. -/
theorem Call.readRequestAndContent_whole (c : Call) {reads : Socket}
    (h : reads.flatten = c.encode) :
    ∃ buf request rest, readRequestAndContent reads = .handed buf request rest := by
  obtain ⟨i, hfind, hi⟩ := c.findSub_message
  rw [c.encode_eq] at h
  obtain ⟨buf, n, rest, hread⟩ := readUntil_isSome hfind h
  obtain ⟨rfl, extra, rfl, hafter⟩ :=
    readUntil_front hfind hi ⟨[], by rw [List.append_nil, h]⟩ hread
  obtain ⟨used, rfl, hbuf⟩ := readUntil_append hread
  rw [List.nil_append] at hbuf
  rw [List.flatten_append, ← hbuf, List.append_assoc] at h
  obtain ⟨hne, _⟩ | ⟨_, rest', hhanded, _⟩ :=
    c.readRequestAndContent_front hread hafter
  · exact absurd (List.append_cancel_left h) hne
  · exact ⟨_, _, _, hhanded⟩

/-! ## The response -/

/-- A response that is cut short is not returned. -/
theorem HandlerResponse.receive_part (r : HandlerResponse) {reads : Socket}
    (hpart : reads.flatten <+: r.encode) (hne : reads.flatten ≠ r.encode) :
    ∃ asked, receive reads = .raised .endOfFile asked := by
  cases hread : readUntil [] reads with
  | none => exact ⟨[], by simp only [receive, readUntilDelim_crlfcrlf, hread]⟩
  | some p =>
    obtain ⟨buf, n, rest⟩ := p
    obtain ⟨i, hfind, hi⟩ := r.head.findSub_encode []
    rw [List.append_nil] at hfind
    have hblock : r.head.encode = r.headerBlock := rfl
    rw [hblock] at hfind hi
    rw [r.encode_eq] at hpart hne
    obtain ⟨rfl, extra, rfl, hafter⟩ := readUntil_front hfind hi hpart hread
    obtain ⟨used, rfl, hbuf⟩ := readUntil_append hread
    rw [List.nil_append] at hbuf
    rw [List.flatten_append, ← hbuf, List.append_assoc] at hne
    have hle := hafter.length_le
    have hlt : (extra ++ rest.flatten).length ≠ r.body.length :=
      fun he => hne (by rw [hafter.eq_of_length he])
    rw [List.length_append] at hle hlt
    have hadditional : sizeSub (r.headerBlock ++ extra).length r.headerBlock.length =
        extra.length := by
      rw [List.length_append, sizeSub_of_le (Nat.le_add_right _ _), Nat.add_sub_cancel_left]
    have hcount : sizeSub r.body.length extra.length = r.body.length - extra.length :=
      sizeSub_of_le (by omega)
    have htext : r.table contentLengthName = some (decimal r.body.length) :=
      Function.update_self ..
    have htransfer : transferExactly (r.body.length - extra.length) rest = none :=
      transferExactly_eq_none (by omega)
    refine ⟨[r.body.length - extra.length], ?_⟩
    simp only [receive, readUntilDelim_crlfcrlf, hread, hadditional,
      r.parseResponseHeader_headerBlock, htext, stoull_decimal r.body_length, hcount, readExactly,
      htransfer, Receipt.bind]

/-- A response that is returned from the bytes of one has been read to its last byte. -/
theorem HandlerResponse.receive_eq_returned (r : HandlerResponse) {reads : Socket}
    {response : ClientResponse} {asked : List Nat} (hpart : reads.flatten <+: r.encode)
    (h : receive reads = .returned response asked) :
    reads.flatten = r.encode ∧ response = r.response := by
  by_cases hall : reads.flatten = r.encode
  · obtain ⟨k, rest, _, _, hreceive⟩ := receive_encode r hall
    rw [hreceive] at h
    cases h
    exact ⟨hall, rfl⟩
  · obtain ⟨asked', hraised⟩ := r.receive_part hpart hall
    rw [hraised] at h
    cases h

end AsioCoroFrame.Http
