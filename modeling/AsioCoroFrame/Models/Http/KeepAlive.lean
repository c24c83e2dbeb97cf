import AsioCoroFrame.Models.Http.Body

/-!
# When a kept-alive connection serves exactly the requests sent

Each round starts with a fresh buffer, so bytes of the next request that a read
delivers together with the current one are lost to the connection. They are not
only lost: they stand in the content of the current request, or keep it from
being handed over when it announces an empty body.
-/

namespace AsioCoroFrame.Http

/-- A request of HTTP/1.1 without a body. -/
structure Message.Bodyless (m : Message) : Prop where
  version : m.version = ascii "1.1"
  length : ∀ text, m.table contentLengthName = some text → stoull text 10 = .ok 0

/-- What a handler is given of a request. -/
def Request.view (r : Request) : Bytes × Bytes × Header := (r.method, r.path, r.header)

/-- What was sent. -/
def Message.view (m : Message) : Bytes × Bytes × Header := (m.method, m.path, m.table)

/-- The requests handed to `find_resource` over the life of a connection. -/
def handed (rounds : List Round) : List Request := rounds.filterMap (·.request)

/-- No read delivers bytes of two requests. -/
def Aligned : List Message → Socket → Prop
  | [], socket => socket = []
  | m :: ms, socket => ∃ used rest, socket = used ++ rest ∧ used.flatten = m.encode ∧
    Aligned ms rest

/-- A message is not delivered before its last byte. -/
theorem Message.findSub_of_prefix (m : Message) {buf : Bytes} (h : buf <+: m.encode)
    (hne : buf ≠ m.encode) : findSub crlfcrlf buf = none := by
  obtain ⟨t, ht⟩ := h
  cases hfind : findSub crlfcrlf buf with
  | none => rfl
  | some i =>
    have hwhole := m.findSub_encode []
    rw [List.append_nil, ← ht, findSub_append hfind t, Option.some.injEq] at hwhole
    have hlen := (findSub_some hfind).2
    have hpos : 0 < t.length := by
      refine List.length_pos_iff.mpr fun hnil => hne ?_
      rw [← ht, hnil, List.append_nil]
    rw [show crlfcrlf.length = 4 from rfl] at hlen
    rw [ht] at hwhole
    have := congrArg List.length ht
    rw [List.length_append] at this
    omega

/-- Reads that make up one message deliver exactly this message. -/
theorem Message.readUntil_encode (m : Message) {buf : Bytes} {used : Socket} (rest : Socket)
    (h : buf ++ used.flatten = m.encode) (hne : ∀ s ∈ used, s ≠ []) :
    readUntil buf (used ++ rest) = some (m.encode, m.encode.length, rest) := by
  induction used generalizing buf with
  | nil =>
    obtain rfl : buf = m.encode := by simpa using h
    have hfind := m.findSub_encode []
    rw [List.append_nil] at hfind
    have hlen : m.encode.length - 4 + 4 = m.encode.length :=
      Nat.sub_add_cancel m.four_le_length_encode
    cases rest with
    | nil => simp [readUntil, hfind, hlen]
    | cons s rest => simp [readUntil, hfind, hlen]
  | cons s used ih =>
    have hs := hne s List.mem_cons_self
    have hnone : findSub crlfcrlf buf = none := by
      refine m.findSub_of_prefix ⟨_, h⟩ fun he => ?_
      rw [he, List.flatten_cons, List.append_right_eq_self, List.append_eq_nil_iff] at h
      exact hs h.1
    rw [List.cons_append, readUntil, hnone]
    exact ih (by simpa using h) fun s' hs' => hne s' (List.mem_cons_of_mem _ hs')

theorem transferExactly_zero (socket : Socket) : transferExactly 0 socket = some ([], socket) := by
  cases socket <;> simp [transferExactly]

/-- A body-less message that was delivered alone is handed over as it was sent. -/
theorem Message.Bodyless.readRequestAndContent_alone {m : Message} (hm : m.Bodyless) {used : Socket}
    (rest : Socket) (h : used.flatten = m.encode) (hne : ∀ s ∈ used, s ≠ []) :
    readRequestAndContent (used ++ rest) = .handed m.encode (m.request []) rest := by
  have hread := m.readUntil_encode rest ((List.nil_append _).trans h) hne
  have hhandler := m.headerHandler_encode []
  rw [List.append_nil] at hhandler
  cases htext : m.table contentLengthName with
  | none =>
    simp only [htext] at hhandler
    simp only [readRequestAndContent, hread, hhandler]
    rfl
  | some text =>
    simp only [htext, hm.length text htext, Except.map, List.length_nil, sizeSub_of_le le_rfl]
      at hhandler
    simp only [readRequestAndContent, hread, hhandler, Nat.sub_self, transferExactly_zero]
    rfl

theorem keepAlive_one_one : keepAlive (ascii "1.1") = .ok true := by decide

/-- A round that is answered is followed by the rounds of the reads after it. -/
theorem Message.Bodyless.handed_serveRounds {m : Message} (hm : m.Bodyless)
    {answer : Request → Bool} {fuel : Nat} {socket rest : Socket} {buf : Bytes}
    (hread : readRequestAndContent socket = .handed buf (m.request []) rest)
    (hanswer : answer (m.request []) = true) :
    handed (serveRounds answer (fuel + 1) socket).1 =
      m.request [] :: handed (serveRounds answer fuel rest).1 := by
  have hkeep : keepAlive (m.request []).httpVersion = .ok true := by
    rw [show (m.request []).httpVersion = m.version from rfl, hm.version]
    exact keepAlive_one_one
  simp only [serveRounds, hread, hanswer, hkeep, if_true, handed, List.filterMap_cons]

/-- Reads that keep the requests apart serve exactly what was sent. -/
theorem handed_of_aligned {answer : Request → Bool} {ms : List Message} {socket : Socket}
    {fuel : Nat} (hm : ∀ m ∈ ms, m.Bodyless) (hanswer : ∀ m ∈ ms, answer (m.request []) = true)
    (hne : ∀ s ∈ socket, s ≠ []) (hfuel : socket.length < fuel) (h : Aligned ms socket) :
    handed (serveRounds answer fuel socket).1 = ms.map (·.request []) := by
  induction ms generalizing socket fuel with
  | nil =>
    obtain rfl : socket = [] := h
    cases fuel with
    | zero => rfl
    | succ fuel => rfl
  | cons m ms ih =>
    obtain ⟨used, rest, rfl, hflat, hrest⟩ := h
    obtain ⟨fuel, rfl⟩ := Nat.exists_eq_succ_of_ne_zero (Nat.pos_iff_ne_zero.mp
      (Nat.zero_lt_of_lt hfuel))
    have hbodyless := hm m List.mem_cons_self
    have hread := hbodyless.readRequestAndContent_alone rest hflat fun s hs =>
      hne s (List.mem_append_left _ hs)
    have hlen := readRequestAndContent_length hread
    rw [hbodyless.handed_serveRounds hread (hanswer m List.mem_cons_self), List.map_cons]
    congr 1
    exact ih (fun m' hm' => hm m' (List.mem_cons_of_mem _ hm'))
      (fun m' hm' => hanswer m' (List.mem_cons_of_mem _ hm'))
      (fun s hs => hne s (List.mem_append_right _ hs)) (by omega) hrest

/-! ## Reads that cross a boundary -/

theorem relog_eq_nil {buf : Bytes} (h : relog buf = []) :
    buf.head? = none ∨ buf.head? = some lf := by
  unfold relog at h
  cases hcut : cut lf buf with
  | none =>
    rw [hcut] at h
    exact .inl (by simp [h])
  | some p =>
    obtain ⟨line, rest⟩ := p
    rw [hcut, List.append_eq_nil_iff] at h
    obtain ⟨rfl, rfl⟩ := h
    obtain ⟨rfl, _⟩ := cut_eq_some.mp hcut
    exact .inr rfl

/-- A buffer with a message at its front holds all of it, and bytes of what follows. -/
theorem Message.readUntil_encode_append (m : Message) {socket rest : Socket} {buf after : Bytes}
    {n : Nat} (hstream : socket.flatten = m.encode ++ after)
    (hread : readUntil [] socket = some (buf, n, rest)) :
    n = m.encode.length ∧ ∃ extra, buf = m.encode ++ extra ∧ extra ++ rest.flatten = after := by
  obtain ⟨used, rfl, hbuf⟩ := readUntil_append hread
  rw [List.nil_append] at hbuf
  subst hbuf
  rw [List.flatten_append] at hstream
  obtain ⟨i, hi, rfl⟩ := readUntil_findSub hread
  have hwhole := m.findSub_encode after
  rw [← hstream, findSub_append hi, Option.some.injEq] at hwhole
  have hfour := m.four_le_length_encode
  have hlen := (findSub_some hi).2
  rw [show crlfcrlf.length = 4 from rfl] at hlen
  refine ⟨by omega, ?_⟩
  obtain ⟨extra, hextra, hafter⟩ | ⟨extra, hextra, hafter⟩ := List.append_eq_append_iff.mp hstream
  · have := congrArg List.length hextra
    rw [List.length_append] at this
    obtain rfl : extra = [] := List.eq_nil_of_length_eq_zero (by omega)
    exact ⟨[], by simpa using hextra.symm, by simpa using hafter⟩
  · exact ⟨extra, hextra, hafter.symm⟩

/-- A request handed over with an empty content was delivered alone. -/
theorem Message.Bodyless.delivered_alone {m : Message} (hm : m.Bodyless) {socket rest : Socket}
    {buf after : Bytes} {request : Request} (hstream : socket.flatten = m.encode ++ after)
    (hafter : after.head? ≠ some lf)
    (hread : readRequestAndContent socket = .handed buf request rest)
    (hcontent : request.content.buf = []) :
    request = m.request [] ∧ rest.flatten = after ∧
      ∃ used, socket = used ++ rest ∧ used.flatten = m.encode := by
  unfold readRequestAndContent at hread
  split at hread
  · cases hread
  · rename_i buf' n mid hbuf
    obtain ⟨rfl, extra, rfl, rfl⟩ := m.readUntil_encode_append hstream hbuf
    obtain ⟨used, rfl, hused⟩ := readUntil_append hbuf
    have halone : relog extra = [] → extra = [] := by
      intro h
      obtain hnone | hlf := relog_eq_nil h
      · exact List.head?_eq_none_iff.mp hnone
      · exact absurd (by rw [List.head?_append, hlf, Option.some_or]) hafter
    rw [m.headerHandler_encode] at hread
    cases htext : m.table contentLengthName with
    | none =>
      simp only [htext] at hread
      cases hread
      obtain rfl := halone hcontent
      exact ⟨rfl, rfl, used, rfl, by simpa using hused.symm⟩
    | some text =>
      simp only [htext, hm.length text htext, Except.map] at hread
      split at hread
      · cases hread
      · rename_i b rest' htransfer
        cases hread
        obtain ⟨hlog, rfl⟩ := List.append_eq_nil_iff.mp hcontent
        obtain rfl := halone hlog
        rw [List.length_nil, sizeSub_of_le le_rfl, Nat.sub_self, transferExactly_zero] at htransfer
        cases htransfer
        exact ⟨rfl, rfl, used, rfl, by simpa using hused.symm⟩

/-- The first byte of a message is not a line feed. -/
theorem Message.head_encode (m : Message) (rest : Bytes) : (m.encode ++ rest).head? ≠ some lf := by
  intro h
  have hsp : sp ≠ lf := by decide
  cases hmethod : m.method with
  | nil => simp [encode, lines, requestLine, hmethod, hsp] at h
  | cons c s =>
    have hc := m.method_lf
    rw [hmethod, List.mem_cons, not_or] at hc
    simp only [encode, lines, requestLine, hmethod, List.flatMap_cons, List.cons_append,
      List.head?_cons, Option.some.injEq] at h
    exact hc.1 h.symm

theorem head_flatMap_encode (ms : List Message) :
    (ms.flatMap Message.encode).head? ≠ some lf := by
  cases ms with
  | nil => simp
  | cons m ms => exact m.head_encode _

/-- The request of the first round is handed over, whether or not it is answered. -/
theorem mem_handed_serveRounds {answer : Request → Bool} {fuel : Nat} {socket rest : Socket}
    {buf : Bytes} {request : Request}
    (hread : readRequestAndContent socket = .handed buf request rest) :
    request ∈ handed (serveRounds answer (fuel + 1) socket).1 := by
  simp only [serveRounds, hread, handed]
  split
  · split <;> simp
  · simp

/-- Requests handed over as they were sent, each with an empty content, were kept apart. -/
theorem aligned_of_handed {answer : Request → Bool} {ms : List Message} {socket : Socket}
    {fuel : Nat} (hm : ∀ m ∈ ms, m.Bodyless) (hanswer : ∀ m ∈ ms, answer (m.request []) = true)
    (hne : ∀ s ∈ socket, s ≠ []) (hstream : socket.flatten = ms.flatMap Message.encode)
    (hview : (handed (serveRounds answer fuel socket).1).map Request.view = ms.map Message.view)
    (hcontent : ∀ r ∈ handed (serveRounds answer fuel socket).1, r.content.buf = []) :
    Aligned ms socket := by
  induction ms generalizing socket fuel with
  | nil =>
    cases socket with
    | nil => rfl
    | cons s socket =>
      rw [List.flatten_cons, List.flatMap_nil, List.append_eq_nil_iff] at hstream
      exact absurd hstream.1 (hne s List.mem_cons_self)
  | cons m ms ih =>
    rw [List.flatMap_cons] at hstream
    have hbodyless := hm m List.mem_cons_self
    cases fuel with
    | zero => simp [serveRounds, handed] at hview
    | succ fuel =>
      cases hread : readRequestAndContent socket with
      | handed buf request rest =>
        obtain ⟨rfl, hrest, used, rfl, hused⟩ := hbodyless.delivered_alone hstream
          (head_flatMap_encode ms) hread (hcontent _ (mem_handed_serveRounds hread))
        rw [hbodyless.handed_serveRounds hread (hanswer m List.mem_cons_self)] at hview hcontent
        refine ⟨used, rest, rfl, hused, ?_⟩
        exact ih (fun m' hm' => hm m' (List.mem_cons_of_mem _ hm'))
          (fun m' hm' => hanswer m' (List.mem_cons_of_mem _ hm'))
          (fun s hs => hne s (List.mem_append_right _ hs)) hrest
          (List.cons.inj hview).2 (fun r hr => hcontent r (List.mem_cons_of_mem _ hr))
      | closed | stuck | raised | truncated =>
        simp [serveRounds, hread, handed] at hview

/-- The requests sent are the requests handed over, each without a body, exactly when no read
delivers bytes of two of them. -/
theorem keepAlive_serves_iff {answer : Request → Bool} {ms : List Message} {socket : Socket}
    (hm : ∀ m ∈ ms, m.Bodyless) (hanswer : ∀ m ∈ ms, answer (m.request []) = true)
    (hne : ∀ s ∈ socket, s ≠ []) (hstream : socket.flatten = ms.flatMap Message.encode) :
    ((handed (serve answer socket).1).map Request.view = ms.map Message.view ∧
      ∀ r ∈ handed (serve answer socket).1, r.content.buf = []) ↔ Aligned ms socket := by
  constructor
  · rintro ⟨hview, hcontent⟩
    exact aligned_of_handed hm hanswer hne hstream hview hcontent
  · intro h
    have hhanded := handed_of_aligned hm hanswer hne (Nat.lt_succ_self _) h
    rw [serve, hhanded]
    constructor
    · rw [List.map_map]
      rfl
    · intro r hr
      obtain ⟨m, _, rfl⟩ := List.mem_map.mp hr
      rfl

/-- The shortest request of a browser. -/
def sampleGet : Message where
  method := ascii "GET"
  path := ascii "/"
  version := ascii "1.1"
  fields := []
  method_sp := by decide
  method_lf := by decide
  path_sp := root_sp
  path_lf := root_lf
  version_lf := one_one_lf

theorem sampleGet_bodyless : sampleGet.Bodyless := ⟨rfl, fun _ h => by cases h⟩

/-- The criterion applied to two requests, the second one in two reads of its own. -/
theorem keepAlive_serves_iff_two_requests :
    let socket := [sampleGet.encode, ascii "GET / HT", ascii "TP/1.1\r\n\r\n"]
    ((handed (serve (fun _ => true) socket).1).map Request.view =
        [sampleGet, sampleGet].map Message.view ∧
      ∀ r ∈ handed (serve (fun _ => true) socket).1, r.content.buf = []) ↔
      Aligned [sampleGet, sampleGet] socket :=
  keepAlive_serves_iff (by simp [sampleGet_bodyless]) (fun _ _ => rfl)
    (by decide) (by decide)

/-- Two requests that one read delivers: only the first is handed over. -/
theorem keepAlive_loses_request :
    [sampleGet.encode ++ sampleGet.encode].flatten =
        [sampleGet, sampleGet].flatMap Message.encode ∧
      (handed (serve (fun _ => true) [sampleGet.encode ++ sampleGet.encode]).1).map Request.view ≠
        [sampleGet, sampleGet].map Message.view := by
  refine ⟨rfl, fun h => ?_⟩
  have hlen : (handed (serve (fun _ => true)
      [sampleGet.encode ++ sampleGet.encode]).1).length = 1 := by decide
  have := congrArg List.length h
  rw [List.length_map, List.length_map, hlen] at this
  cases this

end AsioCoroFrame.Http
