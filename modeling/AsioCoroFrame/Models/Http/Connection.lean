import AsioCoroFrame.Core.Numeral
import AsioCoroFrame.Models.Http.Message

/-!
# One server connection

The socket is the list of byte strings its reads will return, which is how the
network cuts what the client has sent. Each round of the connection starts with
an empty buffer, reads until it holds an empty line, runs the completion
handler, reads an announced body, and hands the request to `find_resource`. An
answered request of a protocol version above 1.0 starts the next round.
-/

namespace AsioCoroFrame.Http

/-- The results of the future reads of a socket; after the last one it is closed. -/
abbrev Socket := List Bytes

/-- `async_read_until(.., "\r\n\r\n")` into a buffer that may already hold something: the buffer,
`bytes_transferred`, and the socket afterwards. -/
def readUntil (buf : Bytes) : Socket → Option (Bytes × Nat × Socket)
  | [] => (findSub crlfcrlf buf).map fun i => (buf, i + 4, [])
  | s :: rest =>
    match findSub crlfcrlf buf with
    | some i => some (buf, i + 4, s :: rest)
    | none => readUntil (buf ++ s) rest

/-- `async_read(.., transfer_exactly(n))`: the bytes read and the socket afterwards. -/
def transferExactly (n : Nat) : Socket → Option (Bytes × Socket)
  | [] => if n = 0 then some ([], []) else none
  | s :: rest =>
    if n = 0 then some ([], s :: rest)
    else if s.length ≤ n then
      (transferExactly (n - s.length) rest).map fun (b, rest) => (s ++ b, rest)
    else some (s.take n, s.drop n :: rest)

/-- The block that logs the first line of the buffer: the line is taken out with its line feed
and written back at the end. -/
def relog (buf : Bytes) : Bytes :=
  match cut lf buf with
  | none => buf
  | some (line, rest) => rest ++ line

/-- The completion handler of `read_request_and_content`: the request, and the number of bytes
still to be read when a body is announced. -/
def headerHandler (buf : Bytes) (bytesTransferred : Nat) :
    Option (Except StdException (Request × Option Nat)) :=
  let numAdditionalBytes := sizeSub buf.length bytesTransferred
  (parseRequest (.new buf)).map fun parsed => do
    let request ← parsed
    let logged := { request with
      content := { request.content with buf := relog request.content.buf } }
    match logged.header contentLengthName with
    | none => return (logged, none)
    | some text =>
      let n ← stoull text 10
      return (logged, some (sizeSub n numAdditionalBytes))

/-- Append what a further read has brought to the buffer of a request. -/
def Request.append (request : Request) (b : Bytes) : Request :=
  { request with content := { request.content with buf := request.content.buf ++ b } }

/-- How one call of `read_request_and_content` ends. -/
inductive Reading where
  /-- The header never arrives. -/
  | closed
  /-- The completion handler does not return. -/
  | stuck (buf : Bytes)
  /-- The completion handler raises. -/
  | raised (buf : Bytes) (e : StdException)
  /-- The announced body never arrives. -/
  | truncated (buf : Bytes)
  /-- The request is handed to `find_resource`. -/
  | handed (buf : Bytes) (request : Request) (rest : Socket)

/-- `ServerBase::read_request_and_content`; the buffer is the one `async_read_until` delivers. -/
def readRequestAndContent (socket : Socket) : Reading :=
  match readUntil [] socket with
  | none => .closed
  | some (buf, bytesTransferred, rest) =>
    match headerHandler buf bytesTransferred with
    | none => .stuck buf
    | some (.error e) => .raised buf e
    | some (.ok (request, none)) => .handed buf request rest
    | some (.ok (request, some n)) =>
      match transferExactly n rest with
      | none => .truncated buf
      | some (b, rest) => .handed buf (request.append b) rest

/-- The comparison `> 1.05` after rounding to `float`: the number lies above the midpoint of the
two floats around 1.05. -/
def exceeds105 : FloatValue → Bool
  | .finite false num den => 17616077 * den < num * 2 ^ 24
  | .finite true _ _ => false
  | .infinite neg => !neg
  | .nan => false

/-- The test of the flush callback of `write_response`. -/
def keepAlive (httpVersion : Bytes) : Except StdException Bool :=
  (stof httpVersion).map exceeds105

/-- How the life of a connection ends. -/
inductive End where
  /-- No further request is read. -/
  | closed
  /-- A handler does not return. -/
  | stuck
  /-- An exception leaves the io thread. -/
  | raised (e : StdException)
  deriving DecidableEq, Repr

/-- One round: what `async_read_until` has delivered, the request handed to `find_resource`, and
whether it was answered. -/
structure Round where
  buffer : Bytes
  request : Option Request
  answered : Bool

/-- The rounds of a connection, at most `fuel` of them. `answer` tells whether routing finds a
handler that returns and whose response is written. -/
def serveRounds (answer : Request → Bool) : Nat → Socket → List Round × End
  | 0, _ => ([], .closed)
  | fuel + 1, socket =>
    match readRequestAndContent socket with
    | .closed => ([], .closed)
    | .stuck buf => ([⟨buf, none, false⟩], .stuck)
    | .raised buf e => ([⟨buf, none, false⟩], .raised e)
    | .truncated buf => ([⟨buf, none, false⟩], .closed)
    | .handed buf request rest =>
      if answer request then
        match keepAlive request.httpVersion with
        | .error e => ([⟨buf, some request, true⟩], .raised e)
        | .ok false => ([⟨buf, some request, true⟩], .closed)
        | .ok true =>
          let (rounds, e) := serveRounds answer fuel rest
          (⟨buf, some request, true⟩ :: rounds, e)
      else ([⟨buf, some request, false⟩], .closed)

/-- The life of a connection; every round uses up a read, so this many rounds are enough. -/
def serve (answer : Request → Bool) (socket : Socket) : List Round × End :=
  serveRounds answer (socket.length + 1) socket

/-! ## Reads -/

/-- The reads before the delivery of the buffer are the ones it is made of. -/
theorem readUntil_append {buf buf' : Bytes} {socket rest : Socket} {n : Nat}
    (h : readUntil buf socket = some (buf', n, rest)) :
    ∃ used, socket = used ++ rest ∧ buf' = buf ++ used.flatten := by
  induction socket generalizing buf with
  | nil =>
    obtain ⟨i, _, he⟩ := Option.map_eq_some_iff.mp h
    cases he
    exact ⟨[], rfl, by simp⟩
  | cons s socket ih =>
    simp only [readUntil] at h
    split at h
    · cases h
      exact ⟨[], rfl, by simp⟩
    · obtain ⟨used, rfl, rfl⟩ := ih h
      exact ⟨s :: used, rfl, by simp⟩

/-- The delivered buffer holds an empty line, which ends at the reported count. -/
theorem readUntil_findSub {buf buf' : Bytes} {socket rest : Socket} {n : Nat}
    (h : readUntil buf socket = some (buf', n, rest)) :
    ∃ i, findSub crlfcrlf buf' = some i ∧ n = i + 4 := by
  induction socket generalizing buf with
  | nil =>
    obtain ⟨i, hi, he⟩ := Option.map_eq_some_iff.mp h
    cases he
    exact ⟨i, hi, rfl⟩
  | cons s socket ih =>
    simp only [readUntil] at h
    split at h
    · rename_i i hi
      cases h
      exact ⟨i, hi, rfl⟩
    · exact ih h

/-- A buffer without an empty line needs at least one more read. -/
theorem readUntil_length {buf buf' : Bytes} {socket rest : Socket} {n : Nat}
    (h : readUntil buf socket = some (buf', n, rest)) :
    rest.length ≤ socket.length ∧ (findSub crlfcrlf buf = none → rest.length < socket.length) := by
  induction socket generalizing buf with
  | nil =>
    obtain ⟨i, hi, he⟩ := Option.map_eq_some_iff.mp h
    cases he
    exact ⟨le_rfl, fun hnone => by simp [hnone] at hi⟩
  | cons s socket ih =>
    simp only [readUntil] at h
    split at h
    · rename_i i hi
      cases h
      exact ⟨le_rfl, fun hnone => by simp [hnone] at hi⟩
    · have := (ih h).1
      simp only [List.length_cons]
      exact ⟨by omega, fun _ => by omega⟩

/-- A read of an exact count delivers the front of what is there. -/
theorem transferExactly_eq_some {n : Nat} {socket : Socket} (h : n ≤ socket.flatten.length) :
    ∃ rest, transferExactly n socket = some (socket.flatten.take n, rest) ∧
      rest.flatten = socket.flatten.drop n := by
  induction socket generalizing n with
  | nil =>
    obtain rfl : n = 0 := by simpa using h
    exact ⟨[], rfl, rfl⟩
  | cons s socket ih =>
    by_cases hn : n = 0
    · subst hn
      exact ⟨s :: socket, by simp [transferExactly], by simp⟩
    · by_cases hs : s.length ≤ n
      · obtain ⟨rest, hrest, hflat⟩ := ih (n := n - s.length) (by
          simp only [List.flatten_cons, List.length_append] at h
          omega)
        refine ⟨rest, ?_, ?_⟩
        · simp [transferExactly, hn, hs, hrest, List.take_append, List.take_of_length_le hs]
        · simp [hflat, List.drop_append, List.drop_of_length_le hs]
      · refine ⟨s.drop n :: socket, ?_, ?_⟩
        · simp [transferExactly, hn, hs, List.take_append_of_le_length (Nat.le_of_not_le hs)]
        · simp [List.drop_append_of_le_length (Nat.le_of_not_le hs)]

/-- Reading never adds to the reads that are still to come. -/
theorem transferExactly_length {n : Nat} {socket rest : Socket} {b : Bytes}
    (h : transferExactly n socket = some (b, rest)) : rest.length ≤ socket.length := by
  induction socket generalizing n b with
  | nil =>
    simp only [transferExactly, Option.ite_none_right_eq_some, Option.some.injEq,
      Prod.mk.injEq] at h
    exact h.2.2 ▸ le_rfl
  | cons s socket ih =>
    simp only [transferExactly] at h
    split at h
    · cases h
      exact le_rfl
    · split at h
      · obtain ⟨p, hp, he⟩ := Option.map_eq_some_iff.mp h
        cases he
        exact (ih hp).trans (Nat.le_succ _)
      · cases h
        exact le_rfl

/-- A request that is handed over has used up at least one read. -/
theorem readRequestAndContent_length {socket rest : Socket} {buf : Bytes} {request : Request}
    (h : readRequestAndContent socket = .handed buf request rest) :
    rest.length < socket.length := by
  unfold readRequestAndContent at h
  split at h
  · cases h
  · rename_i buf' n mid hread
    have hmid := (readUntil_length hread).2 rfl
    split at h
    · cases h
    · cases h
    · cases h
      exact hmid
    · rename_i request' k _
      split at h
      · cases h
      · rename_i b rest' htransfer
        cases h
        exact (transferExactly_length htransfer).trans_lt hmid

/-- With as many rounds as there are reads, allowing more changes nothing. -/
theorem serveRounds_eq (answer : Request → Bool) {fuel fuel' : Nat} {socket : Socket}
    (h : socket.length < fuel) (h' : socket.length < fuel') :
    serveRounds answer fuel socket = serveRounds answer fuel' socket := by
  induction fuel generalizing fuel' socket with
  | zero => exact absurd h (Nat.not_lt_zero _)
  | succ fuel ih =>
    obtain ⟨fuel', rfl⟩ := Nat.exists_eq_succ_of_ne_zero (Nat.pos_iff_ne_zero.mp
      (Nat.zero_lt_of_lt h'))
    cases hread : readRequestAndContent socket with
    | handed buf request rest =>
      have hlen := readRequestAndContent_length hread
      have hrest : serveRounds answer fuel rest = serveRounds answer fuel' rest :=
        ih (by omega) (by omega)
      simp only [serveRounds, hread, hrest]
    | closed | stuck | raised | truncated => simp only [serveRounds, hread]

/-! ## A message at the front of the buffer -/

/-- The completion handler on a whole message and `extra` bytes after it. -/
theorem Message.headerHandler_encode (m : Message) (extra : Bytes) :
    headerHandler (m.encode ++ extra) m.encode.length =
      match m.table contentLengthName with
      | none => some (.ok (m.request (relog extra), none))
      | some text => some ((stoull text 10).map fun n =>
          (m.request (relog extra), some (sizeSub n extra.length))) := by
  have hlen : sizeSub (m.encode ++ extra).length m.encode.length = extra.length := by
    rw [List.length_append, sizeSub_of_le (Nat.le_add_right _ _), Nat.add_sub_cancel_left]
  rw [headerHandler, m.parseRequest_encode, hlen]
  cases h : m.table contentLengthName with
  | none => simp [Message.request, IStream.over, h, bind, Except.bind, pure, Except.pure]
  | some text =>
    cases hn : stoull text 10 with
    | error e => simp [Message.request, IStream.over, h, hn, bind, Except.bind, Except.map]
    | ok n =>
      simp [Message.request, IStream.over, h, hn, bind, Except.bind, pure, Except.pure, Except.map]

end AsioCoroFrame.Http
