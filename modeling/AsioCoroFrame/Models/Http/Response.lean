import AsioCoroFrame.Core.Numeral

/-!
# Response buffering

A handler writes to the stream of its response and may flush it; the end of
`write_response` drains the stream buffer once more for the log, writes the
copy back and sends it. Every buffer handed to `async_write` is kept in order,
so the bytes sent and the bytes still buffered are together what was written.
-/

namespace AsioCoroFrame.Http

/-- `ServerBase::Response`. -/
structure Response where
  /-- The readable part of `streambuf`. -/
  streambuf : Bytes
  /-- `failbit` of `stream`. -/
  fail : Bool
  /-- The buffers handed to `async_write`, whose writes all succeed. -/
  sent : List Bytes
  deriving DecidableEq, Repr

/-- A response as it is constructed. -/
def Response.new : Response := ⟨[], false, []⟩

/-- `operator<<` and `stream.write`: a failed stream inserts nothing. -/
def Response.write (r : Response) (s : Bytes) : Response :=
  if r.fail then r else { r with streambuf := r.streambuf ++ s }

/-- `response << stream.rdbuf()` into a buffer of its own, which is handed to `async_write`. The
inserting stream is a local one, so an empty buffer leaves `stream` as it is. -/
def Response.send (r : Response) : Response :=
  { r with streambuf := [], sent := r.sent ++ [r.streambuf] }

/-- `flush`, which waits for its write. -/
def Response.flush (r : Response) : Response := r.send

/-- `async_flush` with a callback; no write is pending at the end of a handler. -/
def Response.asyncFlush (r : Response) : Response := r.send

/-- The characters between two `istream_iterator<char>`, which drain the buffer; extraction skips
blanks while `skipws` is set. -/
def readChars (skipws : Bool) : Bytes → Bytes
  | [] => []
  | b :: s => if skipws && isSpace b then readChars skipws s else b :: readChars skipws s

/-- The logging block: the buffer is read with `skipws` cleared and the copy is written back. -/
def Response.log (r : Response) : Response :=
  let myString := readChars false r.streambuf
  { r with streambuf := myString }

/-- What a handler does with its response. -/
inductive ResponseOp where
  | write (s : Bytes)
  | flush
  deriving DecidableEq, Repr

/-- One operation of a handler. -/
def Response.run (r : Response) : ResponseOp → Response
  | .write s => r.write s
  | .flush => r.flush

/-- `write_response` with a handler that returns after these operations. -/
def writeResponse (ops : List ResponseOp) : Response :=
  (ops.foldl Response.run .new).log.asyncFlush

/-- The bytes one operation writes. -/
def ResponseOp.written : ResponseOp → Bytes
  | .write s => s
  | .flush => []

/-- The bytes sent so far, followed by the bytes still buffered. -/
def Response.content (r : Response) : Bytes := r.sent.flatten ++ r.streambuf

/-- Reading a buffer by `istream_iterator` keeps the blanks only if `skipws` is cleared. -/
theorem readChars_eq (skipws : Bool) (s : Bytes) :
    readChars skipws s = s.filter fun b => !(skipws && isSpace b) := by
  induction s with
  | nil => rfl
  | cons b s ih =>
    rw [readChars, ih, List.filter_cons]
    cases skipws && isSpace b <;> rfl

@[simp] theorem readChars_false (s : Bytes) : readChars false s = s := by
  simp [readChars_eq]

/-- Sending moves bytes from the buffer to the socket. -/
@[simp] theorem Response.content_send (r : Response) : r.send.content = r.content := by
  simp [content, send]

/-- The logging block leaves the response as it was. -/
@[simp] theorem Response.log_eq (r : Response) : r.log = r := by
  simp [log]

/-- One operation appends what it writes, and the stream stays good. -/
theorem Response.run_content {r : Response} (hr : r.fail = false) (op : ResponseOp) :
    (r.run op).content = r.content ++ op.written ∧ (r.run op).fail = false := by
  cases op with
  | write s => simp [run, write, hr, content, ResponseOp.written]
  | flush => exact ⟨by simp [run, flush, ResponseOp.written], hr⟩

/-- A handler's operations append what they write, one after the other. -/
theorem Response.foldl_run_content {r : Response} (hr : r.fail = false) (ops : List ResponseOp) :
    (ops.foldl run r).content = r.content ++ ops.flatMap ResponseOp.written := by
  induction ops generalizing r with
  | nil => simp
  | cons op ops ih =>
    obtain ⟨hop, hgood⟩ := run_content hr op
    rw [List.foldl_cons, ih hgood, hop, List.flatMap_cons, List.append_assoc]

/-- What is sent is what the handler wrote, byte for byte and in order, and nothing stays in the
buffer. -/
theorem writeResponse_sent (ops : List ResponseOp) :
    (writeResponse ops).sent.flatten = ops.flatMap ResponseOp.written ∧
      (writeResponse ops).streambuf = [] := by
  have hdrained : (writeResponse ops).streambuf = [] := rfl
  have hcontent : (writeResponse ops).content = ops.flatMap ResponseOp.written := by
    rw [writeResponse, Response.asyncFlush, Response.content_send, Response.log_eq,
      Response.foldl_run_content rfl]
    rfl
  refine ⟨?_, hdrained⟩
  rw [← hcontent, Response.content, hdrained, List.append_nil]

end AsioCoroFrame.Http
