import AsioCoroFrame.Core.Prog
import AsioCoroFrame.Models.Redispp.Resp

/-!
# The stream buffer over the socket

`recv` returns the bytes in pieces of any size, and a stream buffer of 1400
bytes hands them on, past the buffer where more is asked for. Whatever the
pieces are, a program that reads through the buffer sees one and the same
stream of bytes.
-/

namespace AsioCoroFrame.Redispp

/-! ## The socket -/

/-- The bytes that the peer sends before it closes, and how many of them each `recv` returns. -/
structure Socket where
  wire : Bytes
  sizes : List Nat
  deriving DecidableEq, Repr

/-- `ClientSocket::read`: at least one byte and no more than asked for; raises at the end. -/
def Socket.read (s : Socket) (len : Nat) : Option (Bytes × Socket) :=
  if s.wire = [] then none
  else
    let got := min len (max 1 (s.sizes.headD len))
    some (s.wire.take got, ⟨s.wire.drop got, s.sizes.tail⟩)

/-- A `recv` takes some bytes off the front. -/
theorem Socket.read_some {s s' : Socket} {len : Nat} {bs : Bytes} (hlen : 0 < len)
    (h : s.read len = some (bs, s')) :
    s.wire = bs ++ s'.wire ∧ bs ≠ [] ∧ bs.length ≤ len ∧ s'.wire.length < s.wire.length := by
  simp only [read] at h
  split_ifs at h with hw
  cases h
  have hpos : 0 < min len (max 1 (s.sizes.headD len)) := by omega
  have hwire : 0 < s.wire.length := List.length_pos_iff.mpr hw
  refine ⟨(List.take_append_drop ..).symm, ?_, ?_, ?_⟩
  · rw [Ne, List.take_eq_nil_iff, not_or]
    exact ⟨hpos.ne', hw⟩
  · exact (List.length_take_le ..).trans (min_le_left ..)
  · rw [List.length_drop]
    omega

theorem Socket.read_none {s : Socket} {len : Nat} : s.read len = none ↔ s.wire = [] := by
  simp [read]

/-! ## The stream buffer -/

/-- `sizeof(inBuffer)`. -/
def inBufferSize : Nat := 1400

/-- `ClientSocket::StreamBuf`, its get area only. -/
structure StreamBuf where
  /-- The bytes from `gptr()` to `egptr()`. -/
  avail : Bytes
  conn : Socket
  deriving DecidableEq, Repr

/-- `underflow()`, where the get area is empty. -/
def StreamBuf.underflow (b : StreamBuf) : Option StreamBuf :=
  match b.conn.read inBufferSize with
  | none => none
  | some (bs, conn) => some ⟨bs, conn⟩

/-- The inner loop of `xsgetn`, which reads past the buffer; what it has read when it raises. -/
def Socket.readAll (s : Socket) (size : Nat) : Bytes × Socket :=
  if hsize : 0 < size then
    match h : s.read size with
    | none => ([], s)
    | some (bs, s') =>
      have := (Socket.read_some hsize h).2.2.2
      let r := s'.readAll (size - bs.length)
      (bs ++ r.1, r.2)
  else ([], s)
termination_by s.wire.length

/-- `xsgetn(dest, size)`: what is stored into `dest`, which is less than asked for exactly where
the socket has raised. -/
def StreamBuf.xsgetn (b : StreamBuf) (size : Nat) : Bytes × StreamBuf :=
  let chunk := b.avail.take size
  let rest := b.avail.drop size
  if rest ≠ [] then (chunk, ⟨rest, b.conn⟩)
  else
    let remaining := size - chunk.length
    if remaining = 0 then (chunk, ⟨[], b.conn⟩)
    else if inBufferSize < remaining then
      let r := b.conn.readAll remaining
      (chunk ++ r.1, ⟨[], r.2⟩)
    else
      match h : b.conn.read inBufferSize with
      | none => (chunk, ⟨[], b.conn⟩)
      | some (bs, conn) =>
        have := (Socket.read_some (by decide) h).2.2.2
        let r := StreamBuf.xsgetn ⟨bs, conn⟩ remaining
        (chunk ++ r.1, r.2)
termination_by b.conn.wire.length

/-- `sgetc()`. -/
def StreamBuf.sgetc (b : StreamBuf) : Option Byte × StreamBuf :=
  match b.avail with
  | c :: _ => (some c, b)
  | [] =>
    match b.underflow with
    | none => (none, b)
    | some b => (b.avail.head?, b)

/-- `sbumpc()`. -/
def StreamBuf.sbumpc (b : StreamBuf) : Option Byte × StreamBuf :=
  match b.avail with
  | c :: rest => (some c, ⟨rest, b.conn⟩)
  | [] =>
    match b.underflow with
    | none => (none, b)
    | some b => (b.avail.head?, ⟨b.avail.tail, b.conn⟩)

/-! ## Programs that read -/

/-- The calls a stream makes of its buffer. -/
inductive BufCall where
  | sgetc
  | sbumpc
  | sgetn (size : Nat)
  deriving DecidableEq, Repr

/-- What a call returns; no byte, or fewer than asked for, where the socket has raised. -/
def BufCall.Answer : BufCall → Type
  | .sgetc | .sbumpc => Option Byte
  | .sgetn _ => Bytes

/-- The calls on the buffer. -/
def StreamBuf.call : (q : BufCall) → StreamBuf → Option q.Answer × StreamBuf
  | .sgetc, b => (some b.sgetc.1, b.sgetc.2)
  | .sbumpc, b => (some b.sbumpc.1, b.sbumpc.2)
  | .sgetn n, b => (some (b.xsgetn n).1, (b.xsgetn n).2)

/-- The calls on the bytes themselves. -/
def callBytes : (q : BufCall) → Bytes → Option q.Answer × Bytes
  | .sgetc, s => (some s.head?, s)
  | .sbumpc, s => (some s.head?, s.tail)
  | .sgetn n, s => (some (s.take n), s.drop n)

/-- The bytes still to be read through the buffer. -/
def StreamBuf.left (b : StreamBuf) : Bytes := b.avail ++ b.conn.wire

theorem StreamBuf.underflow_some {b b' : StreamBuf} (h : b.underflow = some b') :
    b.conn.wire = b'.left ∧ b'.avail ≠ [] := by
  simp only [underflow] at h
  split at h
  · cases h
  · next bs conn hread =>
    cases h
    obtain ⟨hw, hne, -⟩ := Socket.read_some (by decide) hread
    exact ⟨hw, hne⟩

theorem StreamBuf.underflow_none {b : StreamBuf} (h : b.underflow = none) : b.conn.wire = [] := by
  simp only [underflow] at h
  split at h
  · next hread => exact Socket.read_none.mp hread
  · cases h

/-- Reading past the buffer takes the bytes asked for, or all there are. -/
theorem Socket.readAll_eq (s : Socket) (size : Nat) :
    (s.readAll size).1 = s.wire.take size ∧ (s.readAll size).2.wire = s.wire.drop size := by
  induction s, size using Socket.readAll.induct with
  | case1 s size hsize hread =>
    rw [Socket.readAll, dif_pos hsize]
    split
    · simp [Socket.read_none.mp hread]
    · next h => rw [hread] at h; cases h
  | case2 s size hsize bs s' hread _ ih =>
    obtain ⟨hw, -, hlen, -⟩ := Socket.read_some hsize hread
    rw [Socket.readAll, dif_pos hsize]
    split
    · next h => rw [hread] at h; cases h
    · next bs' s'' h =>
      rw [hread] at h
      cases h
      simp only [ih.1, ih.2, hw, List.take_append, List.drop_append]
      simp [List.take_of_length_le hlen, List.drop_of_length_le hlen]
  | case3 s size hsize =>
    rw [Socket.readAll, dif_neg hsize, Nat.eq_zero_of_not_pos hsize]
    simp

/-- The get area holds more than is asked for. -/
theorem StreamBuf.xsgetn_inside {b : StreamBuf} {size : Nat} (h : size < b.avail.length) :
    b.xsgetn size = (b.avail.take size, ⟨b.avail.drop size, b.conn⟩) := by
  have hrest : b.avail.drop size ≠ [] := by simpa using h
  rw [xsgetn]
  exact if_pos hrest

/-- The get area is taken as a whole. -/
theorem StreamBuf.xsgetn_past {b : StreamBuf} {size : Nat} (h : b.avail.length ≤ size) :
    b.xsgetn size =
      if size - b.avail.length = 0 then (b.avail, ⟨[], b.conn⟩)
      else if inBufferSize < size - b.avail.length then
        (b.avail ++ (b.conn.readAll (size - b.avail.length)).1,
          ⟨[], (b.conn.readAll (size - b.avail.length)).2⟩)
      else
        match b.conn.read inBufferSize with
        | none => (b.avail, ⟨[], b.conn⟩)
        | some (bs, conn) =>
          (b.avail ++ (StreamBuf.xsgetn ⟨bs, conn⟩ (size - b.avail.length)).1,
            (StreamBuf.xsgetn ⟨bs, conn⟩ (size - b.avail.length)).2) := by
  have htake : b.avail.take size = b.avail := List.take_of_length_le h
  have hrest : ¬ b.avail.drop size ≠ [] := by simpa using h
  rw [xsgetn]
  simp only [htake, hrest, if_false]
  split_ifs
  · rfl
  · rfl
  · split <;> split <;> simp_all

/-- `xsgetn` takes the bytes asked for, or all there are. -/
theorem StreamBuf.xsgetn_eq (b : StreamBuf) (size : Nat) :
    (b.xsgetn size).1 = b.left.take size ∧ (b.xsgetn size).2.left = b.left.drop size := by
  generalize hlen : b.conn.wire.length = len
  induction len using Nat.strong_induction_on generalizing b size with
  | _ len ih =>
    subst hlen
    rcases Nat.lt_or_ge size b.avail.length with h | h
    · rw [xsgetn_inside h]
      simp [left, List.take_append_of_le_length h.le, List.drop_append_of_le_length h.le]
    · have htake : b.left.take size = b.avail ++ b.conn.wire.take (size - b.avail.length) := by
        rw [left, List.take_append, List.take_of_length_le h]
      have hdrop : b.left.drop size = b.conn.wire.drop (size - b.avail.length) := by
        rw [left, List.drop_append, List.drop_of_length_le h, List.nil_append]
      rw [xsgetn_past h, htake, hdrop]
      split_ifs with hzero hbig
      · simp [hzero, left]
      · have hall := b.conn.readAll_eq (size - b.avail.length)
        exact ⟨by rw [hall.1], by rw [left, hall.2, List.nil_append]⟩
      · rcases hread : b.conn.read inBufferSize with _ | ⟨bs, conn⟩
        · simp [Socket.read_none.mp hread, left]
        · obtain ⟨hw, -, -, hlt⟩ := Socket.read_some (by decide) hread
          obtain ⟨hgot, hleft⟩ := ih _ hlt ⟨bs, conn⟩ (size - b.avail.length) rfl
          simp only [hgot, hleft, hw]
          exact ⟨rfl, rfl⟩

/-- `sgetc` looks at the next byte. -/
theorem StreamBuf.sgetc_eq (b : StreamBuf) :
    b.sgetc.1 = b.left.head? ∧ b.sgetc.2.left = b.left := by
  rcases b with ⟨avail, conn⟩
  cases avail with
  | cons c rest => exact ⟨rfl, rfl⟩
  | nil =>
    simp only [sgetc]
    rcases hone : underflow ⟨[], conn⟩ with _ | ⟨_ | ⟨c, rest⟩, conn'⟩
    · simp [left, show conn.wire = [] from underflow_none hone]
    · exact absurd rfl (underflow_some hone).2
    · have hw : conn.wire = c :: rest ++ conn'.wire := (underflow_some hone).1
      simp [left, hw]

/-- `sbumpc` takes the next byte. -/
theorem StreamBuf.sbumpc_eq (b : StreamBuf) :
    b.sbumpc.1 = b.left.head? ∧ b.sbumpc.2.left = b.left.tail := by
  rcases b with ⟨avail, conn⟩
  cases avail with
  | cons c rest => exact ⟨rfl, rfl⟩
  | nil =>
    simp only [sbumpc]
    rcases hone : underflow ⟨[], conn⟩ with _ | ⟨_ | ⟨c, rest⟩, conn'⟩
    · simp [left, show conn.wire = [] from underflow_none hone]
    · exact absurd rfl (underflow_some hone).2
    · have hw : conn.wire = c :: rest ++ conn'.wire := (underflow_some hone).1
      simp [left, hw]

/-- A program that reads through the buffer returns what it would read from the bytes directly,
whatever the sizes of the pieces are, and leaves the same bytes for the next one. -/
theorem exec_segments {R : Type} (p : Prog BufCall BufCall.Answer R) (b : StreamBuf) :
    (p.exec StreamBuf.call b).1 = (p.exec callBytes b.left).1 ∧
      (p.exec StreamBuf.call b).2.left = (p.exec callBytes b.left).2 := by
  refine Prog.exec_project StreamBuf.left (fun q b => ?_) p b
  cases q with
  | sgetc =>
    obtain ⟨hgot, hleft⟩ := b.sgetc_eq
    exact ⟨congrArg some hgot, hleft⟩
  | sbumpc =>
    obtain ⟨hgot, hleft⟩ := b.sbumpc_eq
    exact ⟨congrArg some hgot, hleft⟩
  | sgetn n =>
    obtain ⟨hgot, hleft⟩ := b.xsgetn_eq n
    exact ⟨congrArg some hgot, hleft⟩

/-! ## The stream on top of the buffer -/

/-- What `get()` leaves of the stream is what `sbumpc` leaves in the buffer. -/
theorem Stream.get_left (b : StreamBuf) : Stream.get ⟨b.left, false⟩ =
    if b.sbumpc.1 = none then ⟨[], true⟩ else ⟨b.sbumpc.2.left, false⟩ := by
  obtain ⟨hgot, hleft⟩ := b.sbumpc_eq
  rw [hgot, hleft]
  rcases b.left with _ | ⟨c, rest⟩ <;> simp [Stream.get]

/-- `read(dest, n)` fills the destination by one `xsgetn` and fails where that has raised. -/
theorem Stream.read_left (b : StreamBuf) (n : Nat) : Stream.read ⟨b.left, false⟩ n =
    if (b.xsgetn n).1.length = n then ((b.xsgetn n).1, ⟨(b.xsgetn n).2.left, false⟩)
    else ((b.xsgetn n).1 ++ List.replicate (n - (b.xsgetn n).1.length) 0, ⟨[], true⟩) := by
  obtain ⟨hgot, hleft⟩ := b.xsgetn_eq n
  rw [hgot, hleft, List.length_take]
  by_cases h : n ≤ b.left.length
  · simp [Stream.read, h]
  · have hmin : min n b.left.length = b.left.length := by omega
    have hne : b.left.length ≠ n := by omega
    simp [Stream.read, h, hmin, hne, List.take_of_length_le (Nat.le_of_not_le h)]

end AsioCoroFrame.Redispp
