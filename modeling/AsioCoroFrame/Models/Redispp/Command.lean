import AsioCoroFrame.Models.Cluster.Reply
import AsioCoroFrame.Models.Redispp.Resp

/-!
# Requests and the buffer they are written into

A command is written into a buffer of fixed size, every write after a check of
the space left, and the finished text is handed to the stream at once. What a
server reads back from the concatenated texts is the list of commands.
-/

namespace AsioCoroFrame.Redispp

open Cluster (cString)

/-! ## The buffer -/

/-- `Buffer`: the written part `[buffer, spot)` never passes `end`. -/
structure Buffer where
  /-- `end - buffer`. -/
  capacity : Nat
  /-- The bytes before `spot`. -/
  data : Bytes
  /-- `marked - buffer`. -/
  marked : Nat
  /-- The writes stay inside of the allocation. -/
  fits : data.length ≤ capacity
  deriving DecidableEq

/-- `Buffer::Buffer(bufferSize)`. -/
def Buffer.new (bufferSize : Nat) : Buffer := ⟨bufferSize, [], 0, Nat.zero_le _⟩

/-- `Buffer::resetToMark`. -/
def Buffer.resetToMark (b : Buffer) : Buffer :=
  ⟨b.capacity, b.data.take b.marked, b.marked, (List.length_take_le' ..).trans b.fits⟩

/-- The exception of `checkSpace`. -/
def bufferFull : Exception := .runtime (ascii "buffer is full: spot + needed >= end")

/-- Append bytes once the check has made sure that they fit. -/
def Buffer.append (b : Buffer) (s : Bytes) (h : b.data.length + s.length ≤ b.capacity) : Buffer :=
  ⟨b.capacity, b.data ++ s, b.marked, by simpa using h⟩

/-- `Buffer::write(str, len)`, with its `checkSpace(len)`. -/
def Buffer.write (b : Buffer) (s : Bytes) : Except Exception Unit × Buffer :=
  if h : b.capacity ≤ b.data.length + s.length then (.error bufferFull, b)
  else (.ok (), b.append s (by omega))

/-- What `writeArg` appends: `writeArgLen`, whose parameter is an `unsigned int`, the bytes of the
argument and a line end. -/
def argText (arg : Bytes) : Bytes :=
  36 :: (decimal (arg.length % 2 ^ 32) ++ crlf ++ arg ++ crlf)

/-- A numeral is as long as its number allows. -/
theorem length_decimal_le {n k : Nat} (hk : 0 < k) (h : n < 10 ^ k) : (decimal n).length ≤ k := by
  induction k generalizing n with
  | zero => omega
  | succ k ih =>
    rcases Nat.lt_or_ge n 10 with hn | hn
    · simp [decimal_of_lt hn]
    · rw [decimal_of_le hn, List.length_append, List.length_singleton]
      have hk0 : 0 < k := by
        rcases Nat.eq_zero_or_pos k with rfl | hk0
        · simp only [zero_add, pow_one] at h
          omega
        · exact hk0
      have hdiv : n / 10 < 10 ^ k := by
        rw [pow_succ] at h
        omega
      exact Nat.add_le_add_right (ih hk0 hdiv) 1

/-- The sixteen bytes that `writeArg` asks for besides the argument are enough. -/
theorem length_argText_le (arg : Bytes) : (argText arg).length ≤ arg.length + 1 + 11 + 4 := by
  have hlen : (decimal (arg.length % 2 ^ 32)).length ≤ 10 :=
    length_decimal_le (by decide) (lt_trans (Nat.mod_lt _ (by decide)) (by decide))
  simp only [argText, crlf, List.length_cons, List.length_append, List.length_nil]
  omega

/-- `Buffer::writeArg`, with its `checkSpace(len + 1 + 11 + 4)`. -/
def Buffer.writeArg (b : Buffer) (arg : Bytes) : Except Exception Unit × Buffer :=
  if h : b.capacity ≤ b.data.length + (arg.length + 1 + 11 + 4) then (.error bufferFull, b)
  else (.ok (), b.append (argText arg) (by have := length_argText_le arg; omega))

/-! ## Commands -/

/-- An argument of a command, by the overload of `writeArg` that takes it. -/
inductive Arg where
  | string (s : Bytes)
  /-- A `const char*`, whose length is `strlen`. -/
  | text (s : Bytes)
  /-- An `int`, printed into `numberBuf` first. -/
  | number (i : Int)
  deriving DecidableEq, Repr

/-- The bytes an argument is sent as. -/
def Arg.bytes : Arg → Bytes
  | .string s => s
  | .text s => cString s
  | .number i => intText i

/-- A call of `EXECUTE_COMMAND_SYNC`: the name of the command and the arguments of `execute`. -/
structure Request where
  cmdName : Bytes
  args : List Arg
  deriving DecidableEq, Repr

/-- The words a server understands. -/
def Request.words (r : Request) : List Bytes := r.cmdName :: r.args.map Arg.bytes

/-- `Command::header`; every method passes as many arguments as its command is declared with. -/
def Request.header (r : Request) : Bytes :=
  42 :: (decimal (r.args.length + 1) ++ crlf ++
    36 :: (decimal r.cmdName.length ++ crlf ++ r.cmdName ++ crlf))

/-- The `writeArg` calls of `Command::execute`. -/
def writeArgs : List Arg → Buffer → Except Exception Unit × Buffer
  | [], b => (.ok (), b)
  | a :: as, b =>
    match b.writeArg a.bytes with
    | (.error e, b') => (.error e, b')
    | (.ok (), b') => writeArgs as b'

/-- `Command::execute`. -/
def Request.execute (r : Request) (b : Buffer) : Except Exception Unit × Buffer :=
  match b.write r.header with
  | (.error e, b') => (.error e, b')
  | (.ok (), b') => writeArgs r.args b'

/-- The text of a command that fits. -/
def Request.text (r : Request) : Bytes := r.header ++ r.args.flatMap fun a => argText a.bytes

/-- The argument writes append the texts of the arguments or fail. -/
theorem writeArgs_ok {as : List Arg} {b b' : Buffer} (h : writeArgs as b = (.ok (), b')) :
    b'.data = b.data ++ as.flatMap (fun a => argText a.bytes) ∧ b'.marked = b.marked ∧
      b'.capacity = b.capacity := by
  induction as generalizing b with
  | nil =>
    obtain rfl : b = b' := (Prod.mk.inj h).2
    simp
  | cons a as ih =>
    simp only [writeArgs, Buffer.writeArg] at h
    split_ifs at h with hspace
    · simp at h
    · obtain ⟨hdata, hmark, hcap⟩ := ih h
      refine ⟨?_, hmark, hcap⟩
      simp [hdata, Buffer.append]

/-- The mark and the size survive the argument writes, whether they fit or not. -/
theorem writeArgs_frame (as : List Arg) (b : Buffer) :
    (writeArgs as b).2.marked = b.marked ∧ (writeArgs as b).2.capacity = b.capacity := by
  induction as generalizing b with
  | nil => exact ⟨rfl, rfl⟩
  | cons a as ih =>
    simp only [writeArgs, Buffer.writeArg]
    split_ifs with hspace
    · exact ⟨rfl, rfl⟩
    · exact ih _

/-- The mark and the size survive a command. -/
theorem Request.execute_frame (r : Request) (b : Buffer) :
    (r.execute b).2.marked = b.marked ∧ (r.execute b).2.capacity = b.capacity := by
  simp only [Request.execute, Buffer.write]
  split_ifs with hspace
  · exact ⟨rfl, rfl⟩
  · exact writeArgs_frame r.args _

/-- A command that raises nothing has appended its whole text, and all of its words are shorter
than the buffer. -/
theorem Request.execute_ok {r : Request} {b b' : Buffer} (h : r.execute b = (.ok (), b')) :
    b'.data = b.data ++ r.text ∧ r.cmdName.length < b.capacity ∧
      ∀ a ∈ r.args, a.bytes.length < b.capacity := by
  simp only [Request.execute, Buffer.write] at h
  split_ifs at h with hspace
  · simp at h
  · obtain ⟨hdata, -, hcap⟩ := writeArgs_ok h
    have hfit := b'.fits
    rw [hdata, hcap] at hfit
    simp only [Buffer.append, List.length_append] at hfit
    refine ⟨by simp [hdata, Buffer.append, Request.text], ?_, ?_⟩
    · have hname : r.cmdName.length < r.header.length := by
        simp only [Request.header, List.length_cons, List.length_append]
        omega
      omega
    · intro a ha
      have hsub : a.bytes.length < (r.args.flatMap fun a => argText a.bytes).length := by
        obtain ⟨pre, post, heq⟩ := List.append_of_mem ha
        simp only [heq, List.flatMap_append, List.flatMap_cons, List.length_append, argText,
          List.length_cons]
        omega
      omega

/-! ## Reading requests back -/

/-- A number followed by a line end. -/
def decodeNumber (s : Bytes) : Option (Nat × Bytes) :=
  if s.takeWhile (isDigit 10) = [] then none
  else match s.dropWhile (isDigit 10) with
    | 13 :: 10 :: rest => some (digitsValue 10 (s.takeWhile (isDigit 10)), rest)
    | _ => none

/-- One word: `$`, its length, its bytes and a line end. -/
def decodeWord : Bytes → Option (Bytes × Bytes)
  | 36 :: s =>
    match decodeNumber s with
    | none => none
    | some (n, body) =>
      match body.drop n with
      | 13 :: 10 :: rest => if n ≤ body.length then some (body.take n, rest) else none
      | _ => none
  | _ => none

/-- A number of words, one after the other. -/
def decodeWords : Nat → Bytes → Option (List Bytes × Bytes)
  | 0, s => some ([], s)
  | n + 1, s =>
    match decodeWord s with
    | none => none
    | some (w, rest) => (decodeWords n rest).map fun p => (w :: p.1, p.2)

/-- One command of a server's input. -/
def decodeRequest : Bytes → Option (List Bytes × Bytes)
  | 42 :: s =>
    match decodeNumber s with
    | none => none
    | some (n, rest) => decodeWords n rest
  | _ => none

/-- All commands of a server's input, which a command leaves shorter. -/
def decodeRequests : Nat → Bytes → Option (List (List Bytes))
  | _, [] => some []
  | 0, _ :: _ => none
  | fuel + 1, b :: s =>
    match decodeRequest (b :: s) with
    | none => none
    | some (ws, rest) => (decodeRequests fuel rest).map (ws :: ·)

theorem decodeNumber_decimal (n : Nat) (rest : Bytes) :
    decodeNumber (decimal n ++ crlf ++ rest) = some (n, rest) := by
  have hspan := digits_span n (c := 13) (by decide) (10 :: rest)
  have htext : decimal n ++ crlf ++ rest = decimal n ++ 13 :: 10 :: rest := by
    simp [crlf, cr, lf]
  rw [htext, decodeNumber, hspan.1, hspan.2, if_neg (decimal_ne_nil n), digitsValue_decimal]
  rfl

theorem decodeWord_argText {arg : Bytes} (h : arg.length < 2 ^ 32) (rest : Bytes) :
    decodeWord (argText arg ++ rest) = some (arg, rest) := by
  have hnum := decodeNumber_decimal arg.length (arg ++ crlf ++ rest)
  have hdrop : (arg ++ crlf ++ rest).drop arg.length = 13 :: 10 :: rest := by
    simp [crlf, cr, lf]
  simp only [argText, Nat.mod_eq_of_lt h, List.cons_append, decodeWord, List.append_assoc] at hnum ⊢
  simp only [List.append_assoc] at hdrop
  simp [hnum, hdrop]

theorem decodeWords_flatMap {as : List Bytes} (h : ∀ a ∈ as, a.length < 2 ^ 32) (rest : Bytes) :
    decodeWords as.length (as.flatMap argText ++ rest) = some (as, rest) := by
  induction as with
  | nil => rfl
  | cons a as ih =>
    rw [List.length_cons, List.flatMap_cons, List.append_assoc, decodeWords,
      decodeWord_argText (h a List.mem_cons_self)]
    simp only [ih fun a ha => h a (List.mem_cons_of_mem _ ha), Option.map_some]

/-- The text of a command reads back as its words, whatever follows. -/
theorem decodeRequest_text {r : Request} (hname : r.cmdName.length < 2 ^ 32)
    (h : ∀ a ∈ r.args, a.bytes.length < 2 ^ 32) (rest : Bytes) :
    decodeRequest (r.text ++ rest) = some (r.words, rest) := by
  have hwords : ∀ w ∈ r.words, w.length < 2 ^ 32 := by
    intro w hw
    rcases List.mem_cons.mp hw with rfl | hw
    · exact hname
    · obtain ⟨a, ha, rfl⟩ := List.mem_map.mp hw
      exact h a ha
  have hlen := Nat.mod_eq_of_lt hname
  have htext : r.text ++ rest =
      42 :: (decimal r.words.length ++ crlf ++ (r.words.flatMap argText ++ rest)) := by
    simp only [Request.text, Request.header, Request.words, argText, List.flatMap_cons, hlen]
    simp [List.flatMap_map, argText]
  rw [htext, decodeRequest, decodeNumber_decimal]
  exact decodeWords_flatMap hwords rest

/-- A list of commands written one after the other reads back as the list of their words. -/
theorem decodeRequests_text {rs : List Request}
    (h : ∀ r ∈ rs, r.cmdName.length < 2 ^ 32 ∧ ∀ a ∈ r.args, a.bytes.length < 2 ^ 32)
    {fuel : Nat} (hfuel : rs.length ≤ fuel) :
    decodeRequests fuel (rs.flatMap Request.text) = some (rs.map Request.words) := by
  induction rs generalizing fuel with
  | nil => cases fuel <;> rfl
  | cons r rs ih =>
    obtain ⟨fuel, rfl⟩ : ∃ f, fuel = f + 1 := ⟨fuel - 1, by simp at hfuel; omega⟩
    have hone := decodeRequest_text (h r List.mem_cons_self).1 (h r List.mem_cons_self).2
      (rs.flatMap Request.text)
    have hcons : r.text ++ rs.flatMap Request.text =
        42 :: (decimal (r.args.length + 1) ++ crlf ++
          36 :: (decimal r.cmdName.length ++ crlf ++ r.cmdName ++ crlf) ++
            (r.args.flatMap fun a => argText a.bytes) ++ rs.flatMap Request.text) := by
      simp [Request.text, Request.header]
    rw [List.flatMap_cons, hcons, decodeRequests, ← hcons, hone]
    simp only [ih (fun r hr => h r (List.mem_cons_of_mem _ hr)) (by simpa using hfuel),
      Option.map_some, List.map_cons]

end AsioCoroFrame.Redispp
