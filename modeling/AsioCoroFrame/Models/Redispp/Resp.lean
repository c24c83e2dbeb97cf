import AsioCoroFrame.Core.Numeral
import Mathlib.Tactic.Positivity

/-!
# Replies on the wire and the readers of one reply

The client reads its replies with formatted extraction from one `std::iostream`
over the socket. White space in front of a reply is skipped, what follows its
last digit or its carriage return is left for the next reader, and no reader
ever clears the state of the stream: one failed extraction fails all later ones.
-/

namespace AsioCoroFrame.Redispp

/-! ## What a server answers -/

/-- A reply of the protocol. -/
inductive Resp where
  | status (s : Bytes)
  | error (s : Bytes)
  | integer (i : Int)
  /-- A bulk reply; `none` is the null bulk. -/
  | bulk (s : Option Bytes)
  /-- A multi bulk reply; `none` is the null multi bulk. -/
  | multi (es : Option (List (Option Bytes)))
  deriving DecidableEq, Repr

/-- The text of a bulk reply. -/
def bulkText : Option Bytes → Bytes
  | none => ascii "$-1" ++ crlf
  | some s => 36 :: (decimal s.length ++ crlf ++ s ++ crlf)

/-- The text of the bulk replies inside a multi bulk reply. -/
def elementsText (es : List (Option Bytes)) : Bytes := es.flatMap bulkText

/-- The text of a reply. -/
def Resp.text : Resp → Bytes
  | .status s => 43 :: (s ++ crlf)
  | .error s => 45 :: (s ++ crlf)
  | .integer i => 58 :: (intText i ++ crlf)
  | .bulk s => bulkText s
  | .multi none => ascii "*-1" ++ crlf
  | .multi (some es) => 42 :: (decimal es.length ++ crlf ++ elementsText es)

/-- The smallest value of a signed type of the given width. -/
def minValue (w : Nat) : Int := -2 ^ (w - 1)

/-- The largest value of a signed type of the given width. -/
def maxValue (w : Nat) : Int := 2 ^ (w - 1) - 1

/-- A bulk reply whose length fits an `int`. -/
def BulkFits (s : Option Bytes) : Prop := ∀ b, s = some b → (b.length : Int) ≤ maxValue 32

/-- What a server may answer: one-line texts end at their line end, an error starts with its
upper-case word, and numbers fit the types they are read into. -/
def Resp.WellFormed : Resp → Prop
  | .status s => cr ∉ s
  | .error s => cr ∉ s ∧ ∃ b rest, s = b :: rest ∧ 65 ≤ b.toNat ∧ b.toNat ≤ 90
  | .integer i => minValue 64 ≤ i ∧ i ≤ maxValue 64
  | .bulk s => BulkFits s
  | .multi none => True
  | .multi (some es) => (es.length : Int) ≤ maxValue 32 ∧ ∀ s ∈ es, BulkFits s

/-! ## The stream -/

/-- `*ioStream`: the bytes the socket still delivers, and whether its state is bad. -/
structure Stream where
  input : Bytes
  failed : Bool
  deriving DecidableEq, Repr

/-- The exceptions of the client. -/
inductive Exception where
  /-- `std::runtime_error(what)`. -/
  | runtime (what : Bytes)
  /-- `NullReplyException`. -/
  | nullReply
  deriving DecidableEq, Repr

/-- What a reader leaves: its value or the exception, and the stream. -/
abbrev Outcome (α : Type) := Except Exception α × Stream

/-- `stream >> code`, which skips white space. -/
def Stream.extractChar (s : Stream) : Option Byte × Stream :=
  if s.failed then (none, s)
  else match s.input.dropWhile isSpace with
    | [] => (none, ⟨[], true⟩)
    | c :: rest => (some c, ⟨rest, false⟩)

/-- `stream >> number` for a signed type of width `w`: a number without digits stores zero, one
out of range the nearest bound, and both set `failbit`. -/
def Stream.extractInt (w : Nat) (old : Int) (s : Stream) : Int × Stream :=
  if s.failed then (old, s)
  else
    let (neg, body) := scanSign (s.input.dropWhile isSpace)
    let ds := body.takeWhile (isDigit 10)
    let v : Int := if neg then -(digitsValue 10 ds : Int) else digitsValue 10 ds
    match body.dropWhile (isDigit 10) with
    | [] => (old, ⟨[], true⟩)
    | c :: rest =>
      if ds = [] then (0, ⟨c :: rest, true⟩)
      else if v < minValue w then (minValue w, ⟨c :: rest, true⟩)
      else if maxValue w < v then (maxValue w, ⟨c :: rest, true⟩)
      else (v, ⟨c :: rest, false⟩)

/-- `getlineRN`: the text before the next carriage return. -/
def Stream.getlineRN (s : Stream) : Option Bytes × Stream :=
  if s.failed then (none, s)
  else match cut cr s.input with
    | none => (none, ⟨[], true⟩)
    | some (l, rest) => (some l, ⟨rest, false⟩)

/-- `stream.get()`. -/
def Stream.get (s : Stream) : Stream :=
  if s.failed then s
  else match s.input with
    | [] => ⟨[], true⟩
    | _ :: rest => ⟨rest, false⟩

/-- `stream.read(dest, n)` into a string of `n` zero bytes. -/
def Stream.read (s : Stream) (n : Nat) : Bytes × Stream :=
  if s.failed then (List.replicate n 0, s)
  else if n ≤ s.input.length then (s.input.take n, ⟨s.input.drop n, false⟩)
  else (s.input ++ List.replicate (n - s.input.length) 0, ⟨[], true⟩)

/-! ## The readers -/

/-- `Connection::readStatusCodeReply`. -/
def readStatusCodeReply (s : Stream) : Outcome Bytes :=
  match s.extractChar with
  | (none, s) => (.error (.runtime (ascii "error reading status response")), s)
  | (some code, s) =>
    match s.getlineRN with
    | (none, s) => (.error (.runtime (ascii "error reading status response")), s)
    | (some out, s) =>
      if code = 43 then (.ok out, s)
      else (.error (.runtime (ascii "read error response: " ++ out)), s)

/-- `Connection::readIntegerReply`. -/
def readIntegerReply (s : Stream) : Outcome Int :=
  match s.extractChar with
  | (none, s) => (.error (.runtime (ascii "error reading integer response")), s)
  | (some _, s) =>
    let (ret, s) := s.extractInt 64 0
    if s.failed then (.error (.runtime (ascii "error reading integer response")), s)
    else (.ok ret, s)

/-- `*ioStream >> code >> count` into an `int`, the header of both kinds of bulk replies. The
count is what the variable holds afterwards. -/
def readBulkHeader (want : Byte) (old : Int) (s : Stream) : Except Exception Unit × Int × Stream :=
  match s.extractChar with
  | (none, s) => (.error (.runtime (ascii "error reading bulk response header")), old, s)
  | (some code, s) =>
    let (count, s) := s.extractInt 32 old
    if s.failed then (.error (.runtime (ascii "error reading bulk response header")), count, s)
    else if code = want then (.ok (), count, s)
    else (.error (.runtime (ascii "bad bulk header code: " ++ [code])), count, s)

/-- `Connection::readBulkReply`; what `read` leaves of the stream is not looked at. -/
def readBulkReply (s : Stream) : Outcome (Option Bytes) :=
  match readBulkHeader 36 0 s with
  | (.error e, _, s) => (.error e, s)
  | (.ok (), count, s) =>
    if count < 0 then (.ok none, s)
    else
      let (out, s) := s.get.get.read count.toNat
      (.ok (some out), s)

/-! ## Reading from a stream in front of a reply -/

/-- Only white space. -/
def Gap (g : Bytes) : Prop := ∀ b ∈ g, isSpace b = true

@[simp] theorem gap_nil : Gap [] := by simp [Gap]

theorem gap_crlf : Gap crlf := by
  intro b hb
  simp only [crlf, List.mem_cons, List.not_mem_nil, or_false] at hb
  rcases hb with rfl | rfl <;> decide

theorem gap_lf : Gap [lf] := by
  intro b hb
  rw [List.mem_singleton.mp hb]
  decide

/-- White space in front of anything else is skipped. -/
theorem dropWhile_gap {g : Bytes} (hg : Gap g) {c : Byte} (hc : isSpace c = false)
    (rest : Bytes) : (g ++ c :: rest).dropWhile isSpace = c :: rest := by
  rw [List.dropWhile_append_of_pos hg]
  simp [hc]

/-- The character after the white space is extracted. -/
theorem extractChar_gap {g : Bytes} (hg : Gap g) {c : Byte} (hc : isSpace c = false)
    (rest : Bytes) : Stream.extractChar ⟨g ++ c :: rest, false⟩ = (some c, ⟨rest, false⟩) := by
  simp [Stream.extractChar, dropWhile_gap hg hc]

/-- A numeral starts with a digit. -/
theorem decimal_cons (n : Nat) : ∃ d ds, decimal n = d :: ds ∧ isDigit 10 d = true := by
  obtain ⟨d, ds, hd⟩ := List.exists_cons_of_ne_nil (decimal_ne_nil n)
  exact ⟨d, ds, hd, isDigit_of_mem_decimal (n := n) (by simp [hd])⟩

/-- The numeral of an integer is split into its sign and its digits. -/
theorem scanSign_intText (i : Int) (rest : Bytes) :
    scanSign (((intText i) ++ rest).dropWhile isSpace) =
      (decide (i < 0), decimal i.natAbs ++ rest) := by
  cases i with
  | ofNat n =>
    obtain ⟨d, ds, hd, hdig⟩ := decimal_cons n
    have hsp := not_space_of_isDigit hdig
    simp [intText, hd, hsp, scanSign_of_isDigit _ hdig]
  | negSucc n =>
    have hsp : isSpace 45 = false := by decide
    have hneg : Int.negSucc n < 0 := Int.negSucc_lt_zero n
    simp [intText, hsp, scanSign, hneg]

theorem minValue_le_natCast (w n : Nat) : minValue w ≤ (n : Int) := by
  have hpos : (0 : Int) ≤ 2 ^ (w - 1) := by positivity
  simp only [minValue]
  omega

/-- The digits of a numeral end where it ends. -/
theorem digits_span (n : Nat) {c : Byte} (hc : isDigit 10 c = false) (rest : Bytes) :
    (decimal n ++ c :: rest).takeWhile (isDigit 10) = decimal n ∧
      (decimal n ++ c :: rest).dropWhile (isDigit 10) = c :: rest := by
  have hall : ∀ b ∈ decimal n, isDigit 10 b = true := fun _ hb => isDigit_of_mem_decimal hb
  constructor
  · rw [List.takeWhile_append_of_pos hall]
    simp [hc]
  · rw [List.dropWhile_append_of_pos hall]
    simp [hc]

/-- An integer of the type is extracted with the value it was printed from. -/
theorem extractInt_intText {w : Nat} (old : Int) {i : Int} (hi : minValue w ≤ i ∧ i ≤ maxValue w)
    {c : Byte} (hc : isDigit 10 c = false) (rest : Bytes) :
    Stream.extractInt w old ⟨intText i ++ c :: rest, false⟩ = (i, ⟨c :: rest, false⟩) := by
  have hv :
      (if decide (i < 0) = true then -((i.natAbs : Nat) : Int) else (i.natAbs : Nat)) = i := by
    by_cases h : i < 0
    · simp only [h, decide_true, if_true]
      omega
    · simp only [h, decide_false, Bool.false_eq_true, if_false]
      omega
  obtain ⟨htake, hdrop⟩ := digits_span i.natAbs hc rest
  simp only [Stream.extractInt, Bool.false_eq_true, if_false, scanSign_intText, htake, hdrop,
    digitsValue_decimal, hv, decimal_ne_nil, Int.not_lt.mpr hi.1, Int.not_lt.mpr hi.2]

/-- A text without a number in front fails the stream. -/
theorem extractInt_word (w : Nat) (old : Int) {c : Byte} (hc : 65 ≤ c.toNat ∧ c.toNat ≤ 90)
    (rest : Bytes) : Stream.extractInt w old ⟨c :: rest, false⟩ = (0, ⟨c :: rest, true⟩) := by
  have hsp : isSpace c = false := by
    simp only [isSpace, Bool.or_eq_false_iff, Bool.and_eq_false_iff, decide_eq_false_iff_not]
    refine ⟨?_, .inr (by omega)⟩
    rintro rfl
    exact absurd hc.1 (by decide)
  have hdig : isDigit 10 c = false := by
    by_contra h
    have hb := isDigit_ten_bounds (by simpa using h)
    omega
  have hsign : scanSign (c :: rest) = (false, c :: rest) := by
    have hminus : c ≠ 45 := by
      rintro rfl
      exact absurd hc.1 (by decide)
    have hplus : c ≠ 43 := by
      rintro rfl
      exact absurd hc.1 (by decide)
    simp [scanSign, hminus, hplus]
  simp [Stream.extractInt, hsp, hsign, hdig]

theorem cr_not_digit : isDigit 10 cr = false := by decide

/-! ## Every reader on the reply it is meant for -/

section Readers

variable {g : Bytes} (hg : Gap g) (rest : Bytes)

include hg

/-- A status reply gives its text; the line feed stays in front of the next reply. -/
theorem readStatusCodeReply_status {s : Bytes} (hs : cr ∉ s) :
    readStatusCodeReply ⟨g ++ (Resp.status s).text ++ rest, false⟩ =
      (.ok s, ⟨lf :: rest, false⟩) := by
  have hplus : isSpace 43 = false := by decide
  have hcut : cut cr (s ++ cr :: lf :: rest) = some (s, lf :: rest) := cut_append _ hs
  simp [readStatusCodeReply, Resp.text, crlf, extractChar_gap hg hplus, Stream.getlineRN, hcut]

/-- An error reply read as a status raises its text and leaves the stream in order. -/
theorem readStatusCodeReply_error {s : Bytes} (hs : cr ∉ s) :
    readStatusCodeReply ⟨g ++ (Resp.error s).text ++ rest, false⟩ =
      (.error (.runtime (ascii "read error response: " ++ s)), ⟨lf :: rest, false⟩) := by
  have hminus : isSpace 45 = false := by decide
  have hne : (45 : Byte) ≠ 43 := by decide
  have hcut : cut cr (s ++ cr :: lf :: rest) = some (s, lf :: rest) := cut_append _ hs
  simp [readStatusCodeReply, Resp.text, crlf, extractChar_gap hg hminus, Stream.getlineRN, hcut,
    hne]

/-- The integer reader takes a number behind any code; its line end stays in front of the next
reply. -/
theorem readIntegerReply_code {code : Byte} (hcode : isSpace code = false) {i : Int}
    (hi : minValue 64 ≤ i ∧ i ≤ maxValue 64) :
    readIntegerReply ⟨g ++ code :: (intText i ++ crlf ++ rest), false⟩ =
      (.ok i, ⟨crlf ++ rest, false⟩) := by
  have hint := extractInt_intText 0 hi cr_not_digit (lf :: rest)
  simp [readIntegerReply, crlf, extractChar_gap hg hcode, hint]

/-- An integer reply gives its number. -/
theorem readIntegerReply_integer {i : Int} (hi : minValue 64 ≤ i ∧ i ≤ maxValue 64) :
    readIntegerReply ⟨g ++ (Resp.integer i).text ++ rest, false⟩ =
      (.ok i, ⟨crlf ++ rest, false⟩) := by
  have hcolon : isSpace 58 = false := by decide
  rw [List.append_assoc]
  exact readIntegerReply_code hg rest hcolon hi

/-- An error reply read as an integer raises and fails the stream. -/
theorem readIntegerReply_error {s : Bytes} (hs : (Resp.error s).WellFormed) :
    readIntegerReply ⟨g ++ (Resp.error s).text ++ rest, false⟩ =
      (.error (.runtime (ascii "error reading integer response")), ⟨s ++ crlf ++ rest, true⟩) := by
  obtain ⟨-, b, w, rfl, hb⟩ := hs
  have hminus : isSpace 45 = false := by decide
  have hword := extractInt_word 64 0 hb (w ++ cr :: lf :: rest)
  simp [readIntegerReply, Resp.text, crlf, extractChar_gap hg hminus, hword]

/-- The header of a bulk reply or of a multi bulk reply gives its count. -/
theorem readBulkHeader_count {code : Byte} (hcode : isSpace code = false) (old : Int)
    {count : Int} (hcount : minValue 32 ≤ count ∧ count ≤ maxValue 32) :
    readBulkHeader code old ⟨g ++ code :: (intText count ++ crlf ++ rest), false⟩ =
      (.ok (), count, ⟨crlf ++ rest, false⟩) := by
  have hint := extractInt_intText old hcount cr_not_digit (lf :: rest)
  simp [readBulkHeader, crlf, extractChar_gap hg hcode, hint]

/-- An error reply in the place of a bulk header raises and fails the stream. -/
theorem readBulkHeader_error {s : Bytes} (hs : (Resp.error s).WellFormed) (want : Byte)
    (old : Int) :
    readBulkHeader want old ⟨g ++ (Resp.error s).text ++ rest, false⟩ =
      (.error (.runtime (ascii "error reading bulk response header")), 0,
        ⟨s ++ crlf ++ rest, true⟩) := by
  obtain ⟨-, b, w, rfl, hb⟩ := hs
  have hminus : isSpace 45 = false := by decide
  have hword := extractInt_word 32 old hb (w ++ cr :: lf :: rest)
  simp [readBulkHeader, Resp.text, crlf, extractChar_gap hg hminus, hword]

/-- A bulk reply gives its bytes, and white space stays in front of the next reply. -/
theorem readBulkReply_bulk {s : Option Bytes} (hs : BulkFits s) :
    readBulkReply ⟨g ++ bulkText s ++ rest, false⟩ = (.ok s, ⟨crlf ++ rest, false⟩) := by
  have hdollar : isSpace 36 = false := by decide
  cases s with
  | none =>
    have htext : g ++ bulkText none ++ rest = g ++ 36 :: (intText (-1) ++ crlf ++ rest) := by
      simp [bulkText, show ascii "$-1" = 36 :: intText (-1) by decide]
    rw [readBulkReply, htext, readBulkHeader_count hg rest hdollar 0 (by decide)]
    simp
  | some b =>
    have hb := hs b rfl
    have htext : g ++ bulkText (some b) ++ rest =
        g ++ 36 :: (intText (b.length : Int) ++ crlf ++ (b ++ crlf ++ rest)) := by
      simp [bulkText, intText]
    have hneg : ¬ ((b.length : Int) < 0) := by omega
    have hmin : minValue 32 ≤ (b.length : Int) := minValue_le_natCast 32 b.length
    rw [readBulkReply, htext, readBulkHeader_count hg _ hdollar 0 ⟨hmin, hb⟩]
    simp [hneg, crlf, Stream.get, Stream.read]

end Readers

/-! ## Every reader on a failed stream -/

section Failed

variable {s : Stream} (h : s.failed = true)

include h

/-- A status reader raises on a failed stream, which stays as it is. -/
theorem readStatusCodeReply_failed :
    readStatusCodeReply s = (.error (.runtime (ascii "error reading status response")), s) := by
  simp [readStatusCodeReply, Stream.extractChar, h]

theorem readIntegerReply_failed :
    readIntegerReply s = (.error (.runtime (ascii "error reading integer response")), s) := by
  simp [readIntegerReply, Stream.extractChar, h]

theorem readBulkHeader_failed (want : Byte) (old : Int) :
    readBulkHeader want old s =
      (.error (.runtime (ascii "error reading bulk response header")), old, s) := by
  simp [readBulkHeader, Stream.extractChar, h]

theorem readBulkReply_failed :
    readBulkReply s = (.error (.runtime (ascii "error reading bulk response header")), s) := by
  simp [readBulkReply, readBulkHeader_failed h]

end Failed

end AsioCoroFrame.Redispp
