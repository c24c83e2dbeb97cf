import Mathlib.Algebra.Group.Int.Defs
import Mathlib.Algebra.Group.Nat.Defs
import Mathlib.Data.List.Infix
import Mathlib.Data.List.TakeDrop
import Mathlib.Data.List.Basic
import Mathlib.Tactic.Common

/-!
# Byte strings, searches and input streams

The operations of a C++ string that the programs below use, on plain lists: a
search reports a position or nothing, a substring raises past the end, and a
line is taken off the front of a buffer. Every search is characterised by the
decomposition of the list it finds, so later proofs never unfold it.
-/

namespace AsioCoroFrame

/-- One `char` of the source. -/
abbrev Byte := UInt8

/-- A `std::string`, or the readable part of a stream buffer. -/
abbrev Bytes := List Byte

/-- The bytes of a string literal. -/
def ascii (s : String) : Bytes := s.toUTF8.data.toList

/-- Line feed, the delimiter of `std::getline`. -/
def lf : Byte := 10

/-- Carriage return. -/
def cr : Byte := 13

/-- The single space separating the parts of a request line. -/
def sp : Byte := 32

/-- The colon separating a field name from its value. -/
def colon : Byte := 58

/-- The path separator. -/
def slash : Byte := 47

@[simp] theorem lf_ne_cr : lf ≠ cr := by decide

@[simp] theorem lf_ne_sp : lf ≠ sp := by decide

@[simp] theorem lf_ne_colon : lf ≠ colon := by decide

@[simp] theorem cr_ne_sp : cr ≠ sp := by decide

/-- The line end of HTTP. -/
def crlf : Bytes := [cr, lf]

/-- The delimiter handed to `async_read_until`: a line end and an empty line. -/
def crlfcrlf : Bytes := [cr, lf, cr, lf]

/-- The exceptions of the standard library that the modelled code can raise. -/
inductive StdException where
  /-- `std::out_of_range`, with its `what()` text. -/
  | outOfRange (what : Bytes)
  /-- `std::invalid_argument`, with its `what()` text. -/
  | invalidArgument (what : Bytes)
  deriving DecidableEq, Repr

/-- The text `e.what()` of a standard exception. -/
def StdException.what : StdException → Bytes
  | .outOfRange w => w
  | .invalidArgument w => w

/-! ## Searching one byte -/

section Cut

variable {α : Type*} [DecidableEq α]

/-- Split a list at the first occurrence of `c`, dropping that occurrence. -/
def cut (c : α) : List α → Option (List α × List α)
  | [] => none
  | x :: s => if x = c then some ([], s) else (cut c s).map fun p => (x :: p.1, p.2)

/-- A cut fails exactly on the lists that avoid the separator. -/
@[simp] theorem cut_eq_none {c : α} {s : List α} : cut c s = none ↔ c ∉ s := by
  induction s with
  | nil => simp [cut]
  | cons x s ih =>
    by_cases hx : x = c
    · simp [cut, hx]
    · simp [cut, hx, ih, Ne.symm hx]

/-- A cut is the decomposition at the first separator, and there is only one. -/
theorem cut_eq_some {c : α} {s a b : List α} :
    cut c s = some (a, b) ↔ s = a ++ c :: b ∧ c ∉ a := by
  induction s generalizing a with
  | nil => simp [cut]
  | cons x s ih =>
    by_cases hx : x = c
    · subst x
      cases a with
      | nil => simp [cut, eq_comm]
      | cons y a => simp only [cut, ite_true]; aesop
    · cases a with
      | nil => simp [cut, hx]
      | cons y a =>
        simp only [cut, hx, ite_false, Option.map_eq_some_iff, Prod.exists, Prod.mk.injEq,
          List.cons.injEq, List.cons_append, List.mem_cons, not_or]
        constructor
        · rintro ⟨a', b', h, ⟨rfl, rfl⟩, rfl⟩
          exact ⟨⟨rfl, (ih.mp h).1⟩, Ne.symm hx, (ih.mp h).2⟩
        · rintro ⟨⟨rfl, hs⟩, _, ha⟩
          exact ⟨a, b, ih.mpr ⟨hs, ha⟩, ⟨rfl, rfl⟩, rfl⟩

/-- The cut of a list already written at its first separator. -/
theorem cut_append {c : α} {a : List α} (b : List α) (h : c ∉ a) :
    cut c (a ++ c :: b) = some (a, b) := cut_eq_some.mpr ⟨rfl, h⟩

/-- `std::string::find(c, pos)`; `none` stands for `npos`. -/
def findFrom (c : α) (pos : Nat) (s : List α) : Option Nat :=
  (cut c (s.drop pos)).map fun p => pos + p.1.length

/-- A search from the start of a list written at its first separator. -/
theorem findFrom_zero_append {c : α} {a : List α} (b : List α) (h : c ∉ a) :
    findFrom c 0 (a ++ c :: b) = some a.length := by
  simp [findFrom, cut_append b h]

/-- A search resumed right after a known prefix. -/
theorem findFrom_append {c : α} (pre : List α) {a : List α} (b : List α) (h : c ∉ a)
    {pos : Nat} (hpos : pos = pre.length) :
    findFrom c pos (pre ++ (a ++ c :: b)) = some (pos + a.length) := by
  subst hpos
  simp [findFrom, cut_append b h]

@[simp] theorem findFrom_zero_eq_none {c : α} {s : List α} :
    findFrom c 0 s = none ↔ c ∉ s := by
  simp [findFrom]

/-- The position after a found one; `npos + 1` wraps to zero. -/
def posAfter (p : Option Nat) : Nat := (p.map (· + 1)).getD 0

/-- A separator that occurs is found at the end of the part that avoids it. -/
theorem exists_append_of_mem {c : α} {s : List α} (h : c ∈ s) :
    ∃ a b, s = a ++ c :: b ∧ c ∉ a := by
  cases hc : cut c s with
  | none => exact absurd h (cut_eq_none.mp hc)
  | some p => exact ⟨p.1, p.2, cut_eq_some.mp hc⟩

end Cut

/-! ## Searching a substring -/

section FindSub

variable {α : Type*} [DecidableEq α]

/-- `std::string::find(pat)`: the position of the leftmost occurrence. -/
def findSub (pat : List α) : List α → Option Nat
  | [] => if pat = [] then some 0 else none
  | x :: s => if pat.isPrefixOf (x :: s) then some 0 else (findSub pat s).map (· + 1)

/-- The search stops at once on a list that starts with the pattern. -/
theorem findSub_of_prefix {pat s : List α} (h : pat <+: s) : findSub pat s = some 0 := by
  cases s with
  | nil => simp [findSub, List.prefix_nil.mp h]
  | cons x s => simp [findSub, List.isPrefixOf_iff_prefix.mpr h]

/-- A prefix in which no occurrence starts is skipped. -/
theorem findSub_skip {pat : List α} (a b : List α)
    (h : ∀ i < a.length, ¬ pat <+: (a ++ b).drop i) :
    findSub pat (a ++ b) = (findSub pat b).map (· + a.length) := by
  induction a with
  | nil => simp
  | cons x a ih =>
    have h0 : ¬ pat <+: x :: (a ++ b) := h 0 (by simp)
    have ht : ∀ i < a.length, ¬ pat <+: (a ++ b).drop i := by
      intro i hi
      exact h (i + 1) (by simpa using hi)
    have hp : pat.isPrefixOf (x :: (a ++ b)) = false := by
      simpa [← List.isPrefixOf_iff_prefix] using h0
    simp only [List.cons_append, findSub, hp, Bool.false_eq_true, ite_false, ih ht,
      Option.map_map, List.length_cons]
    congr 1

/-- A successful search exposes the occurrence it found. -/
theorem findSub_some {pat : List α} {s : List α} {i : Nat} (h : findSub pat s = some i) :
    pat <+: s.drop i ∧ i + pat.length ≤ s.length := by
  induction s generalizing i with
  | nil =>
    simp only [findSub] at h
    split at h
    · rename_i hp
      cases h
      simp [hp]
    · cases h
  | cons x s ih =>
    simp only [findSub] at h
    split at h
    · rename_i hp
      cases h
      have hpre := List.isPrefixOf_iff_prefix.mp hp
      exact ⟨hpre, by simpa using hpre.length_le⟩
    · obtain ⟨j, hj, rfl⟩ := Option.map_eq_some_iff.mp h
      obtain ⟨hpre, hlen⟩ := ih hj
      exact ⟨by simpa using hpre, by simp only [List.length_cons]; omega⟩

/-- A search fails exactly on the lists in which the pattern does not occur. -/
theorem findSub_eq_none {pat s : List α} : findSub pat s = none ↔ ¬ pat <:+: s := by
  induction s with
  | nil => simp [findSub]
  | cons x s ih =>
    rw [findSub, List.infix_cons_iff, not_or, ← ih, ← List.isPrefixOf_iff_prefix]
    cases pat.isPrefixOf (x :: s) <;> simp

/-- What follows an occurrence does not change where the first one is. -/
theorem findSub_append {pat s : List α} {i : Nat} (h : findSub pat s = some i) (t : List α) :
    findSub pat (s ++ t) = some i := by
  induction s generalizing i with
  | nil =>
    simp only [findSub, Option.ite_none_right_eq_some, Option.some.injEq] at h
    obtain ⟨rfl, rfl⟩ := h
    exact findSub_of_prefix List.nil_prefix
  | cons x s ih =>
    have hlen := (findSub_some h).2
    simp only [findSub] at h
    split at h
    · rename_i hp
      cases h
      exact findSub_of_prefix ((List.isPrefixOf_iff_prefix.mp hp).trans (List.prefix_append ..))
    · rename_i hp
      obtain ⟨j, hj, rfl⟩ := Option.map_eq_some_iff.mp h
      have hno : ¬ pat.isPrefixOf (x :: (s ++ t)) = true := by
        intro hpre
        refine hp (List.isPrefixOf_iff_prefix.mpr ?_)
        exact List.prefix_of_prefix_length_le (List.isPrefixOf_iff_prefix.mp hpre)
          (List.prefix_append (x :: s) t) (by omega)
      simp only [List.cons_append, findSub, hno, Bool.false_eq_true, if_false, ih hj,
        Option.map_some]

end FindSub

/-! ## Substrings and unsigned differences -/

/-- The difference of two `size_t` values, which wraps below zero. -/
def sizeSub (a b : Nat) : Nat := if b ≤ a then a - b else a + 2 ^ 64 - b

@[simp] theorem sizeSub_of_le {a b : Nat} (h : b ≤ a) : sizeSub a b = a - b := by
  simp [sizeSub, h]

/-- The `what()` text of a failed `substr`, up to the numbers it quotes. -/
def substrWhat : Bytes := ascii "basic_string::substr"

/-- `std::string::substr(pos, count)`: it raises past the end and clamps the count. -/
def substr (s : Bytes) (pos count : Nat) : Except StdException Bytes :=
  if pos ≤ s.length then .ok ((s.drop pos).take count) else .error (.outOfRange substrWhat)

/-- A substring starting inside the string is never an exception. -/
theorem substr_of_le {s : Bytes} {pos : Nat} (count : Nat) (h : pos ≤ s.length) :
    substr s pos count = .ok ((s.drop pos).take count) := by
  simp [substr, h]

/-- The substring between a known prefix and a known suffix. -/
theorem substr_append (a m b : Bytes) {pos count : Nat} (hp : pos = a.length)
    (hc : count = m.length) : substr (a ++ (m ++ b)) pos count = .ok m := by
  subst hp hc
  rw [substr_of_le _ (by simp)]
  simp

/-! ## Lines -/

/-- Lines written one after the other, each with its line feed. -/
def terminated (ls : List Bytes) : Bytes := ls.flatMap (· ++ [lf])

@[simp] theorem terminated_nil : terminated [] = [] := rfl

@[simp] theorem terminated_cons (l : Bytes) (ls : List Bytes) :
    terminated (l :: ls) = l ++ lf :: terminated ls := by
  simp [terminated]

/-- A buffer is its first line, or has one and goes on. -/
theorem line_cases (s : Bytes) : lf ∉ s ∨ ∃ l s', s = l ++ lf :: s' ∧ lf ∉ l := by
  by_cases h : lf ∈ s
  · obtain ⟨l, s', hs, hl⟩ := exists_append_of_mem h
    exact .inr ⟨l, s', hs, hl⟩
  · exact .inl h

/-! ## Input streams over a buffer -/

/-- An `std::istream` reading a stream buffer: the unread bytes and its state bits. -/
structure IStream where
  /-- The readable part of the buffer. -/
  buf : Bytes
  /-- `eofbit`. -/
  eof : Bool
  /-- `failbit`. -/
  fail : Bool
  deriving DecidableEq, Repr

/-- A stream freshly constructed over a buffer. -/
def IStream.over (buf : Bytes) : IStream := ⟨buf, false, false⟩

/-- `std::getline(stream, line)`. A stream that is no longer good leaves `line` as it was;
otherwise the bytes up to the line feed are taken, or all of them at the end of the buffer. -/
def IStream.getline (is : IStream) (line : Bytes) : Bytes × IStream :=
  if is.eof || is.fail then (line, { is with fail := true })
  else
    match cut lf is.buf with
    | some (l, rest) => (l, { is with buf := rest })
    | none => (is.buf, ⟨[], true, is.buf.isEmpty⟩)

/-- Append bytes to the buffer behind a stream. -/
def IStream.append (is : IStream) (b : Bytes) : IStream := { is with buf := is.buf ++ b }

/-- `stream.read(p, n)`: the bytes it stores. -/
def IStream.read (is : IStream) (n : Nat) : Bytes × IStream :=
  if is.eof || is.fail then ([], { is with fail := true })
  else if n ≤ is.buf.length then (is.buf.take n, { is with buf := is.buf.drop n })
  else (is.buf, ⟨[], true, true⟩)

/-- `stream.get()`, for its effect on the stream. -/
def IStream.get (is : IStream) : IStream :=
  if is.eof || is.fail then { is with fail := true }
  else match is.buf with
    | [] => ⟨[], true, true⟩
    | _ :: rest => { is with buf := rest }

/-- `std::string::resize(n)`. -/
def resize (s : Bytes) (n : Nat) : Bytes := s.take n ++ List.replicate (n - s.length) 0

/-- Reading one terminated line from a good stream. -/
theorem IStream.getline_line (old : Bytes) {l : Bytes} (rest : Bytes) (h : lf ∉ l) :
    (IStream.over (l ++ lf :: rest)).getline old = (l, IStream.over rest) := by
  simp [getline, IStream.over, cut_append rest h]

end AsioCoroFrame
