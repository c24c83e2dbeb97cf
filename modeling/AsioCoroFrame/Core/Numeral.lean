import AsioCoroFrame.Core.Text
import Mathlib.Data.List.TakeWhile
import Mathlib.Tactic.IntervalCases

/-!
# Numbers as text

`std::to_string` writes the shortest decimal numeral; `std::stoull` and
`std::stof` skip blanks, take a sign and the longest numeral they can, ignore
what follows, and raise when there is no numeral or its value does not fit.
Only the accepted value is kept, as an exact fraction for `stof`: rounding to
the machine format is left to the comparison that uses it.
-/

namespace AsioCoroFrame

/-! ## Writing -/

/-- `std::to_string` of an unsigned number. -/
def decimal (n : Nat) : Bytes := (Nat.toDigits 10 n).map fun c => UInt8.ofNat c.toNat

/-- The numeral of a signed number, as Redis prints an integer. -/
def intText : Int → Bytes
  | .ofNat n => decimal n
  | .negSucc n => 45 :: decimal (n + 1)

/-! ## Reading digits -/

/-- The value of one digit, a letter counting from ten. -/
def digitVal (b : Byte) : Option Nat :=
  if 48 ≤ b.toNat ∧ b.toNat ≤ 57 then some (b.toNat - 48)
  else if 97 ≤ b.toNat ∧ b.toNat ≤ 122 then some (b.toNat - 87)
  else if 65 ≤ b.toNat ∧ b.toNat ≤ 90 then some (b.toNat - 55)
  else none

/-- Whether a byte is a digit of the given base. -/
def isDigit (base : Nat) (b : Byte) : Bool :=
  match digitVal b with
  | some d => d < base
  | none => false

/-- The value of a digit string in the given base. -/
def digitsValue (base : Nat) (ds : Bytes) : Nat :=
  ds.foldl (fun v b => base * v + (digitVal b).getD 0) 0

/-- `isspace` in the C locale. -/
def isSpace (b : Byte) : Bool := b = 32 || (9 ≤ b.toNat && b.toNat ≤ 13)

/-- Take an optional sign off the front; the flag tells a minus sign. -/
def scanSign : Bytes → Bool × Bytes
  | b :: s => if b = 45 then (true, s) else if b = 43 then (false, s) else (false, b :: s)
  | [] => (false, [])

/-- Take `0x` off a hexadecimal numeral, when a digit follows it. -/
def dropHexMark : Bytes → Bytes
  | 48 :: x :: d :: s =>
    if (x = 120 ∨ x = 88) ∧ isDigit 16 d then d :: s else 48 :: x :: d :: s
  | s => s

/-- `std::stoull(s, 0, base)`: a minus sign negates in 64-bit arithmetic. -/
def stoull (s : Bytes) (base : Nat) : Except StdException Nat :=
  let (neg, body) := scanSign (s.dropWhile isSpace)
  let ds := (if base = 16 then dropHexMark body else body).takeWhile (isDigit base)
  if ds = [] then .error (.invalidArgument (ascii "stoull"))
  else if 2 ^ 64 ≤ digitsValue base ds then .error (.outOfRange (ascii "stoull"))
  else .ok (if neg then (2 ^ 64 - digitsValue base ds) % 2 ^ 64 else digitsValue base ds)

/-- `std::stoi(s)`: a decimal numeral within the range of `int`. -/
def stoi (s : Bytes) : Except StdException Int :=
  let (neg, body) := scanSign (s.dropWhile isSpace)
  let ds := body.takeWhile (isDigit 10)
  let v : Int := if neg then -(digitsValue 10 ds : Int) else digitsValue 10 ds
  if ds = [] then .error (.invalidArgument (ascii "stoi"))
  else if v < -2 ^ 31 ∨ 2 ^ 31 ≤ v then .error (.outOfRange (ascii "stoi"))
  else .ok v

/-! ## Reading floating-point text -/

/-- What `strtof` understands: a fraction before rounding, or a special value. -/
inductive FloatValue where
  /-- The magnitude `num / den`, with its sign. -/
  | finite (neg : Bool) (num den : Nat)
  /-- `inf` or `infinity`. -/
  | infinite (neg : Bool)
  /-- `nan`. -/
  | nan
  deriving DecidableEq, Repr

/-- ASCII lower case, for the case-insensitive special values. -/
def lower (b : Byte) : Byte := if 65 ≤ b.toNat ∧ b.toNat ≤ 90 then b + 32 else b

/-- The exponent part after a mantissa: nothing unless a digit follows the mark. -/
def scanExponent (mark : Byte) : Bytes → Int
  | m :: s =>
    if lower m = mark then
      let (neg, body) := scanSign s
      let e : Int := digitsValue 10 (body.takeWhile (isDigit 10))
      if neg then -e else e
    else 0
  | [] => 0

/-- The fraction denoted by a mantissa scaled by a power of `radix`. -/
def scaled (neg : Bool) (mantissa radix : Nat) (e : Int) : FloatValue :=
  if 0 ≤ e then .finite neg (mantissa * radix ^ e.toNat) 1
  else .finite neg mantissa (radix ^ (-e).toNat)

/-- A mantissa with at least one digit, an optional point and an optional exponent. -/
def scanMantissa (neg : Bool) (base radix width : Nat) (mark : Byte) (s : Bytes) :
    Option FloatValue :=
  let whole := s.takeWhile (isDigit base)
  let (fraction, tail) := match s.dropWhile (isDigit base) with
    | 46 :: t => (t.takeWhile (isDigit base), t.dropWhile (isDigit base))
    | t => ([], t)
  if whole ++ fraction = [] then none
  else some (scaled neg (digitsValue base (whole ++ fraction)) radix
    (scanExponent mark tail - (width * fraction.length : Nat)))

/-- The longest floating-point numeral at the front of a text. -/
def scanFloat (s : Bytes) : Option FloatValue :=
  let (neg, body) := scanSign (s.dropWhile isSpace)
  if (ascii "inf").isPrefixOf (body.map lower) then some (.infinite neg)
  else if (ascii "nan").isPrefixOf (body.map lower) then some .nan
  else if (ascii "0x").isPrefixOf (body.map lower) then
    match scanMantissa neg 16 2 4 112 (body.drop 2) with
    | some v => some v
    | none => scanMantissa neg 10 10 1 101 body
  else scanMantissa neg 10 10 1 101 body

/-- Whether rounding to binary32 overflows, or underflows with a loss (as glibc reports). -/
def FloatValue.outOfRange : FloatValue → Bool
  | .finite _ num den =>
    (2 ^ 128 - 2 ^ 103) * den ≤ num ||
      (0 < num && num * 2 ^ 151 < (2 ^ 25 - 1) * den && ¬ den ∣ num * 2 ^ 149)
  | _ => false

/-- `std::stof(s)`. -/
def stof (s : Bytes) : Except StdException FloatValue :=
  match scanFloat s with
  | none => .error (.invalidArgument (ascii "stof"))
  | some v => if v.outOfRange then .error (.outOfRange (ascii "stof")) else .ok v

/-! ## Round trips -/

/-- The byte of a digit character reads back as that digit. -/
theorem digitVal_digitChar {d : Nat} (h : d < 10) :
    digitVal (UInt8.ofNat d.digitChar.toNat) = some d := by
  interval_cases d <;> decide

theorem decimal_of_lt {n : Nat} (h : n < 10) : decimal n = [UInt8.ofNat n.digitChar.toNat] := by
  simp [decimal, Nat.toDigits_of_lt_base h]

/-- A longer numeral is the numeral of the quotient followed by the last digit. -/
theorem decimal_of_le {n : Nat} (h : 10 ≤ n) :
    decimal n = decimal (n / 10) ++ [UInt8.ofNat (n % 10).digitChar.toNat] := by
  simp [decimal, Nat.toDigits_of_base_le (by decide) h]

/-- Reading a numeral gives back the number it was written from. -/
theorem digitsValue_decimal (n : Nat) : digitsValue 10 (decimal n) = n := by
  induction n using Nat.strongRecOn with
  | ind n ih =>
    rcases Nat.lt_or_ge n 10 with h | h
    · simp [decimal_of_lt h, digitsValue, digitVal_digitChar h]
    · have hinit := ih (n / 10) (by omega)
      have hlast := digitVal_digitChar (Nat.mod_lt n (show 0 < 10 by decide))
      simp only [digitsValue] at hinit
      simp only [decimal_of_le h, digitsValue, List.foldl_append, hinit, List.foldl_cons,
        List.foldl_nil, hlast, Option.getD_some]
      omega

/-- A numeral is made of decimal digits only. -/
theorem isDigit_of_mem_decimal {n : Nat} {b : Byte} (h : b ∈ decimal n) :
    isDigit 10 b = true := by
  induction n using Nat.strongRecOn with
  | ind n ih =>
    rcases Nat.lt_or_ge n 10 with hn | hn
    · rw [decimal_of_lt hn, List.mem_singleton] at h
      simp [h, isDigit, digitVal_digitChar hn, hn]
    · rw [decimal_of_le hn, List.mem_append, List.mem_singleton] at h
      rcases h with h | rfl
      · exact ih (n / 10) (by omega) h
      · have hlast : n % 10 < 10 := Nat.mod_lt _ (by decide)
        simp [isDigit, digitVal_digitChar hlast, hlast]

/-- A byte that is no digit does not occur in a numeral. -/
theorem not_mem_decimal {b : Byte} (n : Nat) (h : isDigit 10 b = false) : b ∉ decimal n := by
  intro hm
  rw [isDigit_of_mem_decimal hm] at h
  cases h

theorem decimal_ne_nil (n : Nat) : decimal n ≠ [] := by
  simp [decimal, Nat.toDigits_ne_nil]

theorem decimal_injective : Function.Injective decimal := by
  intro m n h
  rw [← digitsValue_decimal m, h, digitsValue_decimal]

/-- Different integers have different numerals, whatever their signs. -/
theorem intText_injective : Function.Injective intText := by
  have hsign (a b : Nat) : decimal a ≠ 45 :: decimal b := by
    intro h
    exact not_mem_decimal a (b := 45) (by decide) (by simp [h])
  intro a b h
  cases a with
  | ofNat a =>
    cases b with
    | ofNat b => rw [decimal_injective h]
    | negSucc b => exact absurd h (hsign a (b + 1))
  | negSucc a =>
    cases b with
    | ofNat b => exact absurd h.symm (hsign b (a + 1))
    | negSucc b =>
      have hab : a + 1 = b + 1 := decimal_injective (List.cons.inj h).2
      rw [Nat.succ.inj hab]

/-- A decimal digit lies in the ASCII range of the digits. -/
theorem isDigit_ten_bounds {b : Byte} (h : isDigit 10 b = true) :
    48 ≤ b.toNat ∧ b.toNat ≤ 57 := by
  by_contra hb
  simp only [isDigit, digitVal, hb, ite_false] at h
  split_ifs at h <;> simp at h <;> omega

theorem not_space_of_isDigit {b : Byte} (h : isDigit 10 b = true) : isSpace b = false := by
  have hb := isDigit_ten_bounds h
  have hne : b ≠ 32 := by
    rintro rfl
    exact absurd hb (by decide)
  simp only [isSpace, hne, decide_false, Bool.false_or, Bool.and_eq_false_iff,
    decide_eq_false_iff_not]
  omega

theorem scanSign_of_isDigit {b : Byte} (s : Bytes) (h : isDigit 10 b = true) :
    scanSign (b :: s) = (false, b :: s) := by
  have hminus : b ≠ 45 := by
    rintro rfl
    exact absurd h (by decide)
  have hplus : b ≠ 43 := by
    rintro rfl
    exact absurd h (by decide)
  simp [scanSign, hminus, hplus]

/-- `stoull` accepts the numeral of every 64-bit number, with its value. -/
theorem stoull_decimal {n : Nat} (h : n < 2 ^ 64) : stoull (decimal n) 10 = .ok n := by
  obtain ⟨d, ds, hd⟩ := List.exists_cons_of_ne_nil (decimal_ne_nil n)
  have hfirst : isDigit 10 d = true := isDigit_of_mem_decimal (n := n) (by simp [hd])
  have hblank : (decimal n).dropWhile isSpace = decimal n := by
    have hs : isSpace d = false := not_space_of_isDigit hfirst
    simp [hd, hs]
  have hsign : scanSign (decimal n) = (false, decimal n) := by
    rw [hd]
    exact scanSign_of_isDigit ds hfirst
  have hall : (decimal n).takeWhile (isDigit 10) = decimal n :=
    List.takeWhile_eq_self_iff.mpr fun _ hb => isDigit_of_mem_decimal hb
  simp only [stoull, hblank, hsign, show ¬ (10 : Nat) = 16 by decide, ite_false, hall,
    decimal_ne_nil, digitsValue_decimal, Nat.not_le.mpr h, Bool.false_eq_true]

/-- A hexadecimal digit is a decimal one or one of six letters. -/
theorem isDigit_sixteen_bounds {b : Byte} (h : isDigit 16 b = true) :
    (48 ≤ b.toNat ∧ b.toNat ≤ 57) ∨ (97 ≤ b.toNat ∧ b.toNat ≤ 102) ∨
      (65 ≤ b.toNat ∧ b.toNat ≤ 70) := by
  unfold isDigit digitVal at h
  split_ifs at h with hdec hlow hup
  · exact .inl hdec
  · simp only [decide_eq_true_eq] at h
    omega
  · simp only [decide_eq_true_eq] at h
    omega

/-- A byte outside of these ranges is no hexadecimal digit. -/
theorem ne_of_isDigit_sixteen {b c : Byte} (h : isDigit 16 b = true)
    (hc : isDigit 16 c = false) : b ≠ c := by
  rintro rfl
  rw [h] at hc
  cases hc

/-- `stoull` reads a hexadecimal numeral without a mark to its end. -/
theorem stoull_hex {ds : Bytes} (hne : ds ≠ []) (hds : ∀ b ∈ ds, isDigit 16 b = true)
    (hlt : digitsValue 16 ds < 2 ^ 64) : stoull ds 16 = .ok (digitsValue 16 ds) := by
  have hall : ds.takeWhile (isDigit 16) = ds := List.takeWhile_eq_self_iff.mpr hds
  have hmark : dropHexMark ds = ds := by
    unfold dropHexMark
    split
    · rename_i x d s
      have hx : isDigit 16 x = true := hds x (by simp)
      have hlow : x ≠ 120 := ne_of_isDigit_sixteen hx (by decide)
      have hup : x ≠ 88 := ne_of_isDigit_sixteen hx (by decide)
      simp [hlow, hup]
    · rfl
  obtain ⟨d, s, rfl⟩ := List.exists_cons_of_ne_nil hne
  have hd : isDigit 16 d = true := hds d List.mem_cons_self
  have hblank : (d :: s).dropWhile isSpace = d :: s := by
    have hsp : isSpace d = false := by
      have hbounds := isDigit_sixteen_bounds hd
      have hne32 : d ≠ 32 := ne_of_isDigit_sixteen hd (by decide)
      simp only [isSpace, hne32, decide_false, Bool.false_or, Bool.and_eq_false_iff,
        decide_eq_false_iff_not]
      omega
    simp [hsp]
  have hsign : scanSign (d :: s) = (false, d :: s) := by
    have hminus : d ≠ 45 := ne_of_isDigit_sixteen hd (by decide)
    have hplus : d ≠ 43 := ne_of_isDigit_sixteen hd (by decide)
    simp [scanSign, hminus, hplus]
  simp only [stoull, hblank, hsign, if_true, hmark, hall, hne, if_false, Nat.not_le.mpr hlt,
    Bool.false_eq_true]

end AsioCoroFrame
