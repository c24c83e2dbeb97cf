import AsioCoroFrame.Models.Pdf.Convert

/-!
# The content of a request

`get_request_content` knows the length of the body and builds the text from the
pointer alone, so the text ends at the first zero byte, in the body or behind
it. It is the body exactly when the body has no zero byte and the byte behind
the buffer happens to be one.
-/

namespace AsioCoroFrame.Pdf

open Cluster (cString cString_append cString_eq_self)

/-- A request whose `CONTENT_LENGTH` is the length of its body. -/
def Request.announcing (body : Bytes) : Request := ⟨some (decimal body.length), body⟩

/-- A length is accepted when it is an `int`. -/
theorem lexicalCast_decimal (n : Nat) :
    lexicalCast (decimal n) = if n < 2 ^ 31 then some (n : Int) else none := by
  obtain ⟨d, ds, hd⟩ := List.exists_cons_of_ne_nil (decimal_ne_nil n)
  have hfirst : isDigit 10 d = true := isDigit_of_mem_decimal (n := n) (by simp [hd])
  have hsign : scanSign (decimal n) = (false, decimal n) := by
    rw [hd]
    exact scanSign_of_isDigit ds hfirst
  have hall : (decimal n).all (isDigit 10) = true :=
    List.all_eq_true.mpr fun _ hb => isDigit_of_mem_decimal hb
  have hrange : ((n : Int) < -2 ^ 31 ∨ 2 ^ 31 ≤ (n : Int)) ↔ ¬ n < 2 ^ 31 := by omega
  simp only [lexicalCast, hsign, decimal_ne_nil, hall, not_true_eq_false, false_or,
    digitsValue_decimal, Bool.false_eq_true, if_false, hrange, ite_not]

/-- The body is read into the buffer, and the text runs on behind it. -/
theorem getRequestContent_announcing (body memory : Bytes) :
    getRequestContent (.announcing body) memory =
      if body.length < 2 ^ 31 then some (cString (body ++ memory.drop body.length)) else none := by
  have hne : decimal body.length ≠ [] := decimal_ne_nil _
  have hnonneg : ¬ (body.length : Int) < 0 := by omega
  simp only [getRequestContent, Request.announcing, hne, if_false, lexicalCast_decimal]
  by_cases hlen : body.length < 2 ^ 31
  · simp only [hlen, if_true, hnonneg, if_false, Int.toNat_natCast, List.take_length]
  · simp only [hlen, if_false]

/-- A text is cut at its first zero byte, so what follows one there does not matter. -/
theorem cString_append_of_mem {s : Bytes} (h : (0 : Byte) ∈ s) (t : Bytes) :
    cString (s ++ t) = cString s := by
  obtain ⟨a, b, rfl, ha⟩ := List.eq_append_cons_of_mem h
  rw [List.append_assoc, cString_append _ ha, cString_append _ ha]
  rfl

/-- Nothing is read of a memory that starts with a zero byte, and only of such a memory. -/
theorem cString_drop_eq_nil {memory : Bytes} {n : Nat} :
    cString (memory.drop n) = [] ↔ ∀ b, memory[n]? = some b → b = 0 := by
  rw [cString, List.takeWhile_eq_nil_iff, ← List.head?_drop]
  cases memory.drop n with
  | nil => simp
  | cons b s => simp

/-- The content is the body exactly when the length of the body is an `int`, no byte of it is zero
and the byte behind the buffer is. Two runs on a request get different contents exactly when the
first two of these hold and the bytes behind their buffers differ before a zero byte. -/
theorem getRequestContent_exact_iff (body memory : Bytes) :
    (getRequestContent (.announcing body) memory = some body ↔
      body.length < 2 ^ 31 ∧ (0 : Byte) ∉ body ∧ ∀ b, memory[body.length]? = some b → b = 0) ∧
    ∀ memory', getRequestContent (.announcing body) memory ≠
        getRequestContent (.announcing body) memory' ↔
      body.length < 2 ^ 31 ∧ (0 : Byte) ∉ body ∧
        cString (memory.drop body.length) ≠ cString (memory'.drop body.length) := by
  simp only [getRequestContent_announcing, ← cString_drop_eq_nil]
  by_cases hlen : body.length < 2 ^ 31
  · simp only [hlen, if_true, Option.some.injEq, true_and]
    by_cases hzero : (0 : Byte) ∈ body
    · have hcut : cString body ≠ body := fun h => cString_eq_self.mp h hzero
      simp [cString_append_of_mem hzero, hzero, hcut]
    · simp [cString_append _ hzero, hzero]
  · simp only [hlen, if_false, reduceCtorEq, ne_eq, not_true_eq_false, false_and, implies_true,
      and_self]

/-- The same request gets another content when another byte lies behind the buffer. -/
theorem content_of_garbage :
    getRequestContent (.announcing (ascii "[]")) [0, 0, 0] = some (ascii "[]") ∧
      getRequestContent (.announcing (ascii "[]")) [0, 0, 120, 0] = some (ascii "[]x") ∧
      ¬ ∀ body memory, getRequestContent (.announcing body) memory = some body := by
  have hgarbage : getRequestContent (.announcing (ascii "[]")) [0, 0, 120, 0] =
      some (ascii "[]x") := by decide
  refine ⟨by decide, hgarbage, fun h => ?_⟩
  exact absurd (hgarbage.symm.trans (h _ _)) (by decide)

end AsioCoroFrame.Pdf
