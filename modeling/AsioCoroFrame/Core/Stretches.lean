import AsioCoroFrame.Core.Rewriting
import Mathlib.Data.List.Count
import Mathlib.Data.Nat.Digits.Defs
import Mathlib.Order.Monotone.Basic

/-!
# Measures that a replacement decreases

How often an element occurs in a list, or the lengths of the stretches between
its occurrences, read from one end as the digits of a number.
-/

namespace AsioCoroFrame

variable {α : Type*} [DecidableEq α] {u v : List α}

/-! ## Measures -/

/-- A measure that replacing the word decreases wherever it occurs. -/
theorem settles_of_measure (f : List α → Nat) (h : ∀ x y, f (x ++ (v ++ y)) < f (x ++ (u ++ y)))
    (s : List α) : Settles (rewriteLeft u v) s := by
  refine .of_measure f (fun s t hs => ?_) s
  obtain ⟨x, y, rfl, rfl, _⟩ := rewriteLeft_eq_some.mp hs
  exact h x y

/-- An element that the new word has less often. -/
theorem settles_of_fewer {c : α} (h : v.count c < u.count c) (s : List α) :
    Settles (rewriteLeft u v) s := by
  refine settles_of_measure (·.count c) (fun x y => ?_) s
  simp only [List.count_append]
  omega

omit [DecidableEq α] in
theorem foldr_strictMono {g : α → Nat → Nat} (hg : ∀ a, StrictMono (g a)) (x : List α) :
    StrictMono fun n => x.foldr g n := by
  induction x with
  | nil => exact strictMono_id
  | cons a x ih => exact (hg a).comp ih

omit [DecidableEq α] in
theorem foldl_strictMono {g : α → Nat → Nat} (hg : ∀ a, StrictMono (g a)) (x : List α) :
    StrictMono fun n => x.foldl (fun n a => g a n) n := by
  induction x with
  | nil => exact strictMono_id
  | cons a x ih => exact ih.comp (hg a)

/-- Increasing functions, one for each element, whose composite over the new word is smaller. -/
theorem settles_of_foldr {g : α → Nat → Nat} (hg : ∀ a, StrictMono (g a))
    (h : ∀ n, v.foldr g n < u.foldr g n) (s : List α) : Settles (rewriteLeft u v) s := by
  refine settles_of_measure (·.foldr g 0) (fun x y => ?_) s
  simp only [List.foldr_append]
  exact foldr_strictMono hg x (h _)

/-- The same with the functions applied from the left. -/
theorem settles_of_foldl {g : α → Nat → Nat} (hg : ∀ a, StrictMono (g a))
    (h : ∀ n, v.foldl (fun n a => g a n) n < u.foldl (fun n a => g a n) n) (s : List α) :
    Settles (rewriteLeft u v) s := by
  refine settles_of_measure (·.foldl (fun n a => g a n) 0) (fun x y => ?_) s
  simp only [List.foldl_append]
  exact foldl_strictMono hg y (h _)

/-! ## Stretches -/

/-- The lengths of the stretches between the occurrences of an element. -/
def stretches (c : α) (s : List α) : List Nat := (s.splitOn c).map List.length

theorem stretches_nil (c : α) : stretches c [] = [0] := by simp [stretches]

theorem stretches_cons_self (c : α) (s : List α) : stretches c (c :: s) = 0 :: stretches c s := by
  simp [stretches, List.splitOn_cons_eq_if_modifyHead]

theorem exists_stretches (c : α) (s : List α) : ∃ k ks, stretches c s = k :: ks := by
  obtain ⟨l, ls, h⟩ := List.exists_cons_of_ne_nil (List.splitOn_ne_nil c s)
  exact ⟨l.length, ls.map List.length, by rw [stretches, h, List.map_cons]⟩

theorem stretches_cons_of_ne {c x : α} {s : List α} {k : Nat} {ks : List Nat} (hx : x ≠ c)
    (h : stretches c s = k :: ks) : stretches c (x :: s) = (k + 1) :: ks := by
  obtain ⟨l, ls, hl⟩ := List.exists_cons_of_ne_nil (List.splitOn_ne_nil c s)
  rw [stretches, hl, List.map_cons] at h
  obtain ⟨rfl, rfl⟩ := List.cons.inj h
  simp [stretches, List.splitOn_cons_eq_if_modifyHead, hx, hl]

/-- A list has one stretch more than occurrences. -/
theorem length_stretches (c : α) (s : List α) : (stretches c s).length = s.count c + 1 := by
  induction s with
  | nil => simp [stretches_nil]
  | cons x s ih =>
    by_cases hx : x = c
    · subst hx
      simp [stretches_cons_self, ih]
    · obtain ⟨k, ks, hks⟩ := exists_stretches c s
      rw [stretches_cons_of_ne hx hks, List.count_cons_of_ne hx, ← ih, hks]
      rfl

theorem le_of_mem_stretches {c : α} {s : List α} {k : Nat} (h : k ∈ stretches c s) :
    k ≤ s.length := by
  induction s generalizing k with
  | nil => simpa [stretches_nil] using h
  | cons x s ih =>
    by_cases hx : x = c
    · subst hx
      rw [stretches_cons_self, List.mem_cons] at h
      rcases h with rfl | h
      · exact Nat.zero_le _
      · exact (ih h).trans (Nat.le_succ _)
    · obtain ⟨m, ms, hms⟩ := exists_stretches c s
      rw [stretches_cons_of_ne hx hms, List.mem_cons] at h
      rw [hms] at ih
      rcases h with rfl | h
      · exact Nat.succ_le_succ (ih List.mem_cons_self)
      · exact (ih (List.mem_cons_of_mem m h)).trans (Nat.le_succ _)

/-- Behind a common beginning, the first stretch of a list becomes the end of one. -/
theorem exists_stretches_append (c : α) (w : List α) : ∃ t m, ∀ s k ks,
    stretches c s = k :: ks → stretches c (w ++ s) = t ++ (m + k) :: ks := by
  induction w with
  | nil => exact ⟨[], 0, fun s k ks h => by simpa using h⟩
  | cons x w ih =>
    obtain ⟨t, m, ih⟩ := ih
    by_cases hx : x = c
    · subst hx
      refine ⟨0 :: t, m, fun s k ks h => ?_⟩
      rw [List.cons_append, stretches_cons_self, ih s k ks h, List.cons_append]
    · cases t with
      | nil =>
        refine ⟨[], m + 1, fun s k ks h => ?_⟩
        rw [List.cons_append, stretches_cons_of_ne hx (ih s k ks h), List.nil_append,
          Nat.add_right_comm]
      | cons n t =>
        refine ⟨(n + 1) :: t, m, fun s k ks h => ?_⟩
        exact stretches_cons_of_ne hx (ih s k ks h)

/-- Lists of one length that agree behind a place where the first one is smaller. -/
def ColexLT (g g' : List Nat) : Prop :=
  ∃ a b m n t, g = a ++ m :: t ∧ g' = b ++ n :: t ∧ a.length = b.length ∧ m < n

theorem ColexLT.length_eq {g g' : List Nat} (h : ColexLT g g') : g.length = g'.length := by
  obtain ⟨a, b, m, n, t, rfl, rfl, hlen, _⟩ := h
  simp only [List.length_append, List.length_cons, hlen]

/-- Read as the digits of a number, the last one of most weight, the first one is smaller. -/
theorem ColexLT.ofDigits_lt {g g' : List Nat} (h : ColexLT g g') {B : Nat} (hB : 1 < B)
    (hg : ∀ k ∈ g, k < B) : Nat.ofDigits B g < Nat.ofDigits B g' := by
  obtain ⟨a, b, m, n, t, rfl, rfl, hlen, hlt⟩ := h
  have ha : Nat.ofDigits B a < B ^ a.length :=
    Nat.ofDigits_lt_base_pow_length hB fun k hk => hg k (List.mem_append_left _ hk)
  rw [Nat.ofDigits_append, Nat.ofDigits_append, Nat.ofDigits_cons, Nat.ofDigits_cons, ← hlen]
  calc Nat.ofDigits B a + B ^ a.length * (m + B * Nat.ofDigits B t)
      < B ^ a.length + B ^ a.length * (m + B * Nat.ofDigits B t) := Nat.add_lt_add_right ha _
    _ = B ^ a.length * (m + 1 + B * Nat.ofDigits B t) := by ring
    _ ≤ B ^ a.length * (n + B * Nat.ofDigits B t) :=
      Nat.mul_le_mul_left _ (Nat.add_le_add_right hlt _)
    _ ≤ Nat.ofDigits B b + B ^ a.length * (n + B * Nat.ofDigits B t) := Nat.le_add_left ..

/-- One element multiplies, all others count. -/
def pass (B : Nat) (c a : α) (n : Nat) : Nat := if a = c then B * n else n + 1

theorem pass_strictMono {B : Nat} (hB : 1 < B) (c a : α) : StrictMono (pass B c a) := by
  intro m n h
  unfold pass
  split
  · exact Nat.mul_lt_mul_of_pos_left h (Nat.zero_lt_of_lt hB)
  · exact Nat.add_lt_add_right h 1

/-- Applied over a list, they compute the number that has the stretches for digits. -/
theorem foldr_pass (B : Nat) (c : α) (s : List α) (n : Nat) :
    s.foldr (pass B c) n = Nat.ofDigits B (stretches c s) + B ^ s.count c * n := by
  induction s with
  | nil => simp [stretches_nil]
  | cons x s ih =>
    rw [List.foldr_cons, ih]
    by_cases hx : x = c
    · subst hx
      rw [pass, if_pos rfl, stretches_cons_self, Nat.ofDigits_cons, List.count_cons_self]
      ring
    · obtain ⟨k, ks, hks⟩ := exists_stretches c s
      rw [pass, if_neg hx, stretches_cons_of_ne hx hks, hks, Nat.ofDigits_cons, Nat.ofDigits_cons,
        List.count_cons_of_ne hx]
      ring

theorem foldl_pass (B : Nat) (c : α) (s : List α) (n : Nat) :
    s.foldl (fun n a => pass B c a n) n =
      Nat.ofDigits B (stretches c s).reverse + B ^ s.count c * n := by
  induction s generalizing n with
  | nil => simp [stretches_nil]
  | cons x s ih =>
    rw [List.foldl_cons, ih]
    by_cases hx : x = c
    · subst hx
      rw [pass, if_pos rfl, stretches_cons_self, List.reverse_cons, Nat.ofDigits_append_zero,
        List.count_cons_self]
      ring
    · obtain ⟨k, ks, hks⟩ := exists_stretches c s
      have hlen := length_stretches c s
      rw [hks, List.length_cons, Nat.add_right_cancel_iff] at hlen
      rw [pass, if_neg hx, stretches_cons_of_ne hx hks, hks, List.reverse_cons, List.reverse_cons,
        Nat.ofDigits_append, Nat.ofDigits_append, Nat.ofDigits_singleton, Nat.ofDigits_singleton,
        List.count_cons_of_ne hx, List.length_reverse, hlen]
      ring

/-- An element that both words have equally often, where the last stretch in which they differ is
shorter in the new word. -/
theorem settles_of_lastShorter {c : α} (h : ColexLT (stretches c v) (stretches c u))
    (s : List α) : Settles (rewriteLeft u v) s := by
  have hlen := h.length_eq
  rw [length_stretches, length_stretches, Nat.add_right_cancel_iff] at hlen
  have hB : 1 < v.length + 2 := by omega
  refine settles_of_foldr (pass_strictMono hB c) (fun n => ?_) s
  rw [foldr_pass, foldr_pass, hlen]
  refine Nat.add_lt_add_right (h.ofDigits_lt hB fun k hk => ?_) _
  have hk := le_of_mem_stretches hk
  omega

/-- The same with the first stretch in which they differ. -/
theorem settles_of_firstShorter {c : α}
    (h : ColexLT (stretches c v).reverse (stretches c u).reverse) (s : List α) :
    Settles (rewriteLeft u v) s := by
  have hlen := h.length_eq
  rw [List.length_reverse, List.length_reverse, length_stretches, length_stretches,
    Nat.add_right_cancel_iff] at hlen
  have hB : 1 < v.length + 2 := by omega
  refine settles_of_foldl (pass_strictMono hB c) (fun n => ?_) s
  rw [foldl_pass, foldl_pass, hlen]
  refine Nat.add_lt_add_right (h.ofDigits_lt hB fun k hk => ?_) _
  have hk := le_of_mem_stretches (List.mem_reverse.mp hk)
  omega

end AsioCoroFrame
