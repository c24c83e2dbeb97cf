import AsioCoroFrame.Core.Termination

/-!
# Replacing all occurrences

`replace_all` searches the whole string again after each replacement and so
runs the rewriting step to its end, where there is one. `replace_all_distinct`
goes on behind what it has inserted: the part of the string before the position
is done, and the pieces of the rest are those of the string it was given.
-/

namespace AsioCoroFrame.Strings

/-! ## The two loops -/

/-- `str.find(s, pos)`; `none` stands for `npos`. -/
def find (str s : Bytes) (pos : Nat) : Option Nat :=
  if pos ≤ str.length then (findSub s (str.drop pos)).map (pos + ·) else none

/-- `str.replace(pos, n, s)` at a position inside the string. -/
def replace (str : Bytes) (pos n : Nat) (s : Bytes) : Bytes :=
  str.take pos ++ s ++ str.drop (pos + n)

/-- The loop of `replace_all`; running out of fuel means that it has not ended yet. -/
def replaceAll (fuel : Nat) (str oldValue newValue : Bytes) : Option Bytes :=
  match fuel with
  | 0 => none
  | fuel + 1 =>
    match find str oldValue 0 with
    | some pos => replaceAll fuel (replace str pos oldValue.length newValue) oldValue newValue
    | none => some str

/-- The loop of `replace_all_distinct` from a position on. A position stays inside the string and
is never `npos`. -/
def replaceDistinctFrom (fuel : Nat) (str oldValue newValue : Bytes) (pos : Nat) : Option Bytes :=
  match fuel with
  | 0 => none
  | fuel + 1 =>
    match find str oldValue pos with
    | some pos =>
      replaceDistinctFrom fuel (replace str pos oldValue.length newValue) oldValue newValue
        (pos + newValue.length)
    | none => some str

/-- `replace_all_distinct`. -/
def replaceAllDistinct (fuel : Nat) (str oldValue newValue : Bytes) : Option Bytes :=
  replaceDistinctFrom fuel str oldValue newValue 0

variable {str oldValue newValue : Bytes} {pos fuel : Nat}

/-- A search behind what is done looks at the rest only. -/
theorem find_append (done rest s : Bytes) :
    find (done ++ rest) s done.length = (findSub s rest).map (done.length + ·) := by
  rw [find, if_pos (by simp), List.drop_left]

theorem find_zero (str s : Bytes) : find str s 0 = findSub s str := by
  simpa using find_append [] str s

theorem replace_append (a b c s : Bytes) :
    replace (a ++ (b ++ c)) a.length b.length s = a ++ (s ++ c) := by
  rw [replace, List.take_left, ← List.drop_drop, List.drop_left, List.drop_left, List.append_assoc]

/-! ## Behind what has been inserted -/

/-- The empty string is found everywhere. -/
theorem find_nil (h : pos ≤ str.length) : find str [] pos = some pos := by
  rw [find, if_pos h, findSub_of_prefix List.nil_prefix]
  rfl

/-- An empty old value keeps the loop going, and the position in the string. -/
theorem replaceDistinctFrom_nil (h : pos ≤ str.length) :
    replaceDistinctFrom fuel str [] newValue pos = none := by
  induction fuel generalizing str pos with
  | zero => rfl
  | succ fuel ih =>
    simp only [replaceDistinctFrom, find_nil h]
    refine ih ?_
    simp only [replace, List.length_append, List.length_take, List.length_nil, Nat.add_zero,
      List.length_drop]
    omega

/-- What is done stays, and the pieces of the rest are joined by the new value. -/
theorem replaceDistinctFrom_pieces {rest : Bytes} {ps : List Bytes} (h : Pieces oldValue rest ps)
    (done : Bytes) (hfuel : ps.length ≤ fuel) :
    replaceDistinctFrom fuel (done ++ rest) oldValue newValue done.length =
      some (done ++ newValue.intercalate ps) := by
  induction h generalizing done fuel with
  | @last rest hno =>
    obtain ⟨fuel, rfl⟩ := Nat.exists_eq_succ_of_ne_zero (Nat.ne_zero_of_lt hfuel)
    rw [replaceDistinctFrom, find_append, findSub_eq_none.mpr hno, Option.map_none,
      List.intercalate_singleton]
  | @cons x y ps hclear hps ih =>
    obtain ⟨fuel, rfl⟩ := Nat.exists_eq_succ_of_ne_zero (Nat.ne_zero_of_lt hfuel)
    have hreplace := replace_append (done ++ x) oldValue y newValue
    rw [List.length_append, List.append_assoc] at hreplace
    have hnext := ih (done ++ (x ++ newValue)) (Nat.le_of_succ_le_succ hfuel)
    rw [replaceDistinctFrom, find_append, findSub_clear hclear, Option.map_some]
    simp only [hreplace]
    simpa [List.intercalate_cons_of_ne_nil hps.ne_nil, Nat.add_assoc] using hnext

/-- The loop ends exactly when the old value is not empty, and then with the pieces of the string
between the occurrences of the old value joined by the new one. -/
theorem replaceAllDistinct_pieces (str oldValue newValue : Bytes) :
    ((∃ fuel result, replaceAllDistinct fuel str oldValue newValue = some result) ↔
      oldValue ≠ []) ∧
    (oldValue ≠ [] → ∃ ps, Pieces oldValue str ps ∧ (∀ ps', Pieces oldValue str ps' → ps' = ps) ∧
      oldValue.intercalate ps = str ∧
      ∀ fuel, str.length < fuel →
        replaceAllDistinct fuel str oldValue newValue = some (newValue.intercalate ps)) := by
  have hpieces : oldValue ≠ [] → ∃ ps, Pieces oldValue str ps ∧ ∀ fuel, str.length < fuel →
      replaceAllDistinct fuel str oldValue newValue = some (newValue.intercalate ps) := by
    intro hold
    obtain ⟨ps, hps⟩ := exists_pieces hold str
    exact ⟨ps, hps, fun fuel hfuel =>
      replaceDistinctFrom_pieces hps [] ((hps.length_le hold).trans hfuel)⟩
  refine ⟨⟨?_, fun hold => ?_⟩, fun hold => ?_⟩
  · rintro ⟨fuel, result, hresult⟩ rfl
    rw [replaceAllDistinct, replaceDistinctFrom_nil (Nat.zero_le _)] at hresult
    cases hresult
  · obtain ⟨ps, _, hloop⟩ := hpieces hold
    exact ⟨_, _, hloop _ (Nat.lt_succ_self _)⟩
  · obtain ⟨ps, hps, hloop⟩ := hpieces hold
    exact ⟨ps, hps, fun _ h => h.unique hps, hps.intercalate, hloop⟩

/-- Neither what is inserted nor what it makes with its neighbours is replaced again. -/
example : replaceAllDistinct 5 (ascii "aabab") (ascii "ab") (ascii "bab") =
    some (ascii "ababbab") := by decide

/-! ## From the start again -/

/-- `replace_all` repeats the replacement of the leftmost occurrence. -/
theorem replaceAll_eq_settle (fuel : Nat) (str oldValue newValue : Bytes) :
    replaceAll fuel str oldValue newValue = settle (rewriteLeft oldValue newValue) fuel str := by
  induction fuel generalizing str with
  | zero => rfl
  | succ fuel ih =>
    rw [replaceAll, settle, find_zero, rewriteLeft]
    cases findSub oldValue str with
    | none => rfl
    | some pos => exact ih _

/-- A result holds no occurrence of the old value. There is one on every string for values that are
tame, and values are tame when the new one is not longer than the old one. For old values of two
bytes at most there is one on every string for no others. -/
theorem replaceAll_settles (oldValue newValue : Bytes) (hnew : ¬ oldValue <:+: newValue) :
    (∀ str fuel result, replaceAll fuel str oldValue newValue = some result →
      ¬ oldValue <:+: result) ∧
    (Tame oldValue newValue → ∀ str, ∃ n result, ¬ oldValue <:+: result ∧
      ∀ fuel, n < fuel → replaceAll fuel str oldValue newValue = some result) ∧
    (newValue.length ≤ oldValue.length → Tame oldValue newValue) ∧
    (oldValue.length ≤ 2 → ¬ Tame oldValue newValue →
      ∃ str, ∀ fuel, replaceAll fuel str oldValue newValue = none) := by
  simp only [replaceAll_eq_settle]
  refine ⟨fun str fuel result h => rewriteLeft_eq_none.mp (settle_final h), fun htame str => ?_,
    tame_of_length_le fun heq => hnew (heq ▸ List.infix_rfl), fun hlen htame => ?_⟩
  · obtain ⟨n, result, hresult, hloop⟩ := settles_iff.mp (htame.settles hnew str)
    exact ⟨n, result, rewriteLeft_eq_none.mp hresult, hloop⟩
  · obtain ⟨a, b, w, hab, rfl, rfl⟩ := (tame_or_crossing hlen hnew).resolve_left htame
    exact ⟨[a, b, b], settle_crossing_eq_none hab w (.of_twice a b)⟩

/-- A longer value that overlaps with the old one on both sides. -/
theorem replaceAll_settles_bba : ¬ ascii "ab" <:+: ascii "bba" ∧
    ∃ n result, ¬ ascii "ab" <:+: result ∧ ∀ fuel, n < fuel →
      replaceAll fuel (ascii "aab") (ascii "ab") (ascii "bba") = some result := by
  have hnew : ¬ ascii "ab" <:+: ascii "bba" := by decide
  refine ⟨hnew, (replaceAll_settles _ _ hnew).2.1 (.lastShorter 97 ?_) (ascii "aab")⟩
  exact ⟨[2], [0], 0, 1, [], by decide, by decide, rfl, by decide⟩

/-- Two words that work together: with `bbaa` for `ab`, the loop never ends on `abb`. -/
theorem not_forall_replaceAll_settles :
    ¬ ∀ str oldValue newValue : Bytes, oldValue ≠ [] → ¬ oldValue <:+: newValue →
      ∃ fuel result, replaceAll fuel str oldValue newValue = some result ∧
        ¬ oldValue <:+: result := by
  intro h
  obtain ⟨fuel, result, hresult, _⟩ :=
    h (ascii "abb") (ascii "ab") (ascii "bbaa") (by decide) (by decide)
  have hstr : ascii "abb" = [97, 98, 98] := by decide
  have hold : ascii "ab" = [97, 98] := by decide
  have hnew : ascii "bbaa" = [98, 98] ++ [] ++ [97, 97] := by decide
  have hnone := settle_crossing_eq_none (by decide) [] (.of_twice (97 : Byte) 98) fuel
  rw [replaceAll_eq_settle, hstr, hold, hnew] at hresult
  exact Option.some_ne_none result (hresult.symm.trans hnone)

end AsioCoroFrame.Strings
