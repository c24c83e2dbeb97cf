import AsioCoroFrame.Core.Text

/-!
# Replacing a word

A loop repeats a partial step; it ends from a state when the steps from there
do. The step that replaces the leftmost occurrence of a word is given by the
decomposition it finds. Cutting a list at the occurrences of a word that do
not overlap, from left to right, leaves pieces that are unique.
-/

namespace AsioCoroFrame

/-! ## Loops -/

section Loop

variable {σ : Type*} {step : σ → Option σ} {s s' : σ}

/-- Repeat a step until there is none; running out of fuel means nothing. -/
def settle (step : σ → Option σ) : Nat → σ → Option σ
  | 0, _ => none
  | fuel + 1, s =>
    match step s with
    | none => some s
    | some s' => settle step fuel s'

/-- The steps from a state come to an end. -/
def Settles (step : σ → Option σ) (s : σ) : Prop := Acc (fun s' s => step s = some s') s

theorem Settles.of_none (h : step s = none) : Settles step s :=
  .intro _ fun _ hs => absurd (h.symm.trans hs) (Option.some_ne_none _).symm

theorem Settles.of_some (h : step s = some s') (hs' : Settles step s') : Settles step s := by
  refine .intro _ fun t ht => ?_
  obtain rfl := Option.some.inj (h.symm.trans ht)
  exact hs'

/-- A measure that every step decreases. -/
theorem Settles.of_measure (f : σ → Nat) (h : ∀ s s', step s = some s' → f s' < f s) (s : σ) :
    Settles step s :=
  Subrelation.accessible (fun hs => h _ _ hs) ((measure f).wf.apply s)

/-- The result has no step left. -/
theorem settle_final {fuel : Nat} (h : settle step fuel s = some s') : step s' = none := by
  induction fuel generalizing s with
  | zero => cases h
  | succ fuel ih =>
    rw [settle] at h
    split at h
    · rename_i hs
      exact Option.some.inj h ▸ hs
    · exact ih h

/-- The steps from a state come to an end exactly when the loop does, with enough fuel. -/
theorem settles_iff :
    Settles step s ↔ ∃ n r, step r = none ∧ ∀ fuel, n < fuel → settle step fuel s = some r := by
  constructor
  · intro h
    induction h with
    | intro s _ ih =>
      cases hs : step s with
      | none =>
        refine ⟨0, s, hs, fun fuel hfuel => ?_⟩
        obtain ⟨fuel, rfl⟩ := Nat.exists_eq_succ_of_ne_zero (Nat.pos_iff_ne_zero.mp hfuel)
        rw [settle, hs]
      | some s' =>
        obtain ⟨n, r, hr, hloop⟩ := ih s' hs
        refine ⟨n + 1, r, hr, fun fuel hfuel => ?_⟩
        obtain ⟨fuel, rfl⟩ := Nat.exists_eq_succ_of_ne_zero (Nat.ne_zero_of_lt hfuel)
        rw [settle, hs]
        exact hloop fuel (Nat.lt_of_succ_lt_succ hfuel)
  · rintro ⟨n, r, _, hloop⟩
    have hfuel := hloop (n + 1) (Nat.lt_succ_self n)
    generalize n + 1 = fuel at hfuel
    clear hloop
    induction fuel generalizing s with
    | zero => cases hfuel
    | succ fuel ih =>
      rw [settle] at hfuel
      split at hfuel
      · rename_i hs
        exact .of_none hs
      · rename_i s' hs
        exact .of_some hs (ih hfuel)

/-- Where every state of a set has a step that stays in it, the loop never ends. -/
theorem settle_eq_none_of_closed {P : σ → Prop} (h : ∀ s, P s → ∃ s', step s = some s' ∧ P s')
    (hs : P s) (fuel : Nat) : settle step fuel s = none := by
  induction fuel generalizing s with
  | zero => rfl
  | succ fuel ih =>
    obtain ⟨s', hstep, hs'⟩ := h s hs
    rw [settle, hstep]
    exact ih hs'

end Loop

/-! ## The leftmost occurrence -/

section Clear

variable {α : Type*} {u x y : List α}

/-- No occurrence of `u` in `x ++ y` starts in `x`. -/
def Clear (u x y : List α) : Prop := ∀ i < x.length, ¬ u <+: (x ++ y).drop i

theorem Clear.nil (u y : List α) : Clear u [] y := fun _ hi => absurd hi (Nat.not_lt_zero _)

theorem Clear.cons {a : α} (h : ¬ u <+: a :: (x ++ y)) (hx : Clear u x y) :
    Clear u (a :: x) y := by
  intro i hi hpre
  cases i with
  | zero => exact h hpre
  | succ i => exact hx i (Nat.lt_of_succ_lt_succ hi) hpre

theorem clear_append {x' : List α} :
    Clear u (x ++ x') y ↔ Clear u x (x' ++ y) ∧ Clear u x' y := by
  constructor
  · intro h
    refine ⟨fun i hi hpre => h i ?_ ?_, fun i hi hpre => h (x.length + i) ?_ ?_⟩
    · exact hi.trans_le (by simp)
    · rwa [List.append_assoc]
    · simpa using hi
    · rwa [← List.drop_drop, List.append_assoc, List.drop_left]
  · rintro ⟨h, h'⟩ i hi hpre
    rw [List.append_assoc] at hpre
    rcases Nat.lt_or_ge i x.length with hlt | hge
    · exact h i hlt hpre
    · obtain ⟨j, rfl⟩ := Nat.exists_eq_add_of_le hge
      rw [← List.drop_drop, List.drop_left] at hpre
      exact h' j (by simpa using hi) hpre

/-- A word starts where its first element is. -/
theorem clear_of_notMem {a : α} (h : a ∉ x) (u y : List α) : Clear (a :: u) x y := by
  induction x with
  | nil => exact .nil _ _
  | cons b x ih =>
    obtain ⟨hne, hx⟩ := List.ne_and_not_mem_of_not_mem_cons h
    exact .cons (fun hpre => hne (List.cons_prefix_cons.mp hpre).1) (ih hx)

/-- An occurrence starts behind a part in which none does. -/
theorem Clear.skip {b z : List α} (h : Clear u x b) (hz : x ++ b = z ++ (u ++ y)) :
    ∃ z', z = x ++ z' ∧ b = z' ++ (u ++ y) := by
  rcases List.append_eq_append_iff.mp hz with ⟨z', rfl, hb⟩ | ⟨l, rfl, hl⟩
  · exact ⟨z', rfl, hb⟩
  · rcases l.eq_nil_or_concat with rfl | ⟨l', c, rfl⟩
    · exact ⟨[], by simp, by simpa using hl.symm⟩
    · refine absurd ?_ (h z.length (by simp))
      rw [List.append_assoc, List.drop_left, ← hl]
      exact List.prefix_append ..

end Clear

section Leftmost

variable {α : Type*} [DecidableEq α] {u v s t : List α}

/-- The leftmost occurrence of `u` is replaced by `v`. -/
def rewriteLeft (u v s : List α) : Option (List α) :=
  (findSub u s).map fun i => s.take i ++ v ++ s.drop (i + u.length)

theorem findSub_clear {x y : List α} (h : Clear u x (u ++ y)) :
    findSub u (x ++ (u ++ y)) = some x.length := by
  rw [findSub_skip x _ h, findSub_of_prefix (List.prefix_append u y), Option.map_some, Nat.zero_add]

/-- The word occurs when a search succeeds, and not in what precedes. -/
theorem exists_clear {i : Nat} (h : findSub u s = some i) :
    ∃ x y, s = x ++ (u ++ y) ∧ x.length = i ∧ Clear u x (u ++ y) := by
  induction s generalizing i with
  | nil =>
    simp only [findSub, Option.ite_none_right_eq_some, Option.some.injEq] at h
    obtain ⟨rfl, rfl⟩ := h
    exact ⟨[], [], rfl, rfl, .nil _ _⟩
  | cons a s ih =>
    rw [findSub] at h
    split at h
    · rename_i hp
      obtain rfl := Option.some.inj h
      obtain ⟨y, hy⟩ := List.isPrefixOf_iff_prefix.mp hp
      exact ⟨[], y, hy.symm, rfl, .nil _ _⟩
    · rename_i hp
      obtain ⟨j, hj, rfl⟩ := Option.map_eq_some_iff.mp h
      obtain ⟨x, y, rfl, rfl, hclear⟩ := ih hj
      exact ⟨a :: x, y, rfl, rfl, hclear.cons (hp ∘ List.isPrefixOf_iff_prefix.mpr)⟩

theorem rewriteLeft_eq_none : rewriteLeft u v s = none ↔ ¬ u <:+: s := by
  rw [rewriteLeft, Option.map_eq_none_iff, findSub_eq_none]

theorem rewriteLeft_clear {x y : List α} (h : Clear u x (u ++ y)) :
    rewriteLeft u v (x ++ (u ++ y)) = some (x ++ (v ++ y)) := by
  rw [rewriteLeft, findSub_clear h, Option.map_some, List.take_left, ← List.drop_drop,
    List.drop_left, List.drop_left, List.append_assoc]

/-- A step is the decomposition at the leftmost occurrence. -/
theorem rewriteLeft_eq_some : rewriteLeft u v s = some t ↔
    ∃ x y, s = x ++ (u ++ y) ∧ t = x ++ (v ++ y) ∧ Clear u x (u ++ y) := by
  constructor
  · intro h
    obtain ⟨i, hi, _⟩ := Option.map_eq_some_iff.mp h
    obtain ⟨x, y, rfl, _, hclear⟩ := exists_clear hi
    rw [rewriteLeft_clear hclear] at h
    exact ⟨x, y, rfl, (Option.some.inj h).symm, hclear⟩
  · rintro ⟨x, y, rfl, rfl, hclear⟩
    exact rewriteLeft_clear hclear

/-- What follows an occurrence takes no part in a step. -/
theorem rewriteLeft_append (h : rewriteLeft u v s = some t) (w : List α) :
    rewriteLeft u v (s ++ w) = some (t ++ w) := by
  obtain ⟨i, hi, rfl⟩ := Option.map_eq_some_iff.mp h
  have hlen := (findSub_some hi).2
  rw [rewriteLeft, findSub_append hi, Option.map_some, List.take_append_of_le_length (by omega),
    List.drop_append_of_le_length hlen, List.append_assoc _ _ w]

end Leftmost

/-! ## The pieces between the occurrences -/

section Pieces

variable {α : Type*}

/-- The pieces of a list between the occurrences of `u`, each of them the leftmost one behind the
one before. -/
inductive Pieces (u : List α) : List α → List (List α) → Prop
  | last {s} : ¬ u <:+: s → Pieces u s [s]
  | cons {x y ps} : Clear u x (u ++ y) → Pieces u y ps → Pieces u (x ++ (u ++ y)) (x :: ps)

variable {u s : List α} {ps qs : List (List α)}

theorem Pieces.ne_nil (h : Pieces u s ps) : ps ≠ [] := by
  cases h <;> exact List.cons_ne_nil _ _

/-- The occurrences joined with the pieces are the list. -/
theorem Pieces.intercalate (h : Pieces u s ps) : u.intercalate ps = s := by
  induction h with
  | last => exact List.intercalate_singleton
  | cons _ h ih => rw [List.intercalate_cons_of_ne_nil h.ne_nil, ih, List.append_assoc]

/-- There are no more pieces than elements, and one. -/
theorem Pieces.length_le (hu : u ≠ []) (h : Pieces u s ps) : ps.length ≤ s.length + 1 := by
  have hpos := List.length_pos_iff.mpr hu
  induction h with
  | last => simp
  | cons _ _ ih =>
    simp only [List.length_append, List.length_cons]
    omega

variable [DecidableEq α]

/-- A list is cut in one way. -/
theorem Pieces.unique (hp : Pieces u s ps) (hq : Pieces u s qs) : ps = qs := by
  induction hp generalizing qs with
  | last hno =>
    cases hq with
    | last => rfl
    | cons => exact absurd (List.infix_append' ..) hno
  | @cons x y ps hclear _ ih =>
    generalize hs : x ++ (u ++ y) = s at hq
    cases hq with
    | last hno => exact absurd (hs ▸ List.infix_append' ..) hno
    | @cons x' y' qs hclear' hq =>
      have hfirst := findSub_clear hclear
      rw [hs, findSub_clear hclear'] at hfirst
      obtain ⟨rfl, hrest⟩ := List.append_inj hs (Option.some.inj hfirst).symm
      rw [ih (List.append_cancel_left hrest ▸ hq)]

/-- Every list is cut into pieces by a word that is not empty. -/
theorem exists_pieces (hu : u ≠ []) (s : List α) : ∃ ps, Pieces u s ps := by
  induction hn : s.length using Nat.strong_induction_on generalizing s with
  | h n ih =>
    cases hfind : findSub u s with
    | none => exact ⟨[s], .last (findSub_eq_none.mp hfind)⟩
    | some i =>
      obtain ⟨x, y, rfl, _, hclear⟩ := exists_clear hfind
      have hshort : y.length < n := by
        have hpos := List.length_pos_iff.mpr hu
        simp only [List.length_append] at hn
        omega
      obtain ⟨ps, hps⟩ := ih y.length hshort y rfl
      exact ⟨x :: ps, .cons hclear hps⟩

end Pieces

end AsioCoroFrame
