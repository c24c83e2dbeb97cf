import AsioCoroFrame.Core.Overlaps
import AsioCoroFrame.Core.Stretches

/-!
# When replacing a word ends

Conditions on two words under which the loop ends on every list. One of them
holds whenever the new word is not longer than the old one, and for old words of
two elements at most they are the only ones. Words that overlap on both sides
may keep the loop going.
-/

namespace AsioCoroFrame

variable {α : Type*} [DecidableEq α] {u v : List α}

/-! ## Words for which the loop ends -/

/-- Some measure decreases, or the words overlap once at most on one side. -/
inductive Tame (u v : List α) : Prop
  | fewer (c : α) : v.count c < u.count c → Tame u v
  | lastShorter (c : α) : ColexLT (stretches c v) (stretches c u) → Tame u v
  | firstShorter (c : α) : ColexLT (stretches c v).reverse (stretches c u).reverse → Tame u v
  | endOnce : (∀ p r, v = p ++ r → p ≠ [] → p <:+ u → Apart u r) → Tame u v
  | beginOnce : (∀ r q, v = r ++ q → q ≠ [] → q <+: u → Apart r u) → Tame u v

/-- On every list the loop ends, when the new word does not hold the old one. -/
theorem Tame.settles (h : Tame u v) (hv : ¬ u <:+: v) (s : List α) :
    Settles (rewriteLeft u v) s := by
  cases h with
  | fewer c hc => exact settles_of_fewer hc s
  | lastShorter c hc => exact settles_of_lastShorter hc s
  | firstShorter c hc => exact settles_of_firstShorter hc s
  | endOnce h => exact settles_of_endOnce hv h s
  | beginOnce h => exact settles_of_beginOnce hv h s

omit [DecidableEq α] in
/-- Two words of one length differ for the first time somewhere. -/
theorem exists_first_difference (hlen : u.length = v.length) (hne : u ≠ v) :
    ∃ w x y u' v', u = w ++ x :: u' ∧ v = w ++ y :: v' ∧ x ≠ y := by
  induction u generalizing v with
  | nil => exact absurd (List.length_eq_zero_iff.mp hlen.symm).symm hne
  | cons a u ih =>
    obtain ⟨b, v, rfl⟩ := List.exists_cons_of_length_eq_add_one hlen.symm
    by_cases hab : a = b
    · subst hab
      obtain ⟨w, x, y, u', v', rfl, rfl, hxy⟩ :=
        ih (Nat.succ.inj hlen) fun heq => hne (congrArg (a :: ·) heq)
      exact ⟨a :: w, x, y, u', v', rfl, rfl, hxy⟩
    · exact ⟨[], a, b, u, v, rfl, rfl, hab⟩

/-- The new word is not longer than the old one. -/
theorem tame_of_length_le (hne : u ≠ v) (hlen : v.length ≤ u.length) : Tame u v := by
  by_cases hfewer : ∃ c, v.count c < u.count c
  · obtain ⟨c, hc⟩ := hfewer
    exact .fewer c hc
  · have hperm : u.Perm v := by
      refine List.Subperm.perm_of_length_le (List.subperm_ext_iff.mpr fun c _ => ?_) hlen
      exact Nat.le_of_not_lt fun hc => hfewer ⟨c, hc⟩
    obtain ⟨w, x, y, u', v', rfl, rfl, hxy⟩ := exists_first_difference hperm.length_eq hne
    obtain ⟨t, m, ht⟩ := exists_stretches_append y w
    obtain ⟨k, ks, hks⟩ := exists_stretches y u'
    have hold := ht _ _ _ (stretches_cons_of_ne hxy hks)
    have hnew := ht _ _ _ (stretches_cons_self y v')
    have hcount := congrArg (· + 1) (hperm.count_eq y)
    rw [← length_stretches, ← length_stretches, hold, hnew] at hcount
    refine .firstShorter y ⟨(stretches y v').reverse, ks.reverse, m + 0, m + (k + 1), t.reverse,
      ?_, ?_, ?_, by omega⟩
    · rw [hnew, List.reverse_append, List.reverse_cons, List.append_assoc, List.singleton_append]
    · rw [hold, List.reverse_append, List.reverse_cons, List.append_assoc, List.singleton_append]
    · simp only [List.length_append, List.length_cons] at hcount
      rw [List.length_reverse, List.length_reverse]
      omega

/-! ## Words for which it goes on -/

/-- An occurrence of two elements stands behind another one of the first or before another one of
the second. -/
def Crossing (a b : α) (s : List α) : Prop :=
  ∃ x y, s = x ++ ([a, b] ++ y) ∧ ((∃ z, x = z ++ [a]) ∨ ∃ z, y = b :: z)

/-- Where they have crossed they cross again, and an occurrence somewhere else stays. -/
theorem Crossing.step {a b : α} (hab : a ≠ b) (w : List α) {s : List α} (h : Crossing a b s) :
    ∃ t, rewriteLeft [a, b] ([b, b] ++ w ++ [a, a]) s = some t ∧ Crossing a b t := by
  obtain ⟨x, y, rfl, hxy⟩ := h
  cases hstep : rewriteLeft [a, b] ([b, b] ++ w ++ [a, a]) (x ++ ([a, b] ++ y)) with
  | none => exact absurd (List.infix_append' ..) (rewriteLeft_eq_none.mp hstep)
  | some t =>
    refine ⟨t, rfl, ?_⟩
    obtain ⟨x₀, y₀, hs, rfl, hclear⟩ := rewriteLeft_eq_some.mp hstep
    obtain ⟨c, rfl, hc⟩ := hclear.skip hs.symm
    by_cases hnil : c = []
    · subst hnil
      obtain rfl := List.append_cancel_left hc
      rcases hxy with ⟨z, hz⟩ | ⟨z, rfl⟩
      · rw [List.append_nil] at hz
        exact ⟨z, b :: (w ++ [a, a] ++ y₀), by simp [hz], .inr ⟨_, rfl⟩⟩
      · exact ⟨x₀ ++ ([b, b] ++ w ++ [a]), z, by simp, .inl ⟨x₀ ++ ([b, b] ++ w), by simp⟩⟩
    · have hb : Inert [a, b] [b] := fun y => clear_of_notMem (by simpa using hab) [b] y
      obtain ⟨c, rfl, rfl⟩ := hb.skip_of_tail (q := [a, b]) hnil hc
      refine ⟨x₀ ++ ([b, b] ++ w ++ [a, a]) ++ c, y, by simp, hxy.imp_left ?_⟩
      rintro ⟨z, hz⟩
      rcases c.eq_nil_or_concat with rfl | ⟨c, d, rfl⟩
      · have hlast : (x₀ ++ [a]) ++ [b] = z ++ [a] := by simpa using hz
        exact absurd (List.cons.inj (List.append_inj' hlast rfl).2).1 hab.symm
      · have hlast : (x₀ ++ ([a, b] ++ c)) ++ [d] = z ++ [a] := by simpa using hz
        rw [(List.cons.inj (List.append_inj' hlast rfl).2).1]
        exact ⟨x₀ ++ ([b, b] ++ w ++ [a, a]) ++ c, by simp⟩

omit [DecidableEq α] in
theorem Crossing.of_twice (a b : α) : Crossing a b [a, b, b] := ⟨[], [b], rfl, .inr ⟨[], rfl⟩⟩

/-- The loop never ends. -/
theorem settle_crossing_eq_none {a b : α} (hab : a ≠ b) (w : List α) {s : List α}
    (h : Crossing a b s) (fuel : Nat) :
    settle (rewriteLeft [a, b] ([b, b] ++ w ++ [a, a])) fuel s = none :=
  settle_eq_none_of_closed (fun _ hs => hs.step hab w) h fuel

omit [DecidableEq α] in
theorem suffix_pair {a b : α} {p : List α} (h : p <:+ [a, b]) (hp : p ≠ []) :
    p = [b] ∨ p = [a, b] := by
  simpa [List.suffix_cons_iff, hp, or_comm] using h

omit [DecidableEq α] in
theorem prefix_pair {a b : α} {p : List α} (h : p <+: [a, b]) (hp : p ≠ []) :
    p = [a] ∨ p = [a, b] := by
  obtain ⟨p, rfl, hb⟩ := (List.prefix_cons_iff.mp h).resolve_left hp
  rcases List.prefix_cons_iff.mp hb with rfl | ⟨p, rfl, hnil⟩
  · exact .inl rfl
  · exact .inr (by rw [List.prefix_nil.mp hnil])

/-- Otherwise, an old word of two elements at most is one that the new word keeps crossing. -/
theorem tame_or_crossing (hlen : u.length ≤ 2) (hv : ¬ u <:+: v) :
    Tame u v ∨ ∃ a b w, a ≠ b ∧ u = [a, b] ∧ v = [b, b] ++ w ++ [a, a] := by
  rcases u with _ | ⟨a, _ | ⟨b, _ | ⟨c, u⟩⟩⟩
  · exact absurd List.nil_infix hv
  · refine .inl (.fewer a ?_)
    rw [List.count_eq_zero.mpr fun ha => hv ((List.singleton_infix_iff a v).mpr ha)]
    simp
  · by_cases hfront : ∃ w, v = b :: b :: w
    · by_cases hback : ∃ w, v = w ++ [a, a]
      · obtain ⟨w, rfl⟩ := hfront
        obtain ⟨w', hw⟩ := hback
        have hab : a ≠ b := by
          rintro rfl
          exact hv (List.prefix_append [a, a] w).isInfix
        rcases w' with _ | ⟨c, _ | ⟨d, w'⟩⟩
        · exact absurd (List.cons.inj hw).1.symm hab
        · exact absurd (List.cons.inj (List.cons.inj hw).2).1.symm hab
        · obtain ⟨rfl, rfl, rfl⟩ : b = c ∧ b = d ∧ w = w' ++ [a, a] := by simpa using hw
          exact .inr ⟨a, b, w', hab, rfl, by simp⟩
      · refine .inl (.beginOnce ?_)
        rintro r q rfl hq hqu p hp ⟨z, rfl⟩ hpu
        rcases prefix_pair hqu hq with rfl | rfl
        · rcases prefix_pair hpu hp with rfl | rfl
          · exact hback ⟨z, by simp⟩
          · exact hv ⟨z, [a], rfl⟩
        · exact hv List.infix_append_right
    · refine .inl (.endOnce ?_)
      rintro p r rfl hp hpu q hq hqu ⟨z, rfl⟩
      rcases suffix_pair hpu hp with rfl | rfl
      · rcases suffix_pair hqu hq with rfl | rfl
        · exact hfront ⟨z, rfl⟩
        · exact hv ⟨[b], z, by simp⟩
      · exact hv List.infix_append_left
  · simp at hlen

end AsioCoroFrame
