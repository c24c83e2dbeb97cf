import AsioCoroFrame.Core.Lists
import Mathlib.Order.Lattice

/-!
# Lists in the order of a key

The list of the entries of an ordered map. An insertion in front of the first
greater key keeps the order, and the last entry below a bound is the one with the
greatest key below it.
-/

namespace AsioCoroFrame

variable {α β : Type*} [LinearOrder β] {f : α → β} {l : List α}

/-- The keys increase from each entry to all later ones. -/
def Ordered (f : α → β) (l : List α) : Prop := l.Pairwise fun x y => f x < f y

/-- An ordered list has one entry for a key. -/
theorem Ordered.eq_of_key (h : Ordered f l) {x y : α} (hx : x ∈ l) (hy : y ∈ l)
    (he : f x = f y) : x = y := by
  induction l with
  | nil => cases hx
  | cons z l ih =>
    obtain ⟨hz, hl⟩ := List.pairwise_cons.mp h
    rcases List.mem_cons.mp hx with rfl | hxl
    · rcases List.mem_cons.mp hy with rfl | hyl
      · rfl
      · exact absurd he (hz y hyl).ne
    · rcases List.mem_cons.mp hy with rfl | hyl
      · exact absurd he (hz x hxl).ne'
      · exact ih hl hxl hyl

/-- Insertion in front of the first greater key keeps the order. -/
theorem Ordered.insertBefore (h : Ordered f l) {x : α} (hx : ∀ y ∈ l, f y ≠ f x) :
    Ordered f (insertBefore (fun y => f x < f y) x l) := by
  induction l with
  | nil => exact List.pairwise_singleton ..
  | cons y l ih =>
    obtain ⟨hy, hl⟩ := List.pairwise_cons.mp h
    by_cases hlt : f x < f y
    · have hfront : AsioCoroFrame.insertBefore (fun y => f x < f y) x (y :: l) = x :: y :: l := by
        simp [AsioCoroFrame.insertBefore, hlt]
      rw [hfront]
      refine List.pairwise_cons.mpr ⟨fun z hz => ?_, h⟩
      rcases List.mem_cons.mp hz with rfl | hz
      · exact hlt
      · exact hlt.trans (hy z hz)
    · have hbehind : AsioCoroFrame.insertBefore (fun y => f x < f y) x (y :: l) =
          y :: AsioCoroFrame.insertBefore (fun y => f x < f y) x l := by
        simp [AsioCoroFrame.insertBefore, hlt]
      rw [hbehind]
      refine List.pairwise_cons.mpr ⟨fun z hz => ?_, ih hl fun z hz =>
        hx z (List.mem_cons_of_mem _ hz)⟩
      rcases mem_insertBefore.mp hz with rfl | hz
      · exact lt_of_le_of_ne (not_lt.mp hlt) (hx y List.mem_cons_self)
      · exact hy z hz

/-- The entries in front of the first one that is not below the bound are those below it. -/
theorem Ordered.mem_takeWhile (h : Ordered f l) {b : β} {x : α} :
    x ∈ l.takeWhile (fun y => f y < b) ↔ x ∈ l ∧ f x < b := by
  induction l with
  | nil => simp
  | cons y l ih =>
    obtain ⟨hy, hl⟩ := List.pairwise_cons.mp h
    by_cases hlt : f y < b
    · rw [List.takeWhile_cons_of_pos (by simpa using hlt), List.mem_cons, List.mem_cons, ih hl]
      constructor
      · rintro (rfl | ⟨hmem, hx⟩)
        · exact ⟨.inl rfl, hlt⟩
        · exact ⟨.inr hmem, hx⟩
      · rintro ⟨rfl | hmem, hx⟩
        · exact .inl rfl
        · exact .inr ⟨hmem, hx⟩
    · rw [List.takeWhile_cons_of_neg (by simpa using hlt)]
      refine ⟨fun hmem => absurd hmem List.not_mem_nil, ?_⟩
      rintro ⟨hmem, hx⟩
      rcases List.mem_cons.mp hmem with rfl | hmem
      · exact absurd hx hlt
      · exact absurd ((hy x hmem).trans hx) hlt

/-- The last entry below a bound has the greatest key below it. -/
theorem Ordered.getLast?_takeWhile_eq_some (h : Ordered f l) {b : β} {x : α} :
    (l.takeWhile fun y => f y < b).getLast? = some x ↔
      x ∈ l ∧ f x < b ∧ ∀ y ∈ l, f y < b → f y ≤ f x := by
  have hgreatest {z : α} (hz : (l.takeWhile fun y => f y < b).getLast? = some z) :
      ∀ y ∈ l, f y < b → f y ≤ f z := by
    intro y hy hlt
    obtain ⟨front, hfront⟩ := List.getLast?_eq_some_iff.mp hz
    have hpairs := h.sublist (List.takeWhile_sublist fun y => decide (f y < b))
    have hmem := h.mem_takeWhile.mpr ⟨hy, hlt⟩
    rw [hfront] at hpairs hmem
    rcases List.mem_append.mp hmem with hmem | hmem
    · exact ((List.pairwise_append.mp hpairs).2.2 y hmem z (by simp)).le
    · rw [List.mem_singleton.mp hmem]
  constructor
  · intro hx
    obtain ⟨hmem, hlt⟩ := h.mem_takeWhile.mp (List.mem_of_getLast? hx)
    exact ⟨hmem, hlt, hgreatest hx⟩
  · rintro ⟨hmem, hlt, hmax⟩
    cases hlast : (l.takeWhile fun y => f y < b).getLast? with
    | none =>
      have hin := h.mem_takeWhile.mpr ⟨hmem, hlt⟩
      rw [List.getLast?_eq_none_iff.mp hlast] at hin
      cases hin
    | some z =>
      obtain ⟨hz, hzb⟩ := h.mem_takeWhile.mp (List.mem_of_getLast? hlast)
      rw [h.eq_of_key hz hmem (le_antisymm (hmax z hz hzb) (hgreatest hlast x hmem hlt))]

end AsioCoroFrame
