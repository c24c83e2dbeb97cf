import Mathlib.Data.List.Perm.Basic
import Mathlib.Data.List.Nodup
import Mathlib.Tactic.Common

/-!
# Grouping by key

A list of groups is filled one entry at a time: the entry joins the first group
of its key, or starts a new group at the end. No key gets two groups, and the
groups hold every entry exactly once, whatever the order of the insertions.
-/

namespace AsioCoroFrame

variable {κ ν : Type*} [DecidableEq κ]

/-- Add an entry to the group of its key, which is searched from the front. -/
def addTo (k : κ) (v : ν) : List (κ × List ν) → List (κ × List ν)
  | [] => [(k, [v])]
  | g :: gs => if k = g.1 then (g.1, g.2 ++ [v]) :: gs else g :: addTo k v gs

/-- The entries of all groups, each with the key of its group. -/
def entries (gs : List (κ × List ν)) : List (κ × ν) := gs.flatMap fun g => g.2.map fun v => (g.1, v)

omit [DecidableEq κ] in
theorem entries_cons (g : κ × List ν) (gs : List (κ × List ν)) :
    entries (g :: gs) = g.2.map (fun v => (g.1, v)) ++ entries gs := rfl

omit [DecidableEq κ] in
theorem mem_entries {gs : List (κ × List ν)} {e : κ × ν} :
    e ∈ entries gs ↔ ∃ g ∈ gs, g.1 = e.1 ∧ e.2 ∈ g.2 := by
  simp only [entries, List.mem_flatMap, List.mem_map, Prod.ext_iff]
  constructor
  · rintro ⟨g, hg, v, hv, hk, rfl⟩
    exact ⟨g, hg, hk, hv⟩
  · rintro ⟨g, hg, hk, hv⟩
    exact ⟨g, hg, e.2, hv, hk, rfl⟩

/-- An insertion adds its entry and keeps all others. -/
theorem entries_addTo (k : κ) (v : ν) (gs : List (κ × List ν)) :
    (entries (addTo k v gs)).Perm ((k, v) :: entries gs) := by
  induction gs with
  | nil => exact .refl _
  | cons g gs ih =>
    by_cases hk : k = g.1
    · subst hk
      simp only [addTo, if_true, entries, List.flatMap_cons, List.map_append, List.append_assoc,
        List.map_cons, List.map_nil, List.singleton_append]
      exact List.perm_middle
    · simp only [addTo, hk, if_false, entries, List.flatMap_cons] at ih ⊢
      exact (ih.append_left _).trans List.perm_middle

/-- An insertion adds its key, unless the key is there. -/
theorem keys_addTo (k : κ) (v : ν) (gs : List (κ × List ν)) :
    (addTo k v gs).map Prod.fst =
      if k ∈ gs.map Prod.fst then gs.map Prod.fst else gs.map Prod.fst ++ [k] := by
  induction gs with
  | nil => rfl
  | cons g gs ih =>
    by_cases hk : k = g.1
    · simp [addTo, hk]
    · simp only [addTo, hk, if_false, List.map_cons, ih, List.mem_cons, false_or]
      split <;> rfl

/-- Entries inserted one after the other. -/
def addAll (es : List (κ × ν)) (gs : List (κ × List ν)) : List (κ × List ν) :=
  es.foldl (fun gs e => addTo e.1 e.2 gs) gs

/-- All entries are there, each exactly once. -/
theorem entries_addAll (es : List (κ × ν)) (gs : List (κ × List ν)) :
    (entries (addAll es gs)).Perm (es ++ entries gs) := by
  induction es generalizing gs with
  | nil => exact .refl _
  | cons e es ih =>
    refine (ih (addTo e.1 e.2 gs)).trans (((entries_addTo e.1 e.2 gs).append_left es).trans ?_)
    exact List.perm_middle

/-- There is one group for each key that occurs. -/
theorem keys_addAll (es : List (κ × ν)) (gs : List (κ × List ν)) (h : (gs.map Prod.fst).Nodup) :
    ((addAll es gs).map Prod.fst).Nodup ∧
      ∀ k, k ∈ (addAll es gs).map Prod.fst ↔ k ∈ es.map Prod.fst ∨ k ∈ gs.map Prod.fst := by
  induction es generalizing gs with
  | nil => exact ⟨h, by simp [addAll]⟩
  | cons e es ih =>
    have hkeys := keys_addTo e.1 e.2 gs
    have hnodup : ((addTo e.1 e.2 gs).map Prod.fst).Nodup := by
      rw [hkeys]
      split
      · exact h
      · rename_i hnew
        exact List.Nodup.append h (List.nodup_singleton _) (by simpa using hnew)
    obtain ⟨hall, hmem⟩ := ih _ hnodup
    refine ⟨hall, fun k => (hmem k).trans ?_⟩
    rw [hkeys, List.map_cons, List.mem_cons]
    split
    · rename_i hold
      constructor
      · rintro (hk | hk)
        · exact .inl (.inr hk)
        · exact .inr hk
      · rintro ((rfl | hk) | hk)
        · exact .inr hold
        · exact .inl hk
        · exact .inr hk
    · rw [List.mem_append, List.mem_singleton]
      tauto

end AsioCoroFrame
