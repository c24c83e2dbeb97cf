import Mathlib.Algebra.BigOperators.Fin
import Mathlib.Algebra.Order.BigOperators.Group.Finset

/-!
# Counting threads by where they stand

Each thread of a finite family stands at a site. A tally adds up a weight of the
sites, so a step that moves one thread changes it by the weights of the two sites.
-/

namespace AsioCoroFrame

open Finset

variable {τ σ : Type*} [Fintype τ] {site : τ → σ} {w : σ → Nat}

/-- The sum of the weights of the sites of all threads. -/
def tally (w : σ → Nat) (site : τ → σ) : Nat := ∑ t, w (site t)

/-- A move of one thread changes the tally by the weights of its two sites. -/
theorem tally_update [DecidableEq τ] (w : σ → Nat) (site : τ → σ) (t : τ) (x : σ) :
    tally w (Function.update site t x) + w (site t) = tally w site + w x := by
  have hnew := add_sum_erase univ (fun u => w (Function.update site t x u)) (mem_univ t)
  have hold := add_sum_erase univ (fun u => w (site u)) (mem_univ t)
  have hrest : ∑ u ∈ univ.erase t, w (Function.update site t x u) =
      ∑ u ∈ univ.erase t, w (site u) := by
    refine sum_congr rfl fun u hu => ?_
    rw [Function.update_of_ne (ne_of_mem_erase hu)]
  simp only [Function.update_self] at hnew
  rw [hrest] at hnew
  unfold tally
  omega

/-- The tally counts every thread. -/
theorem le_tally (w : σ → Nat) (site : τ → σ) (t : τ) : w (site t) ≤ tally w site :=
  single_le_sum (f := fun u => w (site u)) (fun _ _ => Nat.zero_le _) (mem_univ t)

/-- The tally counts any two threads. -/
theorem add_le_tally [DecidableEq τ] (w : σ → Nat) (site : τ → σ) {t u : τ} (h : t ≠ u) :
    w (site t) + w (site u) ≤ tally w site := by
  have hpair := sum_pair (f := fun v => w (site v)) h
  rw [← hpair]
  exact sum_le_sum_of_subset (subset_univ _)

/-- A tally of nothing. -/
theorem tally_eq_zero (h : ∀ t, w (site t) = 0) : tally w site = 0 :=
  sum_eq_zero fun t _ => h t

/-- A tally that is not zero counts somebody. -/
theorem exists_of_tally_pos (h : 0 < tally w site) : ∃ t, 0 < w (site t) := by
  by_contra hnone
  have hzero : tally w site = 0 := tally_eq_zero fun t => by
    by_contra ht
    exact hnone ⟨t, Nat.pos_of_ne_zero ht⟩
  omega

/-- Where each weight is at most one, so is the tally at most the number of threads. -/
theorem tally_le_card (h : ∀ x, w x ≤ 1) : tally w site ≤ Fintype.card τ := by
  calc tally w site ≤ ∑ _t : τ, 1 := sum_le_sum fun t _ => h (site t)
    _ = Fintype.card τ := by simp

end AsioCoroFrame
