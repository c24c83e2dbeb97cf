import Mathlib.Data.List.Chain
import Mathlib.Data.List.Destutter
import Mathlib.Data.List.SplitBy
import Mathlib.Data.List.TakeWhile
import Mathlib.Data.List.Perm.Basic
import Mathlib.Tactic.Common

/-!
# List facts shared by the models
-/

namespace AsioCoroFrame

variable {α : Type*}

/-- Two different members of a list stand in one of the two orders. -/
theorem exists_split_of_mem_of_ne {l : List α} {e f : α} (he : e ∈ l) (hf : f ∈ l)
    (hne : e ≠ f) :
    ∃ pre mid post, l = pre ++ e :: (mid ++ f :: post) ∨ l = pre ++ f :: (mid ++ e :: post) := by
  obtain ⟨a, b, rfl⟩ := List.append_of_mem he
  simp only [List.mem_append, List.mem_cons, hne.symm, false_or] at hf
  rcases hf with hf | hf
  · obtain ⟨a₁, a₂, rfl⟩ := List.append_of_mem hf
    exact ⟨a₁, a₂, b, .inr (by simp)⟩
  · obtain ⟨b₁, b₂, rfl⟩ := List.append_of_mem hf
    exact ⟨a, b₁, b₂, .inl rfl⟩

/-- Neighbours anywhere in a chain are related. -/
theorem isChain_neighbours {R : α → α → Prop} {l : List α} {a b : α} (h : l.IsChain R)
    (hab : [a, b] <:+: l) : R a b :=
  List.isChain_pair.mp <| h.infix hab

/-- Insert an element right before the first one that satisfies `p`. -/
def insertBefore (p : α → Bool) (x : α) (l : List α) : List α :=
  l.takeWhile (fun y => !p y) ++ x :: l.dropWhile (fun y => !p y)

theorem mem_insertBefore {p : α → Bool} {x y : α} {l : List α} :
    y ∈ insertBefore p x l ↔ y = x ∨ y ∈ l := by
  have hl : y ∈ l ↔ y ∈ l.takeWhile (fun y => !p y) ∨ y ∈ l.dropWhile (fun y => !p y) := by
    rw [← List.mem_append, List.takeWhile_append_dropWhile]
  rw [hl, insertBefore, List.mem_append, List.mem_cons]
  tauto

/-- An insertion adds its element and keeps all others. -/
theorem perm_insertBefore (p : α → Bool) (x : α) (l : List α) :
    (insertBefore p x l).Perm (x :: l) := by
  have hl : x :: l = x :: (l.takeWhile (fun y => !p y) ++ l.dropWhile (fun y => !p y)) := by
    rw [List.takeWhile_append_dropWhile]
  rw [hl, insertBefore]
  exact List.perm_middle

/-- A search is blind to an inserted element it does not match. -/
theorem find?_insertBefore_of_not {p q : α → Bool} {x : α} {l : List α} (h : q x = false) :
    (insertBefore p x l).find? q = l.find? q := by
  have hl := congrArg (List.find? q) (List.takeWhile_append_dropWhile (p := fun y => !p y) (l := l))
  rw [List.find?_append] at hl
  simp [insertBefore, List.find?_append, h, hl]

/-- A search that failed before finds the inserted element. -/
theorem find?_insertBefore_self {p q : α → Bool} {x : α} {l : List α} (h : q x = true)
    (hl : ∀ y ∈ l, q y = false) : (insertBefore p x l).find? q = some x := by
  have hpre : (l.takeWhile fun y => !p y).find? q = none := by
    refine List.find?_eq_none.mpr fun y hy => ?_
    simp [hl y ((List.takeWhile_sublist _).subset hy)]
  simp [insertBefore, List.find?_append, hpre, h]

theorem modify_length_concat (l : List α) (x : α) (f : α → α) :
    (l ++ [x]).modify l.length f = l ++ [f x] := by
  induction l with
  | nil => rfl
  | cons y l ih => simpa using ih

/-- Reading one element apart from the others, whatever their order. -/
theorem perm_flatMap_of_getElem? {β : Type*} {l : List α} {p : Nat} {x : α} (f : α → List β)
    (h : l[p]? = some x) : (l.flatMap f).Perm (f x ++ (l.eraseIdx p).flatMap f) := by
  obtain ⟨hp, rfl⟩ := List.getElem?_eq_some_iff.mp h
  have hsplit : l = l.take p ++ l[p] :: l.drop (p + 1) := by
    rw [List.getElem_cons_drop, List.take_append_drop]
  rw [List.eraseIdx_eq_take_drop_succ]
  conv_lhs => rw [hsplit]
  simp only [List.flatMap_append, List.flatMap_cons]
  exact List.perm_append_comm_assoc ..

/-- The same with the element replaced. -/
theorem perm_flatMap_set {β : Type*} {l : List α} {p : Nat} {x : α} (y : α) (f : α → List β)
    (h : l[p]? = some x) :
    ((l.set p y).flatMap f).Perm (f y ++ (l.eraseIdx p).flatMap f) := by
  have hp := (List.getElem?_eq_some_iff.mp h).1
  have hy : (l.set p y)[p]? = some y := by simp [hp]
  simpa [List.eraseIdx_set_eq] using perm_flatMap_of_getElem? f hy

/-- Each of the joined lists stands in the joined list as it is. -/
theorem isInfix_intercalate {sep m : List α} {ls : List (List α)} (h : m ∈ ls) :
    m <:+: sep.intercalate ls := by
  induction ls with
  | nil => cases h
  | cons l ls ih =>
    cases ls with
    | nil =>
      obtain rfl := List.mem_singleton.mp h
      simp only [List.intercalate_singleton, List.infix_refl]
    | cons l' ls =>
      rw [List.intercalate_cons_cons]
      rcases List.mem_cons.mp h with rfl | h
      · exact ((List.prefix_append ..).trans (List.prefix_append ..)).isInfix
      · exact (ih h).trans (List.suffix_append ..).isInfix

/-- A piece of a split list stands in it as it is. -/
theorem isInfix_of_mem_splitOn [DecidableEq α] {c : α} {l m : List α} (h : m ∈ l.splitOn c) :
    m <:+: l := by
  have hjoin : [c].intercalate (l.splitOn c) = l := List.intercalate_splitOn c
  rw [← hjoin]
  exact isInfix_intercalate h

/-- The first piece of a split list ends before the first separator. -/
theorem head?_splitOn [DecidableEq α] (c : α) (l : List α) :
    (l.splitOn c).head? = some (l.takeWhile (· ≠ c)) := by
  induction l with
  | nil => rfl
  | cons x l ih =>
    rw [List.splitOn_cons_eq_if_modifyHead]
    by_cases hx : x = c <;> simp [hx, ih]

/-- No piece of a split list holds the separator. -/
theorem not_mem_of_mem_splitOn [DecidableEq α] {c : α} {l m : List α} (h : m ∈ l.splitOn c) :
    c ∉ m := by
  induction l generalizing m with
  | nil =>
    rw [List.splitOn_nil, List.mem_singleton] at h
    simp [h]
  | cons x l ih =>
    obtain ⟨p, ps, hps⟩ := List.exists_cons_of_ne_nil (List.splitOn_ne_nil c l)
    rw [hps] at ih
    rw [List.splitOn_cons_eq_if_modifyHead, hps] at h
    by_cases hx : x = c
    · simp only [hx, beq_self_eq_true, if_true, List.mem_cons] at h
      rcases h with rfl | h
      · exact List.not_mem_nil
      · exact ih (List.mem_cons.mpr h)
    · simp only [beq_eq_false_iff_ne.mpr hx, Bool.false_eq_true, if_false, List.modifyHead_cons,
        List.mem_cons] at h
      rcases h with rfl | h
      · have hp := ih List.mem_cons_self
        simp [hp, Ne.symm hx]
      · exact ih (List.mem_cons_of_mem _ h)

/-- Splitting drops the separators and nothing else. -/
theorem flatten_splitOn [DecidableEq α] (c : α) (l : List α) :
    (l.splitOn c).flatten = l.filter (· ≠ c) := by
  induction l with
  | nil => rfl
  | cons x l ih =>
    rw [List.splitOn_cons_eq_if_modifyHead]
    by_cases hx : x = c
    · simp [hx, ih]
    · obtain ⟨m, ms, hms⟩ := List.exists_cons_of_ne_nil (List.splitOn_ne_nil c l)
      rw [hms, List.flatten_cons] at ih
      simp [hx, hms, ih]

/-- Two lists joined by an element are joined from the same parts, unless the element occurs in
the part of one join that the other one splits. -/
theorem append_cons_eq_append_cons_iff {x : α} {a b a' b' : List α} :
    a ++ x :: b = a' ++ x :: b' ↔
      (a = a' ∧ b = b') ∨ (∃ m, a' = a ++ x :: m ∧ b = m ++ x :: b') ∨
        ∃ m, a = a' ++ x :: m ∧ b' = m ++ x :: b := by
  rw [List.append_eq_append_iff]
  constructor
  · rintro (⟨m, rfl, hm⟩ | ⟨m, rfl, hm⟩)
    · cases m with
      | nil => exact .inl ⟨by simp, (List.cons.inj hm).2⟩
      | cons y m =>
        obtain ⟨rfl, hb⟩ := List.cons.inj hm
        exact .inr (.inl ⟨m, rfl, hb⟩)
    · cases m with
      | nil => exact .inl ⟨by simp, (List.cons.inj hm).2.symm⟩
      | cons y m =>
        obtain ⟨rfl, hb⟩ := List.cons.inj hm
        exact .inr (.inr ⟨m, rfl, hb⟩)
  · rintro (⟨rfl, rfl⟩ | ⟨m, rfl, rfl⟩ | ⟨m, rfl, rfl⟩)
    · exact .inl ⟨[], by simp, rfl⟩
    · exact .inl ⟨x :: m, rfl, rfl⟩
    · exact .inr ⟨x :: m, rfl, rfl⟩

/-! ## Runs of one element -/

section Runs

/-- Two neighbours that are not both `c`. -/
def NotBoth (c a b : α) : Prop := ¬ (a = c ∧ b = c)

/-- A list has no two neighbours `c` exactly when it is a chain of such neighbours. -/
theorem isChain_notBoth {c : α} {l : List α} : l.IsChain (NotBoth c) ↔ ¬ [c, c] <:+: l := by
  constructor
  · intro hchain hdouble
    exact isChain_neighbours hchain hdouble ⟨rfl, rfl⟩
  · intro hno
    refine (List.isChain_isInfix l).imp ?_
    rintro a b hab ⟨rfl, rfl⟩
    exact hno hab

variable [DecidableEq α]

instance (c : α) : DecidableRel (NotBoth c) := fun _ _ => inferInstanceAs (Decidable (¬ _))

theorem destutter'_double (c x : α) (a b : List α) :
    (a ++ c :: c :: b).destutter' (NotBoth c) x = (a ++ c :: b).destutter' (NotBoth c) x := by
  induction a generalizing x with
  | nil =>
    by_cases hx : x = c
    · simp [NotBoth, hx]
    · simp [List.destutter'_cons, NotBoth, hx]
  | cons y a ih => simp only [List.cons_append, List.destutter'_cons, ih]

/-- Erasing one of two neighbours `c` does not change the list with the runs of `c` collapsed. -/
theorem destutter_double (c : α) (a b : List α) :
    (a ++ c :: c :: b).destutter (NotBoth c) = (a ++ c :: b).destutter (NotBoth c) := by
  cases a with
  | nil => simp [List.destutter, NotBoth]
  | cons x a => exact destutter'_double c x a b

theorem head?_destutter' (c x : α) (l : List α) :
    (l.destutter' (NotBoth c) x).head? = some x := by
  induction l with
  | nil => rfl
  | cons y l ih =>
    rw [List.destutter'_cons]
    split
    · rfl
    · exact ih

/-- Collapsing runs keeps the first element. -/
theorem head?_destutter (c : α) (l : List α) : (l.destutter (NotBoth c)).head? = l.head? := by
  cases l with
  | nil => rfl
  | cons x l => exact head?_destutter' c x l

/-- A list cut into the maximal runs of `c`, every other element on its own. -/
structure IsRuns (c : α) (l : List α) (gs : List (List α)) : Prop where
  flatten : gs.flatten = l
  group : ∀ g ∈ gs, (∃ n, g = List.replicate (n + 1) c) ∨ ∃ x, x ≠ c ∧ g = [x]
  maximal : gs.IsChain fun g g' => ¬ (c ∈ g ∧ c ∈ g')

/-- The maximal runs of `c` and the other elements of a list, in order. -/
def runs (c : α) (l : List α) : List (List α) := l.splitBy fun a b => a = c ∧ b = c

/-- Neighbours that are all `c` make a run, or there is one element only. -/
theorem group_of_isChain {c : α} {g : List α} (hne : g ≠ [])
    (h : g.IsChain fun a b => a = c ∧ b = c) :
    (∃ n, g = List.replicate (n + 1) c) ∨ ∃ x, x ≠ c ∧ g = [x] := by
  induction g with
  | nil => exact absurd rfl hne
  | cons x g ih =>
    cases g with
    | nil =>
      by_cases hx : x = c
      · exact .inl ⟨0, by rw [hx]; rfl⟩
      · exact .inr ⟨x, hx, rfl⟩
    | cons y g =>
      obtain ⟨⟨rfl, rfl⟩, h⟩ := List.isChain_cons_cons.mp h
      rcases ih (List.cons_ne_nil _ _) h with ⟨n, hn⟩ | ⟨x, hx, hg⟩
      · exact .inl ⟨n + 1, by rw [hn]; rfl⟩
      · exact absurd (List.cons.inj hg).1 hx.symm

/-- A group in front is collapsed on its own, when what follows does not go on with it. -/
theorem destutter_group {c : α} {g rest : List α}
    (h : (∃ n, g = List.replicate (n + 1) c) ∨ ∃ x, x ≠ c ∧ g = [x])
    (hend : ∀ x ∈ g, ∀ y ∈ rest.head?, NotBoth c x y) :
    (g ++ rest).destutter (NotBoth c) = g.take 1 ++ rest.destutter (NotBoth c) := by
  have hsingle {x : α} (hx : ∀ y ∈ rest.head?, NotBoth c x y) :
      (x :: rest).destutter (NotBoth c) = x :: rest.destutter (NotBoth c) := by
    cases rest with
    | nil => rfl
    | cons y rest => simp [List.destutter, hx y rfl]
  rcases h with ⟨n, rfl⟩ | ⟨x, _, rfl⟩
  · have hc := hsingle (hend c (by simp))
    clear hend
    induction n with
    | zero => exact hc
    | succ n ih =>
      have hdouble := destutter_double c [] (List.replicate n c ++ rest)
      exact hdouble.trans ih
  · exact hsingle (hend x List.mem_cons_self)

/-- Collapsing keeps one element of every run. -/
theorem IsRuns.destutter {c : α} {l : List α} {gs : List (List α)} (h : IsRuns c l gs) :
    l.destutter (NotBoth c) = gs.flatMap (·.take 1) := by
  obtain ⟨rfl, hgroup, hmax⟩ := h
  induction gs with
  | nil => rfl
  | cons g gs ih =>
    obtain ⟨hg, hgs⟩ := List.forall_mem_cons.mp hgroup
    rw [List.isChain_cons] at hmax
    rw [List.flatten_cons, destutter_group hg, ih hgs hmax.2, List.flatMap_cons]
    intro x hx y hy
    cases gs with
    | nil => cases hy
    | cons g' gs =>
      obtain ⟨z, t, rfl⟩ : ∃ z t, g' = z :: t := by
        rcases hgs g' List.mem_cons_self with ⟨n, rfl⟩ | ⟨z, _, rfl⟩
        · exact ⟨c, _, rfl⟩
        · exact ⟨z, [], rfl⟩
      obtain rfl : z = y := by simpa using hy
      rintro ⟨rfl, rfl⟩
      exact hmax.1 _ rfl ⟨hx, List.mem_cons_self⟩

/-- The splitting of a list between neighbours that are not both `c` yields its runs. -/
theorem isRuns_runs (c : α) (l : List α) : IsRuns c l (runs c l) := by
  obtain ⟨hflat, hne, hrun, hmax⟩ := List.splitBy_eq_iff.mp (show runs c l = runs c l from rfl)
  have hgroup : ∀ g ∈ runs c l,
      (∃ n, g = List.replicate (n + 1) c) ∨ ∃ x, x ≠ c ∧ g = [x] := by
    intro g hg
    refine group_of_isChain (fun h => hne (h ▸ hg)) ?_
    simpa using hrun g hg
  have hall : ∀ g ∈ runs c l, c ∈ g → ∀ x ∈ g, x = c := by
    intro g hg hc x hx
    rcases hgroup g hg with ⟨n, rfl⟩ | ⟨y, hy, rfl⟩
    · exact List.eq_of_mem_replicate hx
    · exact absurd (List.mem_singleton.mp hc).symm hy
  refine ⟨hflat.symm, hgroup, hmax.imp_of_mem_imp ?_⟩
  rintro g g' hg hg' ⟨ha, hb, hno⟩ ⟨hc, hc'⟩
  have hlast := hall g hg hc _ (List.getLast_mem ha)
  have hfirst := hall g' hg' hc' _ (List.head_mem hb)
  simp [hlast, hfirst] at hno

end Runs

end AsioCoroFrame
