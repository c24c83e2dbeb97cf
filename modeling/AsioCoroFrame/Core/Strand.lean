import Mathlib.Data.List.Nodup
import Mathlib.Tactic.Common

/-!
# Doubly linked lists

The nodes of a store point forwards and backwards. A strand is a list of distinct nodes
that these pointers spell. A strand can be cut into two and two can be joined by writing
the pointers at the seams, and walking along it visits its nodes in order.
-/

namespace AsioCoroFrame

variable {ν : Type*} {next prev next' prev' : ν → Option ν}

/-- Each node points at its neighbours, the first one back at nothing and the last one on to
nothing. -/
structure Strand (next prev : ν → Option ν) (l : List ν) : Prop where
  nodup : l.Nodup
  next_eq : ∀ {a x b}, l = a ++ x :: b → next x = b.head?
  prev_eq : ∀ {a x b}, l = a ++ x :: b → prev x = a.getLast?

/-- A node of a concatenation is in one of the two lists. -/
theorem append_eq_append_cons {l₁ l₂ a b : List ν} {x : ν} (h : l₁ ++ l₂ = a ++ x :: b) :
    (∃ c, l₁ = a ++ x :: c ∧ b = c ++ l₂) ∨ ∃ c, l₂ = c ++ x :: b ∧ a = l₁ ++ c := by
  rcases List.append_eq_append_iff.mp h with ⟨c, hc, hl⟩ | ⟨c, hl, hc⟩
  · exact .inr ⟨c, hl, hc⟩
  · cases c with
    | nil => exact .inr ⟨[], by simpa using hc.symm, by simpa using hl.symm⟩
    | cons y c =>
      obtain ⟨rfl, hb⟩ := List.cons_eq_cons.mp hc
      exact .inl ⟨c, hl, hb⟩

/-- The lists without nodes. -/
theorem Strand.nil : Strand next prev [] where
  nodup := List.nodup_nil
  next_eq h := by simp at h
  prev_eq h := by simp at h

theorem Strand.singleton {x : ν} (hnext : next x = none) (hprev : prev x = none) :
    Strand next prev [x] where
  nodup := List.nodup_singleton x
  next_eq {a y b} h := by
    rcases List.singleton_eq_append_iff.mp h with ⟨rfl, hy⟩ | ⟨rfl, hy⟩
    · obtain ⟨rfl, rfl⟩ := List.cons_eq_cons.mp hy
      exact hnext
    · cases hy
  prev_eq {a y b} h := by
    rcases List.singleton_eq_append_iff.mp h with ⟨rfl, hy⟩ | ⟨rfl, hy⟩
    · obtain ⟨rfl, rfl⟩ := List.cons_eq_cons.mp hy
      exact hprev
    · cases hy

/-- A strand depends on the pointers of its own nodes only. -/
theorem Strand.congr {l : List ν} (h : Strand next prev l) (hnext : ∀ x ∈ l, next' x = next x)
    (hprev : ∀ x ∈ l, prev' x = prev x) : Strand next' prev' l where
  nodup := h.nodup
  next_eq {a x b} he := by
    rw [hnext x (by simp [he]), h.next_eq he]
  prev_eq {a x b} he := by
    rw [hprev x (by simp [he]), h.prev_eq he]

/-- The last node of a part points at the first one behind it. -/
theorem Strand.next_getLast {a m b : List ν} (h : Strand next prev (a ++ (m ++ b))) {x : ν}
    (hx : m.getLast? = some x) : next x = b.head? := by
  obtain ⟨c, rfl⟩ := List.getLast?_eq_some_iff.mp hx
  exact h.next_eq (a := a ++ c) (by simp)

/-- The first node of a part points back at the last one before it. -/
theorem Strand.prev_head {a m b : List ν} (h : Strand next prev (a ++ (m ++ b))) {x : ν}
    (hx : m.head? = some x) : prev x = a.getLast? := by
  obtain ⟨c, rfl⟩ := List.head?_eq_some_iff.mp hx
  exact h.prev_eq (b := c ++ b) (by simp)

theorem Strand.reverse {l : List ν} (h : Strand next prev l) : Strand prev next l.reverse where
  nodup := List.nodup_reverse.mpr h.nodup
  next_eq {a x b} he := by
    have hl : l = b.reverse ++ x :: a.reverse := by simpa using congrArg List.reverse he
    simpa using h.prev_eq hl
  prev_eq {a x b} he := by
    have hl : l = b.reverse ++ x :: a.reverse := by simpa using congrArg List.reverse he
    simpa using h.next_eq hl

section Seams

variable [DecidableEq ν]

/-- Two strands without a common node are joined by the pointers of the two nodes at the seam. -/
theorem Strand.join {a b : List ν} (ha : Strand next prev a) (hb : Strand next prev b)
    (hdisjoint : a.Disjoint b)
    (hnext : ∀ x ∈ a ++ b, next' x = if a.getLast? = some x then b.head? else next x)
    (hprev : ∀ x ∈ a ++ b, prev' x = if b.head? = some x then a.getLast? else prev x) :
    Strand next' prev' (a ++ b) where
  nodup := ha.nodup.append hb.nodup hdisjoint
  next_eq {p x q} he := by
    rw [hnext x (by simp [he])]
    rcases append_eq_append_cons he with ⟨c, rfl, rfl⟩ | ⟨c, rfl, rfl⟩
    · cases hc : c with
      | nil => simp
      | cons y c' =>
        have hlast : (p ++ x :: c).getLast? ≠ some x := by
          intro hlast
          have hmem := List.mem_of_getLast? (l := y :: c') (a := x) (by simpa [hc] using hlast)
          have hnodup := ha.nodup
          rw [List.nodup_append] at hnodup
          exact (List.nodup_cons.mp hnodup.2.1).1 (hc ▸ hmem)
        rw [← hc, if_neg hlast, ha.next_eq rfl, hc]
        simp
    · have hout : a.getLast? ≠ some x := fun hlast =>
        hdisjoint (List.mem_of_getLast? hlast) (by simp)
      rw [if_neg hout, hb.next_eq rfl]
  prev_eq {p x q} he := by
    rw [hprev x (by simp [he])]
    rcases append_eq_append_cons he with ⟨c, rfl, rfl⟩ | ⟨c, rfl, rfl⟩
    · have hout : b.head? ≠ some x := fun hhead =>
        hdisjoint (by simp) (List.mem_of_head? hhead)
      rw [if_neg hout, ha.prev_eq rfl]
    · cases hc : c with
      | nil => simp
      | cons y c' =>
        have hhead : (c ++ x :: q).head? ≠ some x := by
          intro hhead
          have hnodup := hb.nodup
          rw [hc] at hhead hnodup
          simp only [List.cons_append, List.head?_cons, Option.some.injEq] at hhead
          subst hhead
          exact (List.nodup_cons.mp hnodup).1 (by simp)
        rw [← hc, if_neg hhead, hb.prev_eq rfl, List.getLast?_append_of_ne_nil]
        simp [hc]

/-- A strand is split by clearing the pointers at the seam. -/
theorem Strand.split {a b : List ν} (h : Strand next prev (a ++ b))
    (hnext : ∀ x ∈ a ++ b, next' x = if a.getLast? = some x then none else next x)
    (hprev : ∀ x ∈ a ++ b, prev' x = if b.head? = some x then none else prev x) :
    Strand next' prev' a ∧ Strand next' prev' b := by
  obtain ⟨ha, hb, hab⟩ := List.nodup_append'.mp h.nodup
  refine ⟨⟨ha, fun {p x q} he => ?_, fun {p x q} he => ?_⟩,
    ⟨hb, fun {p x q} he => ?_, fun {p x q} he => ?_⟩⟩
  · rw [hnext x (by simp [he])]
    cases q with
    | nil => simp [he]
    | cons y q =>
      have hlast : a.getLast? ≠ some x := by
        intro hlast
        rw [he, List.getLast?_append_of_ne_nil _ (by simp), List.getLast?_cons_cons] at hlast
        rw [he, List.nodup_append'] at ha
        exact (List.nodup_cons.mp ha.2.1).1 (List.mem_of_getLast? hlast)
      rw [if_neg hlast, h.next_eq (a := p) (b := y :: q ++ b) (by simp [he])]
      rfl
  · have hout : b.head? ≠ some x := fun hhead => hab (by simp [he]) (List.mem_of_head? hhead)
    rw [hprev x (by simp [he]), if_neg hout]
    exact h.prev_eq (b := q ++ b) (by simp [he])
  · have hout : a.getLast? ≠ some x := fun hlast =>
      hab (List.mem_of_getLast? hlast) (by simp [he])
    rw [hnext x (by simp [he]), if_neg hout]
    exact h.next_eq (a := a ++ p) (by simp [he])
  · rw [hprev x (by simp [he])]
    cases p with
    | nil => simp [he]
    | cons y p =>
      have hhead : b.head? ≠ some x := by
        intro hhead
        rw [he, List.cons_append, List.head?_cons, Option.some.injEq] at hhead
        rw [he, List.cons_append, List.nodup_cons] at hb
        exact hb.1 (by simp [hhead])
      rw [if_neg hhead, h.prev_eq (a := a ++ y :: p) (b := q) (by simp [he]),
        List.getLast?_append_of_ne_nil _ (by simp)]

/-- A part cut out of a strand and the rest are strands once the pointers at the two seams are
written. -/
theorem Strand.cut {a m b : List ν} (h : Strand next prev (a ++ (m ++ b)))
    (hnext : ∀ x ∈ a ++ (m ++ b), next' x =
      if m.getLast? = some x then none else if a.getLast? = some x then b.head? else next x)
    (hprev : ∀ x ∈ a ++ (m ++ b), prev' x =
      if m.head? = some x then none else if b.head? = some x then a.getLast? else prev x) :
    Strand next' prev' (a ++ b) ∧ Strand next' prev' m := by
  have hnodup := h.nodup
  simp only [List.nodup_append', List.disjoint_append_right] at hnodup
  obtain ⟨_, ⟨_, _, hmb⟩, ham, hab⟩ := hnodup
  have hlast {x : ν} (hx : x ∈ a ++ b) : m.getLast? ≠ some x := by
    intro hm
    rcases List.mem_append.mp hx with hx | hx
    · exact ham hx (List.mem_of_getLast? hm)
    · exact hmb (List.mem_of_getLast? hm) hx
  have hhead {x : ν} (hx : x ∈ a ++ b) : m.head? ≠ some x := by
    intro hm
    rcases List.mem_append.mp hx with hx | hx
    · exact ham hx (List.mem_of_head? hm)
    · exact hmb (List.mem_of_head? hm) hx
  let next₁ := fun x => if a.getLast? = some x then none else next x
  let prev₁ := fun x => if (m ++ b).head? = some x then none else prev x
  have hfirst : Strand next₁ prev₁ a ∧ Strand next₁ prev₁ (m ++ b) :=
    h.split (fun _ _ => rfl) fun _ _ => rfl
  let next₂ := fun x => if m.getLast? = some x then none else next₁ x
  let prev₂ := fun x => if b.head? = some x then none else prev₁ x
  have hsecond : Strand next₂ prev₂ m ∧ Strand next₂ prev₂ b :=
    hfirst.2.split (fun _ _ => rfl) fun _ _ => rfl
  have ha : Strand next₂ prev₂ a := by
    refine hfirst.1.congr (fun x hx => if_neg (hlast (List.mem_append_left _ hx))) fun x hx => ?_
    exact if_neg fun hb => hab hx (List.mem_of_head? hb)
  constructor
  · refine ha.join hsecond.2 hab (fun x hx => ?_) fun x hx => ?_
    · rw [hnext x (by simpa using (List.mem_append.mp hx).imp_right .inr), if_neg (hlast hx)]
      by_cases hx' : a.getLast? = some x
      · rw [if_pos hx', if_pos hx']
      · simp [next₂, next₁, hlast hx, hx']
    · rw [hprev x (by simpa using (List.mem_append.mp hx).imp_right .inr), if_neg (hhead hx)]
      by_cases hx' : b.head? = some x
      · rw [if_pos hx', if_pos hx']
      · have hmb' : (m ++ b).head? ≠ some x := by
          cases m with
          | nil => exact hx'
          | cons y m => exact hhead hx
        rw [if_neg hx', if_neg hx']
        exact ((if_neg hx').trans (if_neg hmb')).symm
  · refine hsecond.1.congr (fun x hx => ?_) fun x hx => ?_
    · have hout : a.getLast? ≠ some x := fun ha => ham (List.mem_of_getLast? ha) hx
      rw [hnext x (by simp [hx]), if_neg hout]
      simp [next₂, next₁, hout]
    · have hout : b.head? ≠ some x := fun hb => hmb hx (List.mem_of_head? hb)
      rw [hprev x (by simp [hx]), if_neg hout]
      cases m with
      | nil => cases hx
      | cons y m => simp [prev₂, prev₁, hout]

end Seams

/-! ## Walking -/

/-- `k` steps along the pointers. -/
def follow (step : ν → Option ν) : Nat → ν → Option ν
  | 0, x => some x
  | k + 1, x => (step x).bind (follow step k)

/-- At most `k` steps along the pointers: the last node and the number of steps. -/
def advance (step : ν → Option ν) : Nat → ν → ν × Nat
  | 0, x => (x, 0)
  | k + 1, x =>
    match step x with
    | none => (x, 0)
    | some y => ((advance step k y).1, (advance step k y).2 + 1)

/-- From one node of a strand to the node `k` places on. -/
theorem Strand.follow_eq {a b : List ν} {x : ν} (h : Strand next prev (a ++ x :: b)) (k : Nat) :
    follow next k x = (x :: b)[k]? := by
  induction k generalizing a x b with
  | zero => rfl
  | succ k ih =>
    rw [follow, h.next_eq rfl]
    cases b with
    | nil => rfl
    | cons y b =>
      rw [List.head?_cons, Option.bind_some, List.getElem?_cons_succ]
      exact ih (a := a ++ [x]) (by simpa using h)

/-- Walking on from a node of a strand ends at the last of the nodes passed. -/
theorem Strand.advance_eq {a b : List ν} {x : ν} (h : Strand next prev (a ++ x :: b)) (k : Nat) :
    ((x :: b).take (k + 1)).getLast? = some (advance next k x).1 ∧
      ((x :: b).take (k + 1)).length = (advance next k x).2 + 1 := by
  induction k generalizing a x b with
  | zero => simp [advance]
  | succ k ih =>
    rw [advance, h.next_eq rfl]
    cases b with
    | nil => simp
    | cons y b =>
      obtain ⟨hlast, hlength⟩ := ih (a := a ++ [x]) (x := y) (b := b) (by simpa using h)
      rw [List.take_succ_cons, List.head?_cons]
      refine ⟨?_, by rw [List.length_cons, hlength]⟩
      rw [← hlast, List.take_succ_cons, List.getLast?_cons_cons]

/-! ## Several lists in one store -/

section Strands

variable {ρ : Type*} {f : ρ → List ν}

/-- A family of strands without common nodes. -/
structure Strands (next prev : ν → Option ν) (f : ρ → List ν) : Prop where
  strand : ∀ r, Strand next prev (f r)
  unique : ∀ {r q x}, x ∈ f r → x ∈ f q → r = q

/-- Writing pointers of the nodes of one list leaves the other strands. -/
theorem Strands.frame (h : Strands next prev f) {r q : ρ} (hq : q ≠ r)
    (hnext : ∀ x, x ∉ f r → next' x = next x) (hprev : ∀ x, x ∉ f r → prev' x = prev x) :
    Strand next' prev' (f q) :=
  (h.strand q).congr (fun x hx => hnext x fun hr => hq (h.unique hx hr)) fun x hx =>
    hprev x fun hr => hq (h.unique hx hr)

variable [DecidableEq ν] [DecidableEq ρ]

/-- A part of one list is taken out. -/
theorem Strands.remove (h : Strands next prev f) {r : ρ} {a m b : List ν}
    (hr : f r = a ++ (m ++ b))
    (hnext : ∀ x, next' x =
      if m.getLast? = some x then none else if a.getLast? = some x then b.head? else next x)
    (hprev : ∀ x, prev' x =
      if m.head? = some x then none else if b.head? = some x then a.getLast? else prev x) :
    Strands next' prev' (Function.update f r (a ++ b)) := by
  have hcut := (hr ▸ h.strand r).cut (fun x _ => hnext x) fun x _ => hprev x
  have hsub {x : ν} (hx : x ∈ a ++ b) : x ∈ f r := by
    rw [hr]
    simpa using (List.mem_append.mp hx).imp_right .inr
  constructor
  · intro q
    by_cases hq : q = r
    · subst hq
      simpa using hcut.1
    · rw [Function.update_of_ne hq]
      refine h.frame hq (fun x hx => ?_) fun x hx => ?_
      · rw [hr] at hx
        rw [hnext, if_neg fun hm => hx (by simp [List.mem_of_getLast? hm]),
          if_neg fun ha => hx (by simp [List.mem_of_getLast? ha])]
      · rw [hr] at hx
        rw [hprev, if_neg fun hm => hx (by simp [List.mem_of_head? hm]),
          if_neg fun hb => hx (by simp [List.mem_of_head? hb])]
  · have hmem {q : ρ} {x : ν} (hx : x ∈ Function.update f r (a ++ b) q) : x ∈ f q := by
      by_cases hq : q = r
      · subst hq
        exact hsub (by simpa using hx)
      · rwa [Function.update_of_ne hq] at hx
    intro _ _ _ hx hx'
    exact h.unique (hmem hx) (hmem hx')

/-- A part of one list is taken out and becomes a list of its own. -/
theorem Strands.cut (h : Strands next prev f) {r q : ρ} (hne : q ≠ r) (hq : f q = [])
    {a m b : List ν} (hr : f r = a ++ (m ++ b))
    (hnext : ∀ x, next' x =
      if m.getLast? = some x then none else if a.getLast? = some x then b.head? else next x)
    (hprev : ∀ x, prev' x =
      if m.head? = some x then none else if b.head? = some x then a.getLast? else prev x) :
    Strands next' prev' (Function.update (Function.update f r (a ++ b)) q m) := by
  have hremove := h.remove hr hnext hprev
  have hcut := (hr ▸ h.strand r).cut (fun x _ => hnext x) fun x _ => hprev x
  have hout {r' : ρ} {x : ν} (hx : x ∈ m) : x ∉ Function.update f r (a ++ b) r' := by
    have hxr : x ∈ f r := by
      rw [hr]
      simp [hx]
    by_cases hr' : r' = r
    · subst hr'
      have hnodup := (h.strand r').nodup
      rw [hr] at hnodup
      simp only [List.nodup_append', List.disjoint_append_right] at hnodup
      obtain ⟨_, ⟨_, _, hmb⟩, ham, _⟩ := hnodup
      rw [Function.update_self, List.mem_append, not_or]
      exact ⟨fun ha => ham ha hx, hmb hx⟩
    · rw [Function.update_of_ne hr']
      exact fun hx' => hr' (h.unique hx' hxr)
  constructor
  · intro r'
    by_cases hr' : r' = q
    · subst hr'
      simpa using hcut.2
    · rw [Function.update_of_ne hr']
      exact hremove.strand r'
  · intro r₁ r₂ x hx₁ hx₂
    by_cases h₁ : r₁ = q
    · by_cases h₂ : r₂ = q
      · rw [h₁, h₂]
      · rw [h₁, Function.update_self] at hx₁
        rw [Function.update_of_ne h₂] at hx₂
        exact absurd hx₂ (hout hx₁)
    · rw [Function.update_of_ne h₁] at hx₁
      by_cases h₂ : r₂ = q
      · rw [h₂, Function.update_self] at hx₂
        exact absurd hx₁ (hout hx₂)
      · rw [Function.update_of_ne h₂] at hx₂
        exact hremove.unique hx₁ hx₂

/-- One list is put behind another. -/
theorem Strands.join (h : Strands next prev f) {r q : ρ} (hne : q ≠ r)
    (hnext : ∀ x, next' x = if (f r).getLast? = some x then (f q).head? else next x)
    (hprev : ∀ x, prev' x = if (f q).head? = some x then (f r).getLast? else prev x) :
    Strands next' prev' (Function.update (Function.update f r (f r ++ f q)) q []) := by
  have hdisjoint : (f r).Disjoint (f q) := fun x hr hq => hne (h.unique hq hr)
  constructor
  · intro r'
    by_cases hq : r' = q
    · rw [hq, Function.update_self]
      exact .nil
    · rw [Function.update_of_ne hq]
      by_cases hr : r' = r
      · rw [hr, Function.update_self]
        exact (h.strand r).join (h.strand q) hdisjoint (fun x _ => hnext x) fun x _ => hprev x
      · rw [Function.update_of_ne hr]
        refine (h.strand r').congr (fun x hx => ?_) fun x hx => ?_
        · rw [hnext, if_neg fun hl => hr (h.unique hx (List.mem_of_getLast? hl))]
        · rw [hprev, if_neg fun hl => hq (h.unique hx (List.mem_of_head? hl))]
  · have hmem {r' : ρ} {x : ν}
        (hx : x ∈ Function.update (Function.update f r (f r ++ f q)) q [] r') :
        x ∈ f r' ∨ r' = r ∧ x ∈ f q := by
      by_cases hq : r' = q
      · rw [hq, Function.update_self] at hx
        cases hx
      · rw [Function.update_of_ne hq] at hx
        by_cases hr : r' = r
        · rw [hr, Function.update_self] at hx
          exact (List.mem_append.mp hx).imp (hr ▸ id) fun hx => ⟨hr, hx⟩
        · rw [Function.update_of_ne hr] at hx
          exact .inl hx
    have hout {x : ν} (hx : x ∈ Function.update (Function.update f r (f r ++ f q)) q [] q) :
        False := by
      rw [Function.update_self] at hx
      cases hx
    intro r₁ r₂ x hx₁ hx₂
    rcases hmem hx₁ with h₁ | ⟨rfl, h₁⟩ <;> rcases hmem hx₂ with h₂ | ⟨rfl, h₂⟩
    · exact h.unique h₁ h₂
    · exact (hout (h.unique h₁ h₂ ▸ hx₁)).elim
    · exact (hout (h.unique h₂ h₁ ▸ hx₂)).elim
    · rfl

/-- A node that is in no list is put at the end of one. -/
theorem Strands.add (h : Strands next prev f) {r : ρ} {t : ν} (ht : ∀ q, t ∉ f q)
    (hnext : ∀ x, next' x =
      if x = t then none else if (f r).getLast? = some x then some t else next x)
    (hprev : ∀ x, prev' x = if x = t then (f r).getLast? else prev x) :
    Strands next' prev' (Function.update f r (f r ++ [t])) := by
  have hne {q : ρ} {x : ν} (hx : x ∈ f q) : x ≠ t := fun hxt => ht q (hxt ▸ hx)
  constructor
  · intro q
    by_cases hq : q = r
    · rw [hq, Function.update_self]
      have hself : Strand (Function.update next t none) (Function.update prev t none) [t] :=
        .singleton (by simp) (by simp)
      have hrest : Strand (Function.update next t none) (Function.update prev t none) (f r) :=
        (h.strand r).congr (fun x hx => Function.update_of_ne (hne hx) ..) fun x hx =>
          Function.update_of_ne (hne hx) ..
      refine hrest.join hself (by simpa using ht r) (fun x _ => ?_) fun x _ => ?_
      · rw [hnext]
        by_cases hx : x = t
        · subst hx
          rw [if_pos rfl, if_neg fun hl => ht r (List.mem_of_getLast? hl), Function.update_self]
        · rw [if_neg hx, Function.update_of_ne hx]
          rfl
      · rw [hprev]
        by_cases hx : x = t
        · simp [hx]
        · simp [hx, Ne.symm hx]
    · rw [Function.update_of_ne hq]
      refine (h.strand q).congr (fun x hx => ?_) fun x hx => ?_
      · rw [hnext, if_neg (hne hx), if_neg fun hl => hq (h.unique hx (List.mem_of_getLast? hl))]
      · rw [hprev, if_neg (hne hx)]
  · have hmem {q : ρ} {x : ν} (hx : x ∈ Function.update f r (f r ++ [t]) q) :
        x ∈ f q ∨ q = r ∧ x = t := by
      by_cases hq : q = r
      · rw [hq, Function.update_self] at hx
        simpa [hq] using hx
      · rw [Function.update_of_ne hq] at hx
        exact .inl hx
    intro r₁ r₂ x hx₁ hx₂
    rcases hmem hx₁ with h₁ | ⟨rfl, rfl⟩ <;> rcases hmem hx₂ with h₂ | ⟨rfl, h₂⟩
    · exact h.unique h₁ h₂
    · exact absurd h₂ (hne h₁)
    · exact absurd h₂ (ht _)
    · rfl

end Strands

end AsioCoroFrame
