import AsioCoroFrame.Models.Libgo.TSQueue
import Mathlib.Algebra.Ring.Nat

/-!
# The queues as lists

Any number of queues in one store, and the lists that threads carry between them, behave
under every interleaving as plain lists do, as long as the callers keep to a few rules. So
no element is lost when processers take work from one another.
-/

namespace AsioCoroFrame.Libgo

variable {ν χ : Type} [DecidableEq ν]

/-! ## The lists -/

/-- The elements of the queues and of the lists that are carried, and the `check_` of the latter. -/
structure Lists (ι κ ν χ : Type) where
  queue : ι → List ν
  hand : κ → List ν
  origin : κ → Option χ

section Lists

variable {ι κ : Type} [DecidableEq ι] [DecidableEq κ] (check : ι → χ)

/-- A thread takes elements from a queue and leaves the rest. -/
def Lists.carry (l : Lists ι κ ν χ) (i : ι) (k : κ) (rest taken : List ν) : Lists ι κ ν χ where
  queue := Function.update l.queue i rest
  hand := Function.update l.hand k taken
  origin := Function.update l.origin k (if taken = [] then none else some (check i))

/-- One operation. -/
def Lists.step (l : Lists ι κ ν χ) : QueueOp ι κ ν → Lists ι κ ν χ × QueueResult ν
  | .push i t =>
    ({ l with queue := Function.update l.queue i (l.queue i ++ [t]) }, .nothing)
  | .pop i =>
    ({ l with queue := Function.update l.queue i (l.queue i).tail }, .element (l.queue i).head?)
  | .pushList i k =>
    ({ queue := Function.update l.queue i (l.queue i ++ l.hand k)
       hand := Function.update l.hand k []
       origin := Function.update l.origin k none }, .nothing)
  | .popFront i k n =>
    (l.carry check i k ((l.queue i).drop (max n 1)) ((l.queue i).take (max n 1)), .nothing)
  | .popBack i k n =>
    (l.carry check i k ((l.queue i).take ((l.queue i).length - max n 1))
      ((l.queue i).drop ((l.queue i).length - max n 1)), .nothing)
  | .popAll i k => (l.carry check i k [] (l.queue i), .nothing)
  | .erase i t =>
    ({ l with queue := Function.update l.queue i ((l.queue i).erase t) },
      .found (decide (t ∈ l.queue i)))
  | .size i => (l, .count (l.queue i).length)

/-- Several operations and what they return. -/
def Lists.run (l : Lists ι κ ν χ) : List (QueueOp ι κ ν) → Lists ι κ ν χ × List (QueueResult ν)
  | [] => (l, [])
  | op :: ops =>
    (((l.step check op).1.run ops).1, (l.step check op).2 :: ((l.step check op).1.run ops).2)

/-- An element that is in no queue and in no list. -/
def Lists.Free (l : Lists ι κ ν χ) (t : ν) : Prop := (∀ i, t ∉ l.queue i) ∧ ∀ k, t ∉ l.hand k

/-- What the callers see to: they push only elements that are free, take a list only when they
carry none, put a list back only into a queue of the same `check_`, and erase no element that is
somewhere else under the same `check_`. -/
def Lists.Allowed (head : ι → ν) (l : Lists ι κ ν χ) : QueueOp ι κ ν → Prop
  | .push _ t => l.Free t ∧ ∀ j, t ≠ head j
  | .popFront _ k _ | .popBack _ k _ | .popAll _ k => l.hand k = []
  | .pushList i k => l.hand k = [] ∨ l.origin k = some (check i)
  | .erase i t =>
    (∀ j, j ≠ i → t ∈ l.queue j → check j ≠ check i) ∧
      ∀ k, t ∈ l.hand k → l.origin k ≠ some (check i)
  | .pop _ | .size _ => True

/-- The callers see to it all along. -/
def Lists.AllowedRun (head : ι → ν) (l : Lists ι κ ν χ) : List (QueueOp ι κ ν) → Prop
  | [] => True
  | op :: ops =>
    l.Allowed check head op ∧ AllowedRun head (l.step check op).1 ops

/-- The hooks of each queue and of each list. -/
def Lists.nodes (head : ι → ν) (l : Lists ι κ ν χ) : ι ⊕ κ → List ν :=
  Sum.elim (fun i => head i :: l.queue i) l.hand

/-- The hooks spell the lists, and an element has one reference more while it is in one. -/
structure Represents (head : ι → ν) (owners : ν → Nat) (s : Queues ι κ ν χ)
    (l : Lists ι κ ν χ) : Prop where
  strands : Strands s.store.next s.store.prev (l.nodes head)
  head_eq : ∀ i, (s.queue i).head = head i
  check_eq : ∀ i, (s.queue i).check = check i
  fits : ∀ i, (s.queue i).Fits (l.queue i)
  hand_eq : ∀ k, s.hand k = .of (l.hand k) (l.origin k)
  origin_iff : ∀ k, l.origin k = none ↔ l.hand k = []
  queued : ∀ {i t}, t ∈ l.queue i →
    s.store.check t = some (check i) ∧ s.store.refs t = owners t + 1
  carried : ∀ {k t}, t ∈ l.hand k →
    s.store.check t = l.origin k ∧ s.store.refs t = owners t + 1
  free : ∀ {t}, l.Free t → s.store.check t = none ∧ s.store.refs t = owners t

variable {check} {head : ι → ν} {owners : ν → Nat} {s : Queues ι κ ν χ} {l : Lists ι κ ν χ}

omit [DecidableEq ν] in
theorem Lists.nodes_queue (l : Lists ι κ ν χ) (i : ι) (rest : List ν) :
    ({ l with queue := Function.update l.queue i rest } : Lists ι κ ν χ).nodes head =
      Function.update (l.nodes head) (.inl i) (head i :: rest) := by
  funext r
  cases r with
  | inl j =>
    by_cases hj : j = i
    · subst hj
      simp [nodes]
    · simp [nodes, hj]
  | inr k => simp [nodes]

omit [DecidableEq ν] in
theorem Lists.nodes_hand (l : Lists ι κ ν χ) (i : ι) (k : κ) (rest taken : List ν)
    (origin : κ → Option χ) :
    (⟨Function.update l.queue i rest, Function.update l.hand k taken, origin⟩ :
      Lists ι κ ν χ).nodes head =
      Function.update (Function.update (l.nodes head) (.inl i) (head i :: rest)) (.inr k)
        taken := by
  rw [← nodes_queue]
  funext r
  cases r with
  | inl j => simp [nodes]
  | inr k' =>
    by_cases hk : k' = k
    · subst hk
      simp [nodes]
    · simp [nodes, hk]

omit [DecidableEq ν] [DecidableEq ι] [DecidableEq κ] in
/-- The hooks of one queue. -/
theorem Represents.strand (h : Represents check head owners s l) (i : ι) :
    Strand s.store.next s.store.prev ((s.queue i).head :: l.queue i) := by
  rw [h.head_eq]
  exact h.strands.strand (.inl i)

omit [DecidableEq ν] [DecidableEq ι] [DecidableEq κ] in
/-- An element is in one queue at most. -/
theorem Represents.queue_unique (h : Represents check head owners s l) {i j : ι} {t : ν}
    (hi : t ∈ l.queue i) (hj : t ∈ l.queue j) : j = i :=
  Sum.inl.inj (h.strands.unique (r := .inl j) (q := .inl i) (List.mem_cons_of_mem _ hj)
    (List.mem_cons_of_mem _ hi))

omit [DecidableEq ν] [DecidableEq ι] [DecidableEq κ] in
/-- An element of a queue is in no list. -/
theorem Represents.not_carried (h : Represents check head owners s l) {i : ι} {t : ν}
    (hi : t ∈ l.queue i) (k : κ) : t ∉ l.hand k := fun hk => by
  cases h.strands.unique (r := .inl i) (q := .inr k) (List.mem_cons_of_mem _ hi) hk

omit [DecidableEq ν] [DecidableEq κ] in
/-- The fields of the queues after one of them has changed. -/
theorem Represents.put_fields (h : Represents check head owners s l) {i : ι} {rest : List ν}
    (store : Store ν χ) {q : TSQueue ν χ} (hhead : q.head = (s.queue i).head)
    (hcheck : q.check = (s.queue i).check) (hfits : q.Fits rest) (j : ι) :
    ((s.put i store q).queue j).head = head j ∧ ((s.put i store q).queue j).check = check j ∧
      ((s.put i store q).queue j).Fits (Function.update l.queue i rest j) := by
  by_cases hj : j = i
  · subst hj
    simp [Queues.put, hhead, hcheck, h.head_eq, h.check_eq, hfits]
  · simp [Queues.put, hj, h.head_eq, h.check_eq, h.fits]

/-- An element is taken out of a queue. -/
theorem Represents.remove (h : Represents check head owners s l) {i : ι} {a b : List ν} {t : ν}
    (hl : l.queue i = a ++ t :: b) {store : Store ν χ} {q : TSQueue ν χ}
    (htook : TSQueue.Took s.store store (s.queue i) q a [t] b)
    (hcheck : store.check = Function.update s.store.check t none)
    (hrefs : store.refs = Function.update s.store.refs t (s.store.refs t - 1)) :
    Represents check head owners (s.put i store q)
      { l with queue := Function.update l.queue i (a ++ b) } := by
  have ht : t ∈ l.queue i := by simp [hl]
  have hnext := htook.next
  have hprev := htook.prev
  rw [h.head_eq] at hnext hprev
  have hnodes : l.nodes head (.inl i) = (head i :: a) ++ ([t] ++ b) := by
    simp [Lists.nodes, hl]
  have hnodup : (a ++ t :: b).Nodup := by
    have := (h.strands.strand (.inl i)).nodup
    rw [Lists.nodes, Sum.elim_inl, List.nodup_cons, hl] at this
    exact this.2
  have hout : t ∉ a ++ b := by
    rw [List.nodup_middle, List.nodup_cons] at hnodup
    exact hnodup.1
  have hmem {j : ι} {u : ν} (hu : u ∈ Function.update l.queue i (a ++ b) j) :
      u ∈ l.queue j ∧ u ≠ t := by
    by_cases hj : j = i
    · subst hj
      rw [Function.update_self] at hu
      refine ⟨?_, fun hut => hout (hut ▸ hu)⟩
      rw [hl]
      simpa using (List.mem_append.mp hu).imp_right .inr
    · rw [Function.update_of_ne hj] at hu
      exact ⟨hu, fun hut => hj (h.queue_unique ht (hut ▸ hu))⟩
  have hfields := h.put_fields store htook.head htook.check htook.fits
  refine ⟨?_, fun j => (hfields j).1, fun j => (hfields j).2.1, fun j => (hfields j).2.2,
    h.hand_eq, h.origin_iff, fun {j u} hu => ?_, fun {k u} hu => ?_, fun {u} hu => ?_⟩
  · rw [Lists.nodes_queue]
    exact h.strands.remove hnodes hnext hprev
  · obtain ⟨hu, hut⟩ := hmem hu
    change store.check u = _ ∧ store.refs u = _
    rw [hcheck, hrefs, Function.update_of_ne hut, Function.update_of_ne hut]
    exact h.queued hu
  · have hut : u ≠ t := fun hut => h.not_carried ht k (hut ▸ hu)
    change store.check u = _ ∧ store.refs u = _
    rw [hcheck, hrefs, Function.update_of_ne hut, Function.update_of_ne hut]
    exact h.carried hu
  · change store.check u = _ ∧ store.refs u = _
    rw [hcheck, hrefs]
    by_cases hut : u = t
    · subst hut
      simp [(h.queued ht).2]
    · rw [Function.update_of_ne hut, Function.update_of_ne hut]
      refine h.free ⟨fun j hj => hu.1 j ?_, hu.2⟩
      by_cases hji : j = i
      · subst hji
        rw [hl] at hj
        simpa [hut] using hj
      · simpa [hji] using hj

/-- A thread takes a part of a queue. -/
theorem Represents.carry (h : Represents check head owners s l) {i : ι} {k : κ} {a m b : List ν}
    (hk : l.hand k = []) (hl : l.queue i = a ++ (m ++ b)) (hm : m ≠ []) {store : Store ν χ}
    {q : TSQueue ν χ} (htook : TSQueue.Took s.store store (s.queue i) q a m b)
    (hcheck : store.check = s.store.check) (hrefs : store.refs = s.store.refs) :
    Represents check head owners (s.carry i k (store, q, .of m (some (s.queue i).check))).1
      (l.carry check i k (a ++ b) m) := by
  have hnext := htook.next
  have hprev := htook.prev
  rw [h.head_eq] at hnext hprev
  have hnodes : l.nodes head (.inl i) = (head i :: a) ++ (m ++ b) := by
    simp [Lists.nodes, hl]
  have hfields := h.put_fields store htook.head htook.check htook.fits
  refine ⟨?_, fun j => (hfields j).1, fun j => (hfields j).2.1, fun j => (hfields j).2.2,
    fun k' => ?_, fun k' => ?_, fun {j u} hu => ?_, fun {k' u} hu => ?_, fun {u} hu => ?_⟩
  · rw [Lists.carry, Lists.nodes_hand]
    exact h.strands.cut (q := .inr k) (by simp) hk hnodes hnext hprev
  · by_cases hkk : k' = k
    · subst hkk
      simp [Queues.carry, Lists.carry, hm, h.check_eq]
    · simp [Queues.carry, Queues.put, Lists.carry, hkk, h.hand_eq]
  · by_cases hkk : k' = k
    · subst hkk
      simp [Lists.carry, hm]
    · simp only [Lists.carry, Function.update_of_ne hkk]
      exact h.origin_iff k'
  · change store.check u = _ ∧ store.refs u = _
    rw [hcheck, hrefs]
    refine h.queued ?_
    by_cases hj : j = i
    · subst hj
      rw [hl]
      simp only [Lists.carry, Function.update_self] at hu
      simpa using (List.mem_append.mp hu).imp_right .inr
    · simpa [Lists.carry, hj] using hu
  · change store.check u = _ ∧ store.refs u = _
    rw [hcheck, hrefs]
    by_cases hkk : k' = k
    · subst hkk
      simp only [Lists.carry, Function.update_self] at hu ⊢
      rw [if_neg hm]
      exact h.queued (by simp [hl, hu])
    · simp only [Lists.carry, Function.update_of_ne hkk] at hu ⊢
      exact h.carried hu
  · change store.check u = _ ∧ store.refs u = _
    rw [hcheck, hrefs]
    refine h.free ⟨fun j hj => ?_, fun k' hk' => ?_⟩
    · by_cases hji : j = i
      · subst hji
        have hout := hu.1 j
        have hout' := hu.2 k
        simp only [Lists.carry, Function.update_self, List.mem_append, not_or] at hout hout'
        rw [hl] at hj
        simp only [List.mem_append] at hj
        rcases hj with hj | hj | hj
        · exact hout.1 hj
        · exact hout' hj
        · exact hout.2 hj
      · exact hu.1 j (by simpa [Lists.carry, hji] using hj)
    · by_cases hkk : k' = k
      · subst hkk
        rw [hk] at hk'
        cases hk'
      · exact hu.2 k' (by simpa [Lists.carry, hkk] using hk')

variable [DecidableEq χ]

/-- An element that is free is put at the end of a queue. -/
theorem Represents.push (h : Represents check head owners s l) {i : ι} {t : ν} (ht : l.Free t)
    (hhead : ∀ j, t ≠ head j) :
    ∃ s', s.step (.push i t) = some (s', .nothing) ∧ Represents check head owners s'
      { l with queue := Function.update l.queue i (l.queue i ++ [t]) } := by
  obtain ⟨store, q, heq, hqhead, hqcheck, hfits, hnext, hprev, hcheck, hrefs⟩ :=
    TSQueue.push_eq (s := s.store) (h.fits i) t
  refine ⟨s.put i store q, by rw [Queues.step, heq], ?_⟩
  rw [h.head_eq] at hnext hprev
  have hfields := h.put_fields store hqhead hqcheck hfits
  have hmem {j : ι} {u : ν} (hu : u ∈ Function.update l.queue i (l.queue i ++ [t]) j) :
      u ∈ l.queue j ∧ u ≠ t ∨ j = i ∧ u = t := by
    by_cases hj : j = i
    · subst hj
      simp only [Function.update_self, List.mem_append, List.mem_singleton] at hu
      exact hu.imp (fun hu => ⟨hu, fun hut => ht.1 j (hut ▸ hu)⟩) fun hut => ⟨rfl, hut⟩
    · rw [Function.update_of_ne hj] at hu
      exact .inl ⟨hu, fun hut => ht.1 j (hut ▸ hu)⟩
  refine ⟨?_, fun j => (hfields j).1, fun j => (hfields j).2.1, fun j => (hfields j).2.2,
    h.hand_eq, h.origin_iff, fun {j u} hu => ?_, fun {k u} hu => ?_, fun {u} hu => ?_⟩
  · rw [Lists.nodes_queue]
    refine h.strands.add (r := .inl i) (fun r => ?_) hnext hprev
    cases r with
    | inl j => simp [Lists.nodes, hhead j, ht.1 j]
    | inr k => exact ht.2 k
  · change store.check u = _ ∧ store.refs u = _
    rw [hcheck, hrefs]
    rcases hmem hu with ⟨hu, hut⟩ | ⟨rfl, rfl⟩
    · rw [Function.update_of_ne hut, Function.update_of_ne hut]
      exact h.queued hu
    · simp [h.check_eq, (h.free ht).2]
  · have hut : u ≠ t := fun hut => ht.2 k (hut ▸ hu)
    change store.check u = _ ∧ store.refs u = _
    rw [hcheck, hrefs, Function.update_of_ne hut, Function.update_of_ne hut]
    exact h.carried hu
  · have hut : u ≠ t := fun hut => hu.1 i (by simp [hut])
    change store.check u = _ ∧ store.refs u = _
    rw [hcheck, hrefs, Function.update_of_ne hut, Function.update_of_ne hut]
    refine h.free ⟨fun j hj => hu.1 j ?_, hu.2⟩
    by_cases hji : j = i
    · subst hji
      simp [hj]
    · simpa [hji] using hj

omit [DecidableEq ν] [DecidableEq χ] in
theorem Queues.carry_self (s : Queues ι κ ν χ) (i : ι) (k : κ) :
    s.carry i k (s.store, s.queue i, s.hand k) = (s, .nothing) := by
  simp [carry, put]

omit [DecidableEq ν] [DecidableEq χ] in
theorem Lists.carry_nil {i : ι} {k : κ} (hi : l.queue i = []) (hk : l.hand k = [])
    (horigin : l.origin k = none) : l.carry check i k [] [] = l := by
  have hqueue : Function.update l.queue i [] = l.queue := by rw [← hi, Function.update_eq_self]
  have hhand : Function.update l.hand k [] = l.hand := by rw [← hk, Function.update_eq_self]
  have hclear : Function.update l.origin k none = l.origin := by
    rw [← horigin, Function.update_eq_self]
  rw [carry, if_pos rfl, hqueue, hhand, hclear]

omit [DecidableEq ν] [DecidableEq ι] [DecidableEq κ] [DecidableEq χ] in
theorem Represents.hand_new (h : Represents check head owners s l) {k : κ} (hk : l.hand k = []) :
    s.hand k = .new := by
  rw [h.hand_eq, hk, (h.origin_iff k).mpr hk]
  rfl

/-- A list is put back at the end of a queue. -/
theorem Represents.pushList (h : Represents check head owners s l) {i : ι} {k : κ}
    (hok : l.hand k = [] ∨ l.origin k = some (check i)) :
    ∃ s', s.step (.pushList i k) = some (s', .nothing) ∧ Represents check head owners s'
      (l.step check (.pushList i k)).1 := by
  by_cases hk : l.hand k = []
  · have hqueue : Function.update l.queue i (l.queue i ++ []) = l.queue := by simp
    have hhand : Function.update l.hand k [] = l.hand := by rw [← hk, Function.update_eq_self]
    have hclear : Function.update l.origin k none = l.origin := by
      rw [← (h.origin_iff k).mpr hk, Function.update_eq_self]
    have hl : (l.step check (.pushList i k)).1 = l := by
      rw [Lists.step, hk, hqueue, hhand, hclear]
    refine ⟨s, ?_, by rwa [hl]⟩
    rw [Queues.step, h.hand_new hk, TSQueue.pushList_nil, ← h.hand_new hk]
    exact congrArg some (s.carry_self i k)
  · have hout : (s.queue i).tail ∉ l.hand k := by
      intro hmem
      have htail := List.mem_of_getLast? (h.fits i).tail
      rw [h.head_eq] at htail
      cases h.strands.unique (r := .inl i) (q := .inr k) htail hmem
    have hstrand : Strand s.store.next s.store.prev (l.hand k) := h.strands.strand (.inr k)
    obtain ⟨store, q, heq, hqhead, hqcheck, hfits, hnext, hprev, hcheck, hrefs⟩ :=
      TSQueue.pushList_eq hstrand (h.fits i) hk hout
    have hhand : s.hand k = .of (l.hand k) (some (s.queue i).check) := by
      rw [h.hand_eq, hok.resolve_left hk, h.check_eq]
    refine ⟨(s.carry i k (store, q, .new)).1, ?_, ?_⟩
    · rw [Queues.step, hhand, heq]
      rfl
    rw [h.head_eq] at hnext hprev
    have hfields := h.put_fields store hqhead hqcheck hfits
    refine ⟨?_, fun j => (hfields j).1, fun j => (hfields j).2.1, fun j => (hfields j).2.2,
      fun k' => ?_, fun k' => ?_, fun {j u} hu => ?_, fun {k' u} hu => ?_, fun {u} hu => ?_⟩
    · rw [Lists.step, Lists.nodes_hand]
      exact h.strands.join (r := .inl i) (q := .inr k) (by simp) hnext hprev
    · by_cases hkk : k' = k
      · subst hkk
        simp [Queues.carry, Lists.step, SList.of, SList.new]
      · simp [Queues.carry, Queues.put, Lists.step, hkk, h.hand_eq]
    · by_cases hkk : k' = k
      · subst hkk
        simp [Lists.step]
      · simp only [Lists.step, Function.update_of_ne hkk]
        exact h.origin_iff k'
    · change store.check u = _ ∧ store.refs u = _
      rw [hcheck, hrefs]
      by_cases hj : j = i
      · subst hj
        simp only [Lists.step, Function.update_self, List.mem_append] at hu
        rcases hu with hu | hu
        · exact h.queued hu
        · rw [← hok.resolve_left hk]
          exact h.carried hu
      · exact h.queued (by simpa [Lists.step, hj] using hu)
    · change store.check u = _ ∧ store.refs u = _
      rw [hcheck, hrefs]
      by_cases hkk : k' = k
      · subst hkk
        simp [Lists.step] at hu
      · simp only [Lists.step, Function.update_of_ne hkk] at hu ⊢
        exact h.carried hu
    · change store.check u = _ ∧ store.refs u = _
      rw [hcheck, hrefs]
      refine h.free ⟨fun j hj => hu.1 j ?_, fun k' hk' => ?_⟩
      · by_cases hji : j = i
        · subst hji
          simp [Lists.step, hj]
        · simpa [Lists.step, hji] using hj
      · by_cases hkk : k' = k
        · subst hkk
          exact hu.1 i (by simp [Lists.step, hk'])
        · exact hu.2 k' (by simpa [Lists.step, hkk] using hk')

omit [DecidableEq χ] in
/-- A list is taken, which is empty where the queue is. -/
theorem Represents.take (h : Represents check head owners s l) {i : ι} {k : κ}
    (hk : l.hand k = []) {r : Option (Store ν χ × TSQueue ν χ × SList ν χ)} {a m b : List ν}
    (hl : l.queue i = a ++ (m ++ b))
    (hnil : l.queue i = [] → r = some (s.store, s.queue i, .new))
    (hcons : l.queue i ≠ [] → m ≠ [] ∧ ∃ store q,
      r = some (store, q, .of m (some (s.queue i).check)) ∧
        TSQueue.Took s.store store (s.queue i) q a m b ∧ store.check = s.store.check ∧
        store.refs = s.store.refs) :
    ∃ s', r.map (s.carry i k) = some (s', .nothing) ∧
      Represents check head owners s' (l.carry check i k (a ++ b) m) := by
  by_cases hempty : l.queue i = []
  · have hparts := hl
    rw [hempty] at hparts
    obtain ⟨rfl, rfl, rfl⟩ : a = [] ∧ m = [] ∧ b = [] := by simpa using hparts.symm
    refine ⟨s, ?_, ?_⟩
    · rw [hnil hempty, ← h.hand_new hk]
      exact congrArg some (s.carry_self i k)
    · rw [List.append_nil, Lists.carry_nil hempty hk ((h.origin_iff k).mpr hk)]
      exact h
  · obtain ⟨hm, store, q, rfl, htook, hcheck, hrefs⟩ := hcons hempty
    exact ⟨_, rfl, h.carry hk hl hm htook hcheck hrefs⟩

/-- The operations behave as those on lists. -/
theorem Represents.step (h : Represents check head owners s l) {op : QueueOp ι κ ν}
    (hok : l.Allowed check head op) :
    ∃ s', s.step op = some (s', (l.step check op).2) ∧
      Represents check head owners s' (l.step check op).1 := by
  cases op with
  | push i t => exact h.push hok.1 hok.2
  | pop i =>
    cases hl : l.queue i with
    | nil =>
      have hstrand := h.strand i
      have hfits := h.fits i
      rw [hl] at hstrand hfits
      refine ⟨s, ?_, ?_⟩
      · rw [Queues.step, TSQueue.pop_nil hstrand hfits]
        simp [Queues.put, Lists.step, hl]
      · rw [Lists.step, hl, List.tail_nil, ← hl, Function.update_eq_self]
        exact h
    | cons t b =>
      have hstrand := h.strand i
      have hfits := h.fits i
      rw [hl] at hstrand hfits
      obtain ⟨store, q, heq, htook, hcheck, hrefs⟩ := TSQueue.pop_cons hstrand hfits
      refine ⟨s.put i store q, ?_, ?_⟩
      · rw [Queues.step, heq]
        simp [Lists.step, hl]
      · rw [Lists.step, hl]
        exact h.remove (a := []) hl htook hcheck hrefs
  | pushList i k => exact h.pushList hok
  | popFront i k n =>
    have hsplit := (List.take_append_drop (max n 1) (l.queue i)).symm
    refine h.take (a := []) hok hsplit (fun hl => ?_) fun hl => ⟨?_, ?_⟩
    · exact TSQueue.popFront_nil (hl ▸ h.strand i) (hl ▸ h.fits i) n
    · rw [Ne, List.take_eq_nil_iff]
      simp [hl]
    · exact TSQueue.popFront_eq (h.strand i) (h.fits i) hl n
  | popBack i k n =>
    have hsplit := (List.take_append_drop ((l.queue i).length - max n 1) (l.queue i)).symm
    rw [Lists.step, ← List.append_nil ((l.queue i).take _)]
    refine h.take hok (by rw [List.append_nil]; exact hsplit) (fun hl => ?_) fun hl => ⟨?_, ?_⟩
    · exact TSQueue.popBack_nil (hl ▸ h.strand i) (hl ▸ h.fits i) n
    · have := List.length_pos_iff.mpr hl
      rw [Ne, List.drop_eq_nil_iff]
      omega
    · exact TSQueue.popBack_eq (h.strand i) (h.fits i) hl n
  | popAll i k =>
    refine h.take (a := []) (b := []) hok (List.append_nil _).symm (fun hl => ?_) fun hl => ⟨hl, ?_⟩
    · exact TSQueue.popAll_nil (hl ▸ h.strand i) (hl ▸ h.fits i)
    · exact TSQueue.popAll_eq (h.strand i) (h.fits i) hl
  | erase i t =>
    by_cases ht : t ∈ l.queue i
    · obtain ⟨a, b, hl⟩ := List.append_of_mem ht
      have hstrand := h.strand i
      have hfits := h.fits i
      have hnodup := (List.nodup_cons.mp hstrand.nodup).2
      rw [hl] at hstrand hfits hnodup
      have hta : t ∉ a := fun ha =>
        (List.nodup_append'.mp hnodup).2.2 ha List.mem_cons_self
      have hcheck := (h.queued ht).1
      rw [← h.check_eq] at hcheck
      obtain ⟨store, q, heq, htook, hcheck, hrefs⟩ := TSQueue.erase_eq hstrand hfits hcheck
      refine ⟨s.put i store q, ?_, ?_⟩
      · rw [Queues.step, heq]
        simp [Lists.step, ht]
      · rw [Lists.step, hl, List.erase_append_right _ hta, List.erase_cons_head]
        exact h.remove hl htook hcheck hrefs
    · have hcheck : s.store.check t ≠ some (s.queue i).check := by
        rw [h.check_eq]
        intro hcheck
        by_cases hfree : l.Free t
        · rw [(h.free hfree).1] at hcheck
          cases hcheck
        · rcases not_and_or.mp hfree with hj | hk
          · obtain ⟨j, hj⟩ := not_forall_not.mp hj
            rw [(h.queued hj).1] at hcheck
            exact hok.1 j (fun hji => ht (hji ▸ hj)) hj (Option.some.inj hcheck)
          · obtain ⟨k, hk⟩ := not_forall_not.mp hk
            rw [(h.carried hk).1] at hcheck
            exact hok.2 k hk hcheck
      refine ⟨s, ?_, ?_⟩
      · rw [Queues.step, TSQueue.erase_absent hcheck]
        simp [Queues.put, Lists.step, ht]
      · rw [Lists.step, List.erase_of_not_mem ht, Function.update_eq_self]
        exact h
  | size i => exact ⟨s, by rw [Queues.step, (h.fits i).count]; rfl, h⟩

theorem Represents.run {ops : List (QueueOp ι κ ν)} (h : Represents check head owners s l)
    (hok : l.AllowedRun check head ops) :
    ∃ s', s.run ops = some (s', (l.run check ops).2) ∧
      Represents check head owners s' (l.run check ops).1 := by
  induction ops generalizing s l with
  | nil => exact ⟨s, rfl, h⟩
  | cons op ops ih =>
    obtain ⟨s', hstep, h'⟩ := h.step hok.1
    obtain ⟨s'', hrun, h''⟩ := ih h' hok.2
    refine ⟨s'', ?_, h''⟩
    rw [Queues.run, hstep, Option.bind_some]
    dsimp only
    rw [hrun]
    rfl

/-- New queues, and elements with their first references. -/
def Queues.new (head : ι → ν) (check : ι → χ) (owners : ν → Nat) : Queues ι κ ν χ where
  store := ⟨fun _ => none, fun _ => none, fun _ => none, owners⟩
  queue i := .new (head i) (check i)
  hand _ := .new

/-- No elements. -/
def Lists.new : Lists ι κ ν χ := ⟨fun _ => [], fun _ => [], fun _ => none⟩

omit [DecidableEq ν] [DecidableEq ι] [DecidableEq κ] [DecidableEq χ] in
theorem represents_new (hhead : Function.Injective head) :
    Represents check head owners (.new head check owners) (.new : Lists ι κ ν χ) where
  strands := by
    constructor
    · intro r
      cases r with
      | inl i => exact .singleton rfl rfl
      | inr k => exact .nil
    · intro r q x hr hq
      cases r with
      | inl i =>
        cases q with
        | inl j =>
          obtain rfl : x = head i := by simpa [Lists.nodes, Lists.new] using hr
          obtain hij : head i = head j := by simpa [Lists.nodes, Lists.new] using hq
          rw [hhead hij]
        | inr k => cases hq
      | inr k => cases hr
  head_eq _ := rfl
  check_eq _ := rfl
  fits _ := ⟨rfl, rfl⟩
  hand_eq _ := rfl
  origin_iff _ := by simp [Lists.new]
  queued hi := by cases hi
  carried hk := by cases hk
  free _ := ⟨rfl, rfl⟩

/-! ## No element is lost -/

/-- How often an element is put in by one operation. -/
def QueueOp.pushes (t : ν) : QueueOp ι κ ν → Nat
  | .push _ u => if u = t then 1 else 0
  | _ => 0

/-- How often an element comes out of one operation. -/
def QueueOp.removes (t : ν) : QueueOp ι κ ν → QueueResult ν → Nat
  | .pop _, .element (some u) => if u = t then 1 else 0
  | .erase _ u, .found true => if u = t then 1 else 0
  | _, _ => 0

/-- An element is in some queue or list. -/
def Store.held (s : Store ν χ) (t : ν) : Nat := if s.check t = none then 0 else 1

omit [DecidableEq χ] in
theorem TSQueue.pop_check {s s' : Store ν χ} {q q' : TSQueue ν χ} {r : Option ν}
    (h : q.pop s = some (s', q', r)) :
    s'.check = match r with
      | none => s.check
      | some t => Function.update s.check t none := by
  unfold pop at h
  split at h
  · cases h
    rfl
  · obtain ⟨t, _, heq⟩ := Option.map_eq_some_iff.mp h
    cases heq
    simp [Store.setPrevOf_check]

theorem TSQueue.erase_check {s s' : Store ν χ} {q q' : TSQueue ν χ} {t : ν} {b : Bool}
    (h : q.erase s t = some (s', q', b)) :
    s'.check = (if b then Function.update s.check t none else s.check) ∧
      (b = true → s.check t = some q.check) := by
  unfold erase at h
  split at h
  · rename_i ht
    obtain ⟨tail, _, heq⟩ := Option.map_eq_some_iff.mp h
    cases heq
    refine ⟨?_, fun _ => ht⟩
    cases s.prev t <;> simp [Store.setPrevOf_check]
  · cases h
    exact ⟨rfl, by simp⟩

omit [DecidableEq χ] in
theorem TSQueue.take_check {s s' : Store ν χ} {q q' : TSQueue ν χ} {elements : SList ν χ} {n : Nat}
    (h : q.popFront s n = some (s', q', elements) ∨ q.popBack s n = some (s', q', elements) ∨
      q.popAll s = some (s', q', elements)) : s'.check = s.check := by
  rcases h with h | h | h
  · unfold popFront at h
    split at h
    · cases h
      rfl
    · obtain ⟨t, _, heq⟩ := Option.map_eq_some_iff.mp h
      cases heq
      simp [Store.setPrevOf_check]
  · unfold popBack at h
    split at h
    · cases h
      rfl
    · obtain ⟨t, _, heq⟩ := Option.map_eq_some_iff.mp h
      cases heq
      rfl
  · unfold popAll at h
    split at h
    · cases h
      rfl
    · obtain ⟨t, _, heq⟩ := Option.map_eq_some_iff.mp h
      cases heq
      rfl

theorem TSQueue.pushList_check {s s' : Store ν χ} {q q' : TSQueue ν χ}
    {elements elements' : SList ν χ} (h : q.pushList s elements = some (s', q', elements')) :
    s'.check = s.check := by
  unfold pushList at h
  split at h
  · cases h
    rfl
  · split at h
    · obtain ⟨t, _, heq⟩ := Option.map_eq_some_iff.mp h
      cases heq
      rfl
    · cases h

/-- One operation puts an element in, takes it out, or leaves it where it is held. -/
theorem Represents.held_step (h : Represents check head owners s l) {op : QueueOp ι κ ν}
    (hok : l.Allowed check head op) {s' : Queues ι κ ν χ} {r : QueueResult ν}
    (hs : s.step op = some (s', r)) (t : ν) :
    s'.store.held t + op.removes t r = s.store.held t + op.pushes t := by
  have hsame (hcheck : s'.store.check = s.store.check) : s'.store.held t = s.store.held t := by
    rw [Store.held, Store.held, hcheck]
  cases op with
  | push i u =>
    cases hs
    have hfree := (h.free hok.1).1
    by_cases hut : u = t
    · subst hut
      simp [Store.held, hfree, Queues.put, QueueOp.pushes, QueueOp.removes]
    · have htu : t ≠ u := fun htu => hut htu.symm
      simp [Store.held, Queues.put, QueueOp.pushes, QueueOp.removes, hut, htu]
  | pop i =>
    obtain ⟨⟨store, q, u⟩, hpop, heq⟩ := Option.map_eq_some_iff.mp hs
    cases heq
    have hcheck := TSQueue.pop_check hpop
    cases u with
    | none => exact congrArg (· + 0) (hsame hcheck)
    | some u =>
      have hheld : s.store.check u ≠ none := by
        have hallowed : l.Allowed check head (.pop i) := trivial
        obtain ⟨s'', hs'', _⟩ := h.step hallowed
        rw [hs] at hs''
        have hhead : (l.queue i).head? = some u := by
          have := congrArg Prod.snd (Option.some.inj hs'')
          simpa [Lists.step] using this.symm
        rw [(h.queued (List.mem_of_head? hhead)).1]
        simp
      change Store.held store t + _ = _
      by_cases hut : u = t
      · subst hut
        simp [Store.held, hcheck, hheld, QueueOp.pushes, QueueOp.removes]
      · have htu : t ≠ u := fun htu => hut htu.symm
        simp [Store.held, hcheck, QueueOp.pushes, QueueOp.removes, hut, htu]
  | pushList i k =>
    obtain ⟨⟨store, q, elements⟩, hpush, heq⟩ := Option.map_eq_some_iff.mp hs
    cases heq
    exact congrArg (· + 0) (hsame (TSQueue.pushList_check hpush))
  | popFront i k n =>
    obtain ⟨⟨store, q, elements⟩, hpop, heq⟩ := Option.map_eq_some_iff.mp hs
    cases heq
    exact congrArg (· + 0) (hsame (TSQueue.take_check (.inl hpop)))
  | popBack i k n =>
    obtain ⟨⟨store, q, elements⟩, hpop, heq⟩ := Option.map_eq_some_iff.mp hs
    cases heq
    exact congrArg (· + 0) (hsame (TSQueue.take_check (n := n) (.inr (.inl hpop))))
  | popAll i k =>
    obtain ⟨⟨store, q, elements⟩, hpop, heq⟩ := Option.map_eq_some_iff.mp hs
    cases heq
    exact congrArg (· + 0) (hsame (TSQueue.take_check (n := 0) (.inr (.inr hpop))))
  | erase i u =>
    obtain ⟨⟨store, q, b⟩, herase, heq⟩ := Option.map_eq_some_iff.mp hs
    cases heq
    obtain ⟨hcheck, hheld⟩ := TSQueue.erase_check herase
    cases b with
    | false => exact congrArg (· + 0) (hsame hcheck)
    | true =>
      change Store.held store t + _ = _
      by_cases hut : u = t
      · subst hut
        simp [Store.held, hcheck, hheld rfl, QueueOp.pushes, QueueOp.removes]
      · have htu : t ≠ u := fun htu => hut htu.symm
        simp [Store.held, hcheck, QueueOp.pushes, QueueOp.removes, hut, htu]
  | size i =>
    cases hs
    rfl

/-- How often an element is put in by some operations. -/
def pushes (t : ν) (ops : List (QueueOp ι κ ν)) : Nat := (ops.map (QueueOp.pushes t)).sum

/-- How often it comes out of them. -/
def removals (t : ν) (ops : List (QueueOp ι κ ν)) (rs : List (QueueResult ν)) : Nat :=
  (List.zipWith (QueueOp.removes t) ops rs).sum

theorem Represents.held_run {ops : List (QueueOp ι κ ν)} (h : Represents check head owners s l)
    (hok : l.AllowedRun check head ops) {s' : Queues ι κ ν χ} {rs : List (QueueResult ν)}
    (hs : s.run ops = some (s', rs)) (t : ν) :
    s'.store.held t + removals t ops rs = s.store.held t + pushes t ops := by
  induction ops generalizing s l rs with
  | nil =>
    cases hs
    rfl
  | cons op ops ih =>
    obtain ⟨s₁, hstep, h₁⟩ := h.step hok.1
    rw [Queues.run, hstep, Option.bind_some] at hs
    obtain ⟨⟨s₂, rs₁⟩, hrun, heq⟩ := Option.map_eq_some_iff.mp hs
    cases heq
    have hrest := ih h₁ hok.2 hrun
    have hfirst := h.held_step hok.1 hstep t
    simp only [removals, pushes, List.zipWith_cons_cons, List.map_cons, List.sum_cons] at hrest ⊢
    omega

omit [DecidableEq ν] [DecidableEq ι] [DecidableEq κ] [DecidableEq χ] in
theorem Represents.held_eq_zero_iff (h : Represents check head owners s l) (t : ν) :
    s.store.held t = 0 ↔ l.Free t := by
  constructor
  · intro hheld
    have hnone : s.store.check t = none := by
      by_contra hsome
      rw [Store.held, if_neg hsome] at hheld
      cases hheld
    refine ⟨fun i hi => ?_, fun k hk => ?_⟩
    · rw [(h.queued hi).1] at hnone
      cases hnone
    · rw [(h.carried hk).1, h.origin_iff] at hnone
      rw [hnone] at hk
      cases hk
  · intro hfree
    rw [Store.held, if_pos (h.free hfree).1]

/-- Under every interleaving of the threads: no operation follows a null pointer or fails its
assertion, each returns what it would return on plain lists, and the hooks, the tails, the counts,
the `check_` fields and the references fit those lists. -/
theorem queues_refine_lists (hhead : Function.Injective head) {ops : List (QueueOp ι κ ν)}
    (hok : (.new : Lists ι κ ν χ).AllowedRun check head ops) :
    ∃ s', (Queues.new head check owners).run ops =
        some (s', ((.new : Lists ι κ ν χ).run check ops).2) ∧
      Represents check head owners s' ((.new : Lists ι κ ν χ).run check ops).1 :=
  (represents_new hhead).run hok

/-- A processer takes two of three tasks from another one, a task having come in between. -/
def stealOps : List (QueueOp (Fin 2) (Fin 1) Nat) :=
  [.push 0 1, .push 0 2, .push 0 3, .popBack 0 0 2, .push 1 7, .pushList 1 0, .pop 1, .pop 1,
    .erase 1 3, .size 0]

/-- The hooks that two queues begin with. -/
def sampleHead (i : Fin 2) : Nat := 100 + i

theorem sampleHead_injective : Function.Injective sampleHead :=
  fun _ _ h => Fin.ext (Nat.add_left_cancel h)

theorem stealOps_allowed :
    (.new : Lists (Fin 2) (Fin 1) Nat Nat).AllowedRun (fun _ => 9) sampleHead stealOps := by
  refine ⟨⟨⟨?_, ?_⟩, ?_⟩, ⟨⟨?_, ?_⟩, ?_⟩, ⟨⟨?_, ?_⟩, ?_⟩, rfl, ⟨⟨?_, ?_⟩, ?_⟩, .inr rfl, trivial,
    trivial, ⟨?_, ?_⟩, trivial, trivial⟩ <;> decide

/-- The guarantee applied to them. -/
theorem queues_refine_lists_steal :
    ∃ s' : Queues (Fin 2) (Fin 1) Nat Nat,
      (Queues.new sampleHead (fun _ => 9) fun _ => 1).run stealOps =
        some (s', [.nothing, .nothing, .nothing, .nothing, .nothing, .nothing, .element (some 7),
          .element (some 2), .found true, .count 1]) ∧
      Represents (fun _ => 9) sampleHead (fun _ => 1) s'
        ((.new : Lists (Fin 2) (Fin 1) Nat Nat).run (fun _ => 9) stealOps).1 :=
  queues_refine_lists sampleHead_injective stealOps_allowed

/-- However the queues are emptied into one another, an element that has been put in `n` times has
come out `n` times, or `n - 1` times and is still in one of the queues or lists. -/
theorem queues_conserve (hhead : Function.Injective head) {ops : List (QueueOp ι κ ν)}
    (hok : (.new : Lists ι κ ν χ).AllowedRun check head ops) (t : ν) :
    ∃ s' rs, (Queues.new head check owners).run ops = some (s', rs) ∧
      pushes t ops = removals t ops rs + s'.store.held t ∧
      (s'.store.held t = 0 ↔ ((.new : Lists ι κ ν χ).run check ops).1.Free t) := by
  have h : Represents check head owners (.new head check owners) (.new : Lists ι κ ν χ) :=
    represents_new hhead
  obtain ⟨s', hrun, h'⟩ := h.run hok
  have hheld := h.held_run hok hrun t
  have hnew : (Queues.new head check owners : Queues ι κ ν χ).store.held t = 0 := rfl
  exact ⟨s', _, hrun, by omega, h'.held_eq_zero_iff t⟩

/-- The guarantee applied to a task that is stolen and then erased. -/
theorem queues_conserve_steal :
    ∃ (s' : Queues (Fin 2) (Fin 1) Nat Nat) (rs : List (QueueResult Nat)),
      (Queues.new sampleHead (fun _ => 9) fun _ => 1).run stealOps = some (s', rs) ∧
      pushes 3 stealOps = removals 3 stealOps rs + s'.store.held 3 ∧
      (s'.store.held 3 = 0 ↔
        ((.new : Lists (Fin 2) (Fin 1) Nat Nat).run (fun _ => 9) stealOps).1.Free 3) :=
  queues_conserve sampleHead_injective stealOps_allowed 3

end Lists

end AsioCoroFrame.Libgo
