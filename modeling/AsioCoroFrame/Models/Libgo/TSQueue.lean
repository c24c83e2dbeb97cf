import AsioCoroFrame.Core.Strand

/-!
# The queues of tasks

The hooks of a `TSQueue` are inside its elements, so all queues share one store. A queue
begins with a hook of its own. Each definition is one section under `lck`, and `none`
stands for the use of a null pointer or for a failed assertion. A processer without
work takes a list from the end of another queue and puts it into its own.
-/

namespace AsioCoroFrame.Libgo

/-! ## The code -/

/-- The fields of the `TSQueueHook` of each element, and its reference count. -/
structure Store (ν χ : Type) where
  prev : ν → Option ν
  next : ν → Option ν
  check : ν → Option χ
  refs : ν → Nat

/-- `SList`. -/
structure SList (ν χ : Type) where
  head : Option ν
  tail : Option ν
  check : Option χ
  count : Nat
  deriving DecidableEq, Repr

/-- `TSQueue`; `check` is its own address, or that of a static of all processers. -/
structure TSQueue (ν χ : Type) where
  head : ν
  tail : ν
  count : Nat
  check : χ
  deriving DecidableEq, Repr

variable {ν χ : Type} [DecidableEq ν]

@[simp] def Store.setNext (s : Store ν χ) (x : ν) (v : Option ν) : Store ν χ :=
  { s with next := Function.update s.next x v }

@[simp] def Store.setPrev (s : Store ν χ) (x : ν) (v : Option ν) : Store ν χ :=
  { s with prev := Function.update s.prev x v }

/-- `if (x) x->prev = v`. -/
def Store.setPrevOf (s : Store ν χ) (x v : Option ν) : Store ν χ :=
  match x with
  | none => s
  | some x => s.setPrev x v

@[simp] def Store.setCheck (s : Store ν χ) (x : ν) (v : Option χ) : Store ν χ :=
  { s with check := Function.update s.check x v }

@[simp] def Store.incrementRef (s : Store ν χ) (x : ν) : Store ν χ :=
  { s with refs := Function.update s.refs x (s.refs x + 1) }

@[simp] def Store.decrementRef (s : Store ν χ) (x : ν) : Store ν χ :=
  { s with refs := Function.update s.refs x (s.refs x - 1) }

/-- `SList()`, and what `stealed` leaves. -/
def SList.new : SList ν χ := ⟨none, none, none, 0⟩

/-- `TSQueue()`. -/
def TSQueue.new (head : ν) (check : χ) : TSQueue ν χ := ⟨head, head, 0, check⟩

/-- `push` of one element. -/
def TSQueue.push (s : Store ν χ) (q : TSQueue ν χ) (t : ν) : Store ν χ × TSQueue ν χ :=
  (((((s.setNext q.tail (some t)).setPrev t (some q.tail)).setNext t none).setCheck t
    (some q.check)).incrementRef t, { q with tail := t, count := q.count + 1 })

/-- `pop`. -/
def TSQueue.pop (s : Store ν χ) (q : TSQueue ν χ) :
    Option (Store ν χ × TSQueue ν χ × Option ν) :=
  if q.head = q.tail then some (s, q, none)
  else
    (s.next q.head).map fun t =>
      (((((((s.setNext q.head (s.next t)).setPrevOf (s.next t) (some q.head)).setPrev t
        none).setNext t none).setCheck t none).decrementRef t),
        { q with
          tail := if t = q.tail then q.head else q.tail
          count := q.count - 1 }, some t)

/-- `push` of a list, which leaves the list empty. -/
def TSQueue.pushList [DecidableEq χ] (s : Store ν χ) (q : TSQueue ν χ) (elements : SList ν χ) :
    Option (Store ν χ × TSQueue ν χ × SList ν χ) :=
  match elements.head with
  | none => some (s, q, elements)
  | some first =>
    if elements.check = some q.check then
      elements.tail.map fun last =>
        (((s.setNext q.tail (some first)).setPrev first (some q.tail)).setNext last none,
          { q with tail := last, count := q.count + elements.count }, .new)
    else none

/-- The end of `pop_front`: the first `n` elements are taken, up to `last`. -/
def TSQueue.cutFront (s : Store ν χ) (q : TSQueue ν χ) (first last : ν) (n : Nat) :
    Store ν χ × TSQueue ν χ × SList ν χ :=
  ((((s.setNext q.head (s.next last)).setPrevOf (s.next last) (some q.head)).setPrev first
    none).setNext last none,
    { q with
      tail := if last = q.tail then q.head else q.tail
      count := q.count - n },
    ⟨some first, some last, some q.check, n⟩)

/-- `pop_front`. -/
def TSQueue.popFront (s : Store ν χ) (q : TSQueue ν χ) (n : Nat) :
    Option (Store ν χ × TSQueue ν χ × SList ν χ) :=
  if q.head = q.tail then some (s, q, .new)
  else
    (s.next q.head).map fun first =>
      let (last, c) := advance s.next (n - 1) first
      q.cutFront s first last (c + 1)

/-- The element before another one, up to the head. -/
def Store.before (s : Store ν χ) (head x : ν) : Option ν :=
  (s.prev x).filter fun y => y ≠ head

/-- `pop_back`. -/
def TSQueue.popBack (s : Store ν χ) (q : TSQueue ν χ) (n : Nat) :
    Option (Store ν χ × TSQueue ν χ × SList ν χ) :=
  if q.head = q.tail then some (s, q, .new)
  else
    let (first, c) := advance (s.before q.head) (n - 1) q.tail
    (s.prev first).map fun tail =>
      ((s.setNext tail none).setPrev first none,
        { q with tail := tail, count := q.count - (c + 1) },
        ⟨some first, some q.tail, some q.check, c + 1⟩)

/-- `pop_all`. -/
def TSQueue.popAll (s : Store ν χ) (q : TSQueue ν χ) :
    Option (Store ν χ × TSQueue ν χ × SList ν χ) :=
  if q.head = q.tail then some (s, q, .new)
  else
    (s.next q.head).map fun first =>
      (((s.setNext q.head none).setPrev first none).setNext q.tail none,
        { q with tail := q.head, count := 0 },
        ⟨some first, some q.tail, some q.check, q.count⟩)

/-- `erase`. -/
def TSQueue.erase [DecidableEq χ] (s : Store ν χ) (q : TSQueue ν χ) (t : ν) :
    Option (Store ν χ × TSQueue ν χ × Bool) :=
  if s.check t = some q.check then
    let s₁ := match s.prev t with
      | none => s
      | some x => s.setNext x (s.next t)
    let s₂ := s₁.setPrevOf (s₁.next t) (s₁.prev t)
    let tail := if s₁.next t = none ∧ t = q.tail then s₂.prev q.tail else some q.tail
    tail.map fun tail =>
      ((((s₂.setPrev t none).setNext t none).setCheck t none).decrementRef t,
        { q with tail := tail, count := q.count - 1 }, true)
  else some (s, q, false)

/-- The queues, the store they share, and for each thread the list that it carries. -/
structure Queues (ι κ ν χ : Type) where
  store : Store ν χ
  queue : ι → TSQueue ν χ
  hand : κ → SList ν χ

/-- The operations, on a queue and, where one is taken or put back, a list. -/
inductive QueueOp (ι κ ν : Type) where
  | push (i : ι) (t : ν)
  | pop (i : ι)
  | pushList (i : ι) (k : κ)
  | popFront (i : ι) (k : κ) (n : Nat)
  | popBack (i : ι) (k : κ) (n : Nat)
  | popAll (i : ι) (k : κ)
  | erase (i : ι) (t : ν)
  | size (i : ι)
  deriving DecidableEq, Repr

/-- What an operation returns. -/
inductive QueueResult (ν : Type) where
  | nothing
  | element (t : Option ν)
  | found (b : Bool)
  | count (n : Nat)
  deriving DecidableEq, Repr

section Step

variable {ι κ : Type} [DecidableEq ι] [DecidableEq κ] [DecidableEq χ]

/-- The store and one queue have changed. -/
def Queues.put (s : Queues ι κ ν χ) (i : ι) (store : Store ν χ) (q : TSQueue ν χ) :
    Queues ι κ ν χ :=
  { s with store := store, queue := Function.update s.queue i q }

/-- The list of a thread has changed as well. -/
def Queues.carry (s : Queues ι κ ν χ) (i : ι) (k : κ) :
    Store ν χ × TSQueue ν χ × SList ν χ → Queues ι κ ν χ × QueueResult ν
  | (store, q, elements) =>
    ({ s.put i store q with hand := Function.update s.hand k elements }, .nothing)

/-- One operation. -/
def Queues.step (s : Queues ι κ ν χ) :
    QueueOp ι κ ν → Option (Queues ι κ ν χ × QueueResult ν)
  | .push i t =>
    let (store, q) := (s.queue i).push s.store t
    some (s.put i store q, .nothing)
  | .pop i => ((s.queue i).pop s.store).map fun (store, q, t) => (s.put i store q, .element t)
  | .pushList i k => ((s.queue i).pushList s.store (s.hand k)).map (s.carry i k)
  | .popFront i k n => ((s.queue i).popFront s.store n).map (s.carry i k)
  | .popBack i k n => ((s.queue i).popBack s.store n).map (s.carry i k)
  | .popAll i k => ((s.queue i).popAll s.store).map (s.carry i k)
  | .erase i t => ((s.queue i).erase s.store t).map fun (store, q, b) => (s.put i store q, .found b)
  | .size i => some (s, .count (s.queue i).count)

/-- Several operations and what they return. -/
def Queues.run (s : Queues ι κ ν χ) :
    List (QueueOp ι κ ν) → Option (Queues ι κ ν χ × List (QueueResult ν))
  | [] => some (s, [])
  | op :: ops =>
    (s.step op).bind fun (s', r) => (s'.run ops).map fun (s'', rs) => (s'', r :: rs)

end Step

/-! ## What an operation does to the hooks -/

section Hooks

variable {s : Store ν χ} {q : TSQueue ν χ}

theorem Store.setPrevOf_next (s : Store ν χ) (x v : Option ν) :
    (s.setPrevOf x v).next = s.next := by
  cases x <;> rfl

theorem Store.setPrevOf_check (s : Store ν χ) (x v : Option ν) :
    (s.setPrevOf x v).check = s.check := by
  cases x <;> rfl

theorem Store.setPrevOf_refs (s : Store ν χ) (x v : Option ν) :
    (s.setPrevOf x v).refs = s.refs := by
  cases x <;> rfl

theorem Store.setPrevOf_prev (s : Store ν χ) (x v : Option ν) (y : ν) :
    (s.setPrevOf x v).prev y = if x = some y then v else s.prev y := by
  cases x with
  | none => rfl
  | some x => simp [setPrevOf, setPrev, Function.update_apply, eq_comm]

/-- The fields of a queue fit its elements. -/
structure TSQueue.Fits (q : TSQueue ν χ) (l : List ν) : Prop where
  tail : (q.head :: l).getLast? = some q.tail
  count : q.count = l.length

/-- A part has been taken out of a queue. -/
structure TSQueue.Took (s s' : Store ν χ) (q q' : TSQueue ν χ) (a m b : List ν) : Prop where
  head : q'.head = q.head
  check : q'.check = q.check
  fits : q'.Fits (a ++ b)
  next : ∀ x, s'.next x = if m.getLast? = some x then none else
    if (q.head :: a).getLast? = some x then b.head? else s.next x
  prev : ∀ x, s'.prev x = if m.head? = some x then none else
    if b.head? = some x then (q.head :: a).getLast? else s.prev x

/-- The list of some elements. -/
def SList.of (m : List ν) (check : Option χ) : SList ν χ := ⟨m.head?, m.getLast?, check, m.length⟩

omit [DecidableEq ν] in
theorem TSQueue.empty_iff {l : List ν} (h : Strand s.next s.prev (q.head :: l)) (hq : q.Fits l) :
    q.head = q.tail ↔ l = [] := by
  have htail := hq.tail
  cases l with
  | nil => simpa using htail
  | cons x l =>
    rw [List.getLast?_cons_cons] at htail
    have hout := (List.nodup_cons.mp h.nodup).1
    simp only [reduceCtorEq, iff_false]
    exact fun he => hout (he ▸ List.mem_of_getLast? htail)

/-- The tail of a queue after its first elements have been taken. -/
theorem TSQueue.tail_of_front {m b : List ν} {last : ν}
    (h : Strand s.next s.prev (q.head :: (m ++ b))) (hq : q.Fits (m ++ b))
    (hlast : m.getLast? = some last) :
    (q.head :: b).getLast? = some (if last = q.tail then q.head else q.tail) := by
  have hm : last ∈ m := List.mem_of_getLast? hlast
  have htail := hq.tail
  rw [List.getLast?_cons, List.getLast?_append] at htail
  cases b with
  | nil =>
    have : last = q.tail := by simpa [hlast] using htail
    simp [this]
  | cons y b =>
    obtain ⟨z, hz⟩ : ∃ z, (y :: b).getLast? = some z := ⟨_, List.getLast?_eq_some_getLast (by simp)⟩
    have hzt : z = q.tail := by
      rw [hz] at htail
      simpa using htail
    have hne : last ≠ q.tail := by
      rintro rfl
      have hnodup := (List.nodup_cons.mp h.nodup).2
      exact (List.nodup_append'.mp hnodup).2.2 hm (hzt ▸ List.mem_of_getLast? hz)
    rw [if_neg hne, List.getLast?_cons_cons, hz, hzt]

theorem TSQueue.push_eq {l : List ν} (hq : q.Fits l) (t : ν) :
    ∃ s' q', q.push s t = (s', q') ∧ q'.head = q.head ∧ q'.check = q.check ∧
      q'.Fits (l ++ [t]) ∧
      (∀ x, s'.next x = if x = t then none else
        if (q.head :: l).getLast? = some x then some t else s.next x) ∧
      (∀ x, s'.prev x = if x = t then (q.head :: l).getLast? else s.prev x) ∧
      s'.check = Function.update s.check t (some q.check) ∧
      s'.refs = Function.update s.refs t (s.refs t + 1) := by
  refine ⟨_, _, rfl, rfl, rfl, ⟨?_, ?_⟩, fun x => ?_, fun x => ?_, rfl, rfl⟩
  · rw [← List.cons_append, List.getLast?_concat]
  · simp [hq.count]
  · rw [hq.tail]
    simp [Function.update_apply, eq_comm]
  · rw [hq.tail]
    simp [Function.update_apply]

theorem TSQueue.pop_nil (h : Strand s.next s.prev [q.head]) (hq : q.Fits []) :
    q.pop s = some (s, q, none) := if_pos ((empty_iff h hq).mpr rfl)

theorem TSQueue.pop_cons {t : ν} {b : List ν} (h : Strand s.next s.prev (q.head :: t :: b))
    (hq : q.Fits (t :: b)) :
    ∃ s' q', q.pop s = some (s', q', some t) ∧ Took s s' q q' [] [t] b ∧
      s'.check = Function.update s.check t none ∧
      s'.refs = Function.update s.refs t (s.refs t - 1) := by
  have hne : q.head ≠ q.tail := fun he => by simpa using (empty_iff h hq).mp he
  have hnext : s.next q.head = some t := h.next_eq (a := []) rfl
  have hafter : s.next t = b.head? := h.next_eq (a := [q.head]) rfl
  rw [pop, if_neg hne, hnext]
  refine ⟨_, _, rfl, ⟨rfl, rfl, ⟨?_, ?_⟩, fun x => ?_, fun x => ?_⟩, ?_, ?_⟩
  · exact tail_of_front (m := [t]) h hq rfl
  · simp [hq.count]
  · simp [Function.update_apply, Store.setPrevOf_next, hafter, eq_comm]
  · simp [Function.update_apply, Store.setPrevOf_prev, hafter, eq_comm]
  · simp [Store.setPrevOf_check]
  · simp [Store.setPrevOf_refs]

theorem TSQueue.cutFront_eq {m b : List ν} (h : Strand s.next s.prev (q.head :: (m ++ b)))
    (hq : q.Fits (m ++ b)) {first last : ν} (hfirst : m.head? = some first)
    (hlast : m.getLast? = some last) :
    ∃ s' q', q.cutFront s first last m.length = (s', q', .of m (some q.check)) ∧
      Took s s' q q' [] m b ∧ s'.check = s.check ∧ s'.refs = s.refs := by
  have hafter := h.next_getLast (a := [q.head]) hlast
  have hlist : SList.of m (some q.check) = ⟨some first, some last, some q.check, m.length⟩ := by
    rw [SList.of, hfirst, hlast]
  rw [cutFront, hlist]
  refine ⟨_, _, rfl, ⟨rfl, rfl, ⟨?_, ?_⟩, fun y => ?_, fun y => ?_⟩, ?_, ?_⟩
  · exact tail_of_front h hq hlast
  · simp [hq.count]
  · simp [Function.update_apply, Store.setPrevOf_next, hafter, hlast, eq_comm]
  · simp [Function.update_apply, Store.setPrevOf_prev, hafter, hfirst, eq_comm]
  · simp [Store.setPrevOf_check]
  · simp [Store.setPrevOf_refs]

theorem TSQueue.popFront_nil (h : Strand s.next s.prev [q.head]) (hq : q.Fits []) (n : Nat) :
    q.popFront s n = some (s, q, .new) := if_pos ((empty_iff h hq).mpr rfl)

theorem TSQueue.popFront_eq {l : List ν} (h : Strand s.next s.prev (q.head :: l)) (hq : q.Fits l)
    (hl : l ≠ []) (n : Nat) :
    ∃ s' q', q.popFront s n = some (s', q', .of (l.take (max n 1)) (some q.check)) ∧
      Took s s' q q' [] (l.take (max n 1)) (l.drop (max n 1)) ∧ s'.check = s.check ∧
      s'.refs = s.refs := by
  have hne : q.head ≠ q.tail := fun he => hl ((empty_iff h hq).mp he)
  obtain ⟨x, l', rfl⟩ := List.exists_cons_of_ne_nil hl
  have hnext : s.next q.head = some x := h.next_eq (a := []) rfl
  obtain ⟨hlast, hlength⟩ := Strand.advance_eq (a := [q.head]) h (n - 1)
  have hn : n - 1 + 1 = max n 1 := by omega
  rw [hn] at hlast hlength
  have hfirst : ((x :: l').take (max n 1)).head? = some x := by
    rw [List.head?_take, if_neg (by omega), List.head?_cons]
  rw [← List.take_append_drop (max n 1) (x :: l')] at h hq
  rw [popFront, if_neg hne, hnext, Option.map_some]
  dsimp only
  rw [← hlength]
  obtain ⟨s', q', hcut, hrest⟩ := cutFront_eq h hq hfirst hlast
  exact ⟨s', q', congrArg some hcut, hrest⟩

/-- Walking backwards stays within the elements. -/
theorem TSQueue.strand_before {l : List ν} (h : Strand s.next s.prev (q.head :: l)) :
    Strand (s.before q.head) s.next l.reverse := by
  have hout := (List.nodup_cons.mp h.nodup).1
  have hsplit : Strand (fun x => if q.head = x then none else s.next x)
      (fun x => if l.head? = some x then none else s.prev x) l :=
    (Strand.split (a := [q.head]) (b := l) h (by simp) (by simp)).2
  refine (hsplit.congr (fun x hx => ?_) fun x hx => ?_).reverse
  · have hxq : q.head ≠ x := fun he => hout (he ▸ hx)
    rw [if_neg hxq]
  · obtain ⟨a, b, rfl⟩ := List.append_of_mem hx
    have hprev : s.prev x = (q.head :: a).getLast? := h.prev_eq (b := b) rfl
    rw [Store.before, hprev]
    cases a with
    | nil => simp
    | cons y a =>
      obtain ⟨z, hz⟩ : ∃ z, (y :: a).getLast? = some z :=
        ⟨_, List.getLast?_eq_some_getLast (by simp)⟩
      have hzq : z ≠ q.head := fun he =>
        hout (he ▸ List.mem_append_left _ (List.mem_of_getLast? hz))
      have hxy : (y :: a ++ x :: b).head? ≠ some x := by
        intro he
        obtain rfl : y = x := by simpa using he
        have hnodup := (List.nodup_cons.mp h.nodup).2
        rw [List.cons_append, List.nodup_cons] at hnodup
        exact hnodup.1 (by simp)
      rw [if_neg hxy, List.getLast?_cons_cons, hz]
      simp [hzq]

theorem TSQueue.popBack_nil (h : Strand s.next s.prev [q.head]) (hq : q.Fits []) (n : Nat) :
    q.popBack s n = some (s, q, .new) := if_pos ((empty_iff h hq).mpr rfl)

theorem TSQueue.popBack_eq {l : List ν} (h : Strand s.next s.prev (q.head :: l)) (hq : q.Fits l)
    (hl : l ≠ []) (n : Nat) :
    ∃ s' q', q.popBack s n = some (s', q', .of (l.drop (l.length - max n 1)) (some q.check)) ∧
      Took s s' q q' (l.take (l.length - max n 1)) (l.drop (l.length - max n 1)) [] ∧
      s'.check = s.check ∧ s'.refs = s.refs := by
  have hne : q.head ≠ q.tail := fun he => hl ((empty_iff h hq).mp he)
  have htail : l.getLast? = some q.tail := by
    obtain ⟨x, l', rfl⟩ := List.exists_cons_of_ne_nil hl
    rw [← List.getLast?_cons_cons]
    exact hq.tail
  obtain ⟨c, hc⟩ := List.getLast?_eq_some_iff.mp htail
  have hback : l.reverse = q.tail :: c.reverse := by simp [hc]
  have hbefore := strand_before h
  rw [hback] at hbefore
  obtain ⟨hlast, hlength⟩ := Strand.advance_eq (a := []) hbefore (n - 1)
  have hn : n - 1 + 1 = max n 1 := by omega
  rw [hn, ← hback, List.take_reverse] at hlast hlength
  rw [List.getLast?_reverse] at hlast
  rw [List.length_reverse] at hlength
  have hsplit : l = l.take (l.length - max n 1) ++ l.drop (l.length - max n 1) :=
    (List.take_append_drop ..).symm
  have hmtail : (l.drop (l.length - max n 1)).getLast? = some q.tail := by
    rw [List.getLast?_drop, if_neg ?_, htail]
    have := List.length_pos_iff.mpr hl
    omega
  generalize l.take (l.length - max n 1) = a at hsplit ⊢
  generalize l.drop (l.length - max n 1) = m at hlast hlength hsplit hmtail ⊢
  have hstrand : Strand s.next s.prev ((q.head :: a) ++ (m ++ [])) := by simpa [← hsplit] using h
  have hprev := hstrand.prev_head hlast
  obtain ⟨tail, ht⟩ : ∃ tail, (q.head :: a).getLast? = some tail :=
    ⟨_, List.getLast?_eq_some_getLast (by simp)⟩
  have hend := hstrand.next_getLast hmtail
  have hlist : SList.of m (some q.check) = ⟨some (advance (s.before q.head) (n - 1) q.tail).1,
      some q.tail, some q.check, (advance (s.before q.head) (n - 1) q.tail).2 + 1⟩ := by
    rw [SList.of, hlast, hmtail, hlength]
  rw [popBack, if_neg hne, hlist]
  dsimp only
  rw [hprev, ht]
  refine ⟨_, _, rfl, ⟨rfl, rfl, ⟨?_, ?_⟩, fun y => ?_, fun y => ?_⟩, rfl, rfl⟩
  · simpa using ht
  · have hcount := hq.count
    rw [hsplit, List.length_append] at hcount
    simp [hcount, ← hlength]
  · rw [ht, hmtail]
    by_cases hy : y = q.tail
    · simp [hy, Function.update_apply, hend]
    · simp [Function.update_apply, eq_comm, hy]
  · simp [Function.update_apply, hlast, eq_comm]

theorem TSQueue.popAll_nil (h : Strand s.next s.prev [q.head]) (hq : q.Fits []) :
    q.popAll s = some (s, q, .new) := if_pos ((empty_iff h hq).mpr rfl)

theorem TSQueue.popAll_eq {l : List ν} (h : Strand s.next s.prev (q.head :: l)) (hq : q.Fits l)
    (hl : l ≠ []) :
    ∃ s' q', q.popAll s = some (s', q', .of l (some q.check)) ∧ Took s s' q q' [] l [] ∧
      s'.check = s.check ∧ s'.refs = s.refs := by
  have hne : q.head ≠ q.tail := fun he => hl ((empty_iff h hq).mp he)
  obtain ⟨x, l', rfl⟩ := List.exists_cons_of_ne_nil hl
  have hnext : s.next q.head = some x := h.next_eq (a := []) rfl
  have htail := hq.tail
  rw [List.getLast?_cons_cons] at htail
  have hlist : SList.of (x :: l') (some q.check) =
      ⟨some x, some q.tail, some q.check, q.count⟩ := by
    rw [SList.of, htail, hq.count, List.head?_cons]
  rw [popAll, if_neg hne, hnext, hlist]
  refine ⟨_, _, rfl, ⟨rfl, rfl, ⟨rfl, rfl⟩, fun y => ?_, fun y => ?_⟩, rfl, rfl⟩
  · simp [Function.update_apply, htail, eq_comm]
  · simp [Function.update_apply, eq_comm]

variable [DecidableEq χ]

theorem TSQueue.pushList_nil : q.pushList s .new = some (s, q, .new) := rfl

theorem TSQueue.pushList_eq {l m : List ν} (h : Strand s.next s.prev m) (hq : q.Fits l)
    (hm : m ≠ []) (hout : q.tail ∉ m) :
    ∃ s' q', q.pushList s (.of m (some q.check)) = some (s', q', .new) ∧ q'.head = q.head ∧
      q'.check = q.check ∧ q'.Fits (l ++ m) ∧
      (∀ x, s'.next x = if (q.head :: l).getLast? = some x then m.head? else s.next x) ∧
      (∀ x, s'.prev x = if m.head? = some x then (q.head :: l).getLast? else s.prev x) ∧
      s'.check = s.check ∧ s'.refs = s.refs := by
  obtain ⟨x, m', rfl⟩ := List.exists_cons_of_ne_nil hm
  obtain ⟨last, hlast⟩ : ∃ last, (x :: m').getLast? = some last :=
    ⟨_, List.getLast?_eq_some_getLast hm⟩
  have hend : s.next last = none := by
    obtain ⟨c, hc⟩ := List.getLast?_eq_some_iff.mp hlast
    exact h.next_eq (b := []) hc
  have hne : q.tail ≠ last := fun he => hout (he ▸ List.mem_of_getLast? hlast)
  rw [SList.of, pushList]
  dsimp only [List.head?_cons]
  rw [if_pos rfl, hlast]
  refine ⟨_, _, rfl, rfl, rfl, ⟨?_, ?_⟩, fun y => ?_, fun y => ?_, rfl, rfl⟩
  · rw [← List.cons_append, List.getLast?_append, hlast]
    rfl
  · simp [hq.count]
  · rw [hq.tail]
    by_cases hy : y = last
    · simp [hy, hend, hne]
    · simp [Function.update_apply, hy, eq_comm]
  · rw [hq.tail]
    simp [Function.update_apply, eq_comm]

theorem TSQueue.erase_absent {t : ν} (ht : s.check t ≠ some q.check) :
    q.erase s t = some (s, q, false) := if_neg ht

theorem TSQueue.erase_eq {a b : List ν} {t : ν} (h : Strand s.next s.prev (q.head :: (a ++ t :: b)))
    (hq : q.Fits (a ++ t :: b)) (ht : s.check t = some q.check) :
    ∃ s' q', q.erase s t = some (s', q', true) ∧ Took s s' q q' a [t] b ∧
      s'.check = Function.update s.check t none ∧
      s'.refs = Function.update s.refs t (s.refs t - 1) := by
  obtain ⟨x, hx⟩ : ∃ x, (q.head :: a).getLast? = some x :=
    ⟨_, List.getLast?_eq_some_getLast (by simp)⟩
  have hprev : s.prev t = some x := (h.prev_eq (a := q.head :: a) (b := b) rfl).trans hx
  have hnext : s.next t = b.head? := h.next_eq (a := q.head :: a) rfl
  have hxt : t ≠ x := by
    rintro rfl
    have hnodup := h.nodup
    rw [← List.cons_append, List.nodup_append'] at hnodup
    exact hnodup.2.2 (List.mem_of_getLast? hx) List.mem_cons_self
  have hcount : q.count - 1 = (a ++ b).length := by
    simp [hq.count]
  have hafter : (s.setNext x b.head?).next t = b.head? := by simp [hxt, hnext]
  have hback : (s.setNext x b.head?).prev t = some x := hprev
  obtain ⟨tail, htail⟩ : ∃ tail, (q.head :: (a ++ b)).getLast? = some tail :=
    ⟨_, List.getLast?_eq_some_getLast (by simp)⟩
  have hnew : (if b.head? = none ∧ t = q.tail then
      ((s.setNext x b.head?).setPrevOf b.head? (some x)).prev q.tail else some q.tail) =
        some tail := by
    have hold := hq.tail
    cases b with
    | nil =>
      rw [← List.cons_append, List.getLast?_concat, Option.some.injEq] at hold
      rw [if_pos ⟨rfl, hold⟩, ← hold]
      rw [List.append_nil, hx] at htail
      exact hprev.trans htail
    | cons y b =>
      rw [if_neg (by simp), ← hold, ← htail]
      rw [← List.cons_append, ← List.cons_append, List.getLast?_append, List.getLast?_append,
        List.getLast?_cons_cons]
  rw [erase, if_pos ht]
  dsimp only
  rw [hprev, hnext]
  dsimp only
  rw [hafter, hback, hnew]
  refine ⟨_, _, rfl, ⟨rfl, rfl, ⟨htail, hcount⟩, fun y => ?_, fun y => ?_⟩, ?_, ?_⟩
  · simp [Function.update_apply, Store.setPrevOf_next, hx, eq_comm]
  · simp [Function.update_apply, Store.setPrevOf_prev, hx, eq_comm]
  · simp [Store.setPrevOf_check]
  · simp [Store.setPrevOf_refs]

end Hooks

end AsioCoroFrame.Libgo
