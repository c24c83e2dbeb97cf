import AsioCoroFrame.Models.Libgo.TSQueue
import Mathlib.Algebra.Group.Nat.Defs

/-!
# The queue with a skip layer

A `TSSkipQueue` keeps pointers to every `SkipDistance`-th element, so that taking many
elements from its front walks over few of them. It takes the same elements as the plain
walk, whatever has been pushed and taken before.
-/

namespace AsioCoroFrame.Libgo

variable {ν χ : Type} [DecidableEq ν] (k : Nat)

/-! ## The code -/

/-- `TSSkipQueue`: the fields of a `TSQueue`, and the skip layer. `SkipDistance` is `2 ^ k`. -/
structure TSSkipQueue (ν χ : Type) extends TSQueue ν χ where
  indexs : List ν
  headOffset : Nat
  tailOffset : Nat
  deriving DecidableEq, Repr

/-- `TSSkipQueue()`. -/
def TSSkipQueue.new (head : ν) (check : χ) : TSSkipQueue ν χ where
  toTSQueue := .new head check
  indexs := []
  headOffset := 0
  tailOffset := 0

/-- `push`. -/
def TSSkipQueue.push (s : Store ν χ) (q : TSSkipQueue ν χ) (t : ν) :
    Store ν χ × TSSkipQueue ν χ :=
  let (store, base) := q.toTSQueue.push s t
  if q.tailOffset + 1 = 2 ^ k then
    (store, { q with toTSQueue := base, tailOffset := 0, indexs := q.indexs ++ [base.tail] })
  else (store, { q with toTSQueue := base, tailOffset := q.tailOffset + 1 })

/-- The search of `pop_front` in the skip layer: a node to walk on from, the number of steps, and
the layer that is left. -/
def TSSkipQueue.seek (q : TSSkipQueue ν χ) (n : Nat) (first : ν) :
    Option (ν × Nat × TSSkipQueue ν χ) :=
  if n < 2 ^ k - q.headOffset then
    some (first, n - 1, { q with headOffset := q.headOffset + n })
  else if q.indexs = [] then some (first, n - 1, { q with tailOffset := q.count - n })
  else
    let forward := (n + q.headOffset - 2 ^ k) / 2 ^ k
    let nextStep := (n + q.headOffset - 2 ^ k) &&& (2 ^ k - 1)
    (q.indexs[forward]?).map fun last =>
      let indexs := q.indexs.drop (forward + 1)
      if indexs = [] then
        (last, nextStep, { q with indexs := [], tailOffset := q.count - n, headOffset := 0 })
      else (last, nextStep, { q with indexs := indexs, headOffset := nextStep })

/-- `pop_front`. -/
def TSSkipQueue.popFront (s : Store ν χ) (q : TSSkipQueue ν χ) (n : Nat) :
    Option (Store ν χ × TSSkipQueue ν χ × SList ν χ) :=
  if q.head = q.tail ∨ n = 0 then some (s, q, .new)
  else
    (s.next q.head).bind fun first =>
      (q.seek k (min n q.count) first).bind fun (start, steps, q') =>
        (follow s.next steps start).map fun last =>
          let (store, base, elements) := q'.cutFront s first last (min n q.count)
          (store, { q' with toTSQueue := base }, elements)

/-- The elements from `begin()` to `end()`, at most `n` of them. -/
def SList.iterate (s : Store ν χ) : Nat → Option ν → List ν
  | 0, _ => []
  | _ + 1, none => []
  | n + 1, some x => x :: iterate s n (s.next x)

/-- The operations. -/
inductive SkipOp (ν : Type) where
  | push (t : ν)
  | popFront (n : Nat)
  deriving DecidableEq, Repr

/-- Several operations and the elements of the lists that they return; no list is longer than its
size says. -/
def TSSkipQueue.run (s : Store ν χ) (q : TSSkipQueue ν χ) :
    List (SkipOp ν) → Option (Store ν χ × TSSkipQueue ν χ × List (List ν))
  | [] => some (s, q, [])
  | .push t :: ops => run (q.push k s t).1 (q.push k s t).2 ops
  | .popFront n :: ops =>
    (q.popFront k s n).bind fun (s', q', elements) =>
      (run s' q' ops).map fun (s'', q'', rs) =>
        (s'', q'', SList.iterate s' (elements.count + 1) elements.head :: rs)

/-! ## The skip layer -/

/-- The layer points at the elements at the distances it stands for. -/
structure TSSkipQueue.Indexed (q : TSSkipQueue ν χ) (l : List ν) : Prop where
  headOffset_lt : q.headOffset < 2 ^ k
  tailOffset_lt : q.tailOffset < 2 ^ k
  index : ∀ i, i < q.indexs.length → q.indexs[i]? = l[i * 2 ^ k + (2 ^ k - 1 - q.headOffset)]?
  count : l.length + q.headOffset = q.indexs.length * 2 ^ k + q.tailOffset

variable {k} {q : TSSkipQueue ν χ} {l : List ν}

omit [DecidableEq ν] in
/-- The search ends at the node in front of which as many elements lie as have been skipped, and
leaves the layer of the elements behind. -/
theorem TSSkipQueue.Indexed.seek_eq (h : q.Indexed k l) (hcount : q.count = l.length) {n : Nat}
    (hpos : 0 < n) (hn : n ≤ l.length) {first : ν} (hfirst : l.head? = some first) :
    ∃ start steps q' j, q.seek k n first = some (start, steps, q') ∧ l[j]? = some start ∧
      j + steps + 1 = n ∧ q'.toTSQueue = q.toTSQueue ∧
      ∀ base : TSQueue ν χ, ({ q' with toTSQueue := base } : TSSkipQueue ν χ).Indexed k
        (l.drop n) := by
  have hS : 0 < 2 ^ k := Nat.two_pow_pos k
  have hlt := h.headOffset_lt
  have htl := h.tailOffset_lt
  have htotal := h.count
  have hzero : l[0]? = some first := by rw [← List.head?_eq_getElem?, hfirst]
  unfold TSSkipQueue.seek
  by_cases hnear : n < 2 ^ k - q.headOffset
  · rw [if_pos hnear]
    refine ⟨_, _, _, 0, rfl, hzero, by omega, rfl, fun base => ⟨?_, htl, fun i hi => ?_, ?_⟩⟩
    · dsimp only
      omega
    · dsimp only at hi ⊢
      rw [List.getElem?_drop, h.index i hi]
      congr 1
      omega
    · rw [List.length_drop]
      dsimp only
      omega
  · have hnil : q.indexs ≠ [] := by
      intro hnil
      rw [hnil, List.length_nil, Nat.zero_mul, Nat.zero_add] at htotal
      omega
    rw [if_neg hnear, if_neg hnil, Nat.and_two_pow_sub_one_eq_mod]
    have hdiv := Nat.div_add_mod' (n + q.headOffset - 2 ^ k) (2 ^ k)
    have hmod := Nat.mod_lt (n + q.headOffset - 2 ^ k) hS
    have hforward : (n + q.headOffset - 2 ^ k) / 2 ^ k < q.indexs.length := by
      rw [Nat.div_lt_iff_lt_mul hS]
      omega
    generalize (n + q.headOffset - 2 ^ k) / 2 ^ k = forward at hdiv hforward ⊢
    generalize (n + q.headOffset - 2 ^ k) % 2 ^ k = step at hdiv hmod ⊢
    have hindex := h.index forward hforward
    rw [List.getElem?_eq_getElem hforward] at hindex
    dsimp only
    rw [List.getElem?_eq_getElem hforward, Option.map_some]
    by_cases hrest : q.indexs.drop (forward + 1) = []
    · rw [if_pos hrest]
      have hlength : q.indexs.length = forward + 1 := by
        have := List.drop_eq_nil_iff.mp hrest
        omega
      rw [hlength, Nat.succ_mul] at htotal
      refine ⟨_, _, _, _, rfl, hindex.symm, by omega, rfl, fun base => ⟨hS, ?_, ?_, ?_⟩⟩
      · dsimp only
        omega
      · intro i hi
        cases hi
      · rw [List.length_drop]
        dsimp only
        rw [List.length_nil]
        omega
    · rw [if_neg hrest]
      refine ⟨_, _, _, _, rfl, hindex.symm, by omega, rfl, fun base => ⟨hmod, htl, ?_, ?_⟩⟩
      · intro i hi
        dsimp only at hi ⊢
        rw [List.length_drop] at hi
        rw [List.getElem?_drop, List.getElem?_drop, h.index _ (by omega)]
        congr 1
        rw [Nat.add_mul, Nat.add_mul, Nat.one_mul]
        omega
      · dsimp only
        rw [List.length_drop, List.length_drop, Nat.sub_mul, Nat.add_mul, Nat.one_mul]
        have : forward * 2 ^ k + 2 ^ k ≤ q.indexs.length * 2 ^ k := by
          rw [← Nat.succ_mul]
          exact Nat.mul_le_mul_right _ hforward
        omega

omit [DecidableEq ν] in
theorem SList.iterate_eq {s : Store ν χ} {a b : List ν} {n : Nat}
    (h : Strand s.next s.prev (a ++ b)) (hn : b.length ≤ n) : iterate s n b.head? = b := by
  induction b generalizing a n with
  | nil => cases n <;> rfl
  | cons x b ih =>
    obtain ⟨n, rfl⟩ : ∃ m, n = m + 1 := ⟨n - 1, by simp at hn; omega⟩
    rw [List.head?_cons, iterate, h.next_eq rfl]
    congr 1
    exact ih (a := a ++ [x]) (by simpa using h) (by simpa using hn)

/-- The queue holds some elements. -/
structure TSSkipQueue.Holds (k : Nat) (s : Store ν χ) (q : TSSkipQueue ν χ) (l : List ν) :
    Prop where
  strand : Strand s.next s.prev (q.head :: l)
  fits : q.toTSQueue.Fits l
  indexed : q.Indexed k l

variable {s : Store ν χ}

theorem TSSkipQueue.Holds.push (h : q.Holds k s l) {t : ν} (ht : t ∉ q.head :: l) :
    (q.push k s t).2.Holds k (q.push k s t).1 (l ++ [t]) ∧ (q.push k s t).2.head = q.head := by
  obtain ⟨s', base, hpush, hhead, _, hfits, hnext, hprev, _⟩ :=
    TSQueue.push_eq (s := s) h.fits t
  have hstrands : Strands s.next s.prev fun _ : Unit => q.head :: l :=
    ⟨fun _ => h.strand, fun _ _ => rfl⟩
  have hstrand := (hstrands.add (r := ()) (fun _ => ht) hnext hprev).strand ()
  rw [Function.update_self, List.cons_append, ← hhead] at hstrand
  have htail : base.tail = t := by
    have := hfits.tail
    rw [← List.cons_append, List.getLast?_concat] at this
    exact (Option.some.inj this).symm
  have htotal := h.indexed.count
  have hlt := h.indexed.headOffset_lt
  have htl := h.indexed.tailOffset_lt
  have hold {i : Nat} (hi : i < q.indexs.length) :
      q.indexs[i]? = (l ++ [t])[i * 2 ^ k + (2 ^ k - 1 - q.headOffset)]? := by
    have hindex := h.indexed.index i hi
    rw [hindex, List.getElem?_append_left]
    rw [List.getElem?_eq_getElem hi] at hindex
    exact (List.getElem?_eq_some_iff.mp hindex.symm).1
  rw [TSSkipQueue.push, hpush]
  dsimp only
  by_cases hfull : q.tailOffset + 1 = 2 ^ k
  · rw [if_pos hfull]
    refine ⟨⟨hstrand, hfits, ⟨hlt, Nat.two_pow_pos k, fun i hi => ?_, ?_⟩⟩, hhead⟩
    · dsimp only at hi ⊢
      rw [List.length_append, List.length_singleton] at hi
      by_cases hi' : i < q.indexs.length
      · rw [List.getElem?_append_left hi']
        exact hold hi'
      · obtain rfl : i = q.indexs.length := by omega
        have hplace : q.indexs.length * 2 ^ k + (2 ^ k - 1 - q.headOffset) = l.length := by omega
        rw [hplace, htail, List.getElem?_concat_length, List.getElem?_concat_length]
    · dsimp only
      rw [List.length_append, List.length_append, List.length_singleton, List.length_singleton,
        Nat.add_mul, Nat.one_mul]
      omega
  · rw [if_neg hfull]
    refine ⟨⟨hstrand, hfits, ⟨hlt, ?_, fun i hi => hold hi, ?_⟩⟩, hhead⟩
    · dsimp only
      omega
    · rw [List.length_append, List.length_singleton]
      dsimp only
      omega

theorem TSSkipQueue.Holds.popFront (h : q.Holds k s l) (n : Nat) :
    ∃ s' q' elements, q.popFront k s n = some (s', q', elements) ∧ q'.Holds k s' (l.drop n) ∧
      q'.head = q.head ∧ SList.iterate s' (elements.count + 1) elements.head = l.take n := by
  have hempty := TSQueue.empty_iff h.strand h.fits
  by_cases hnone : q.head = q.tail ∨ n = 0
  · refine ⟨s, q, .new, if_pos hnone, ?_, rfl, ?_⟩
    · rcases hnone with hnil | rfl
      · rw [hempty.mp hnil, List.drop_nil]
        exact hempty.mp hnil ▸ h
      · exact h
    · rcases hnone with hnil | rfl
      · rw [hempty.mp hnil, List.take_nil]
        rfl
      · rfl
  · obtain ⟨hl, hn⟩ := not_or.mp hnone
    rw [hempty] at hl
    obtain ⟨first, l', hcons⟩ := List.exists_cons_of_ne_nil hl
    have hlength := List.length_pos_iff.mpr hl
    have hfirst : l.head? = some first := by rw [hcons, List.head?_cons]
    have hnext : s.next q.head = some first := by
      rw [h.strand.next_eq (a := []) rfl, hfirst]
    have hmin : min n q.count = min n l.length := by rw [h.fits.count]
    obtain ⟨start, steps, q', j, hseek, hstart, hj, hbase, hindexed⟩ :=
      h.indexed.seek_eq h.fits.count (n := min n l.length) (by omega) (by omega) hfirst
    have hfollow : follow s.next steps start = l[min n l.length - 1]? := by
      obtain ⟨hjl, hget⟩ := List.getElem?_eq_some_iff.mp hstart
      have hsplit : l = l.take j ++ start :: l.drop (j + 1) := by
        rw [← hget, List.getElem_cons_drop, List.take_append_drop]
      have hstrand := h.strand
      rw [hsplit] at hstrand
      rw [hstrand.follow_eq (a := q.head :: l.take j) steps, ← hget, List.getElem_cons_drop,
        List.getElem?_drop]
      congr 1
      omega
    obtain ⟨last, hlast⟩ : ∃ last, l[min n l.length - 1]? = some last :=
      ⟨_, List.getElem?_eq_getElem (by omega)⟩
    have hm : (l.take n).length = min n l.length := List.length_take
    have hsplit := (List.take_append_drop n l).symm
    have htake : (l.take n).head? = some first ∧ (l.take n).getLast? = some last := by
      rw [List.head?_take, if_neg hn, List.getLast?_eq_getElem?, hm, List.getElem?_take,
        if_pos (by omega)]
      exact ⟨hfirst, hlast⟩
    have hstrand := h.strand
    have hfits := h.fits
    rw [hsplit] at hstrand hfits
    have hcut := TSQueue.cutFront_eq hstrand hfits htake.1 htake.2
    rw [hm, ← hmin] at hcut
    obtain ⟨s', base, hcut, htook, _, _⟩ := hcut
    have hrest := (Strand.cut (a := [q.head]) hstrand (fun x _ => htook.next x) fun x _ =>
      htook.prev x)
    refine ⟨s', { q' with toTSQueue := base }, .of (l.take n) (some q.check), ?_,
      ⟨?_, htook.fits, ?_⟩, htook.head, ?_⟩
    · rw [TSSkipQueue.popFront, if_neg hnone, hnext, Option.bind_some, hmin, hseek,
        Option.bind_some]
      dsimp only
      rw [hfollow, hlast, Option.map_some, hbase, ← hmin, hcut]
    · rw [htook.head]
      exact hrest.1
    · rw [List.drop_eq_drop_min]
      exact hindexed base
    · have := SList.iterate_eq (a := []) hrest.2 (Nat.le_succ _)
      simpa [SList.of] using this

/-! ## The plain list -/

/-- The same operations on a plain list. -/
def plainRun (l : List ν) : List (SkipOp ν) → List ν × List (List ν)
  | [] => (l, [])
  | .push t :: ops => plainRun (l ++ [t]) ops
  | .popFront n :: ops => ((plainRun (l.drop n) ops).1, l.take n :: (plainRun (l.drop n) ops).2)

/-- No element is pushed that is in the queue already. -/
def PushesFresh (head : ν) (l : List ν) : List (SkipOp ν) → Prop
  | [] => True
  | .push t :: ops => t ∉ head :: l ∧ PushesFresh head (l ++ [t]) ops
  | .popFront n :: ops => PushesFresh head (l.drop n) ops

theorem TSSkipQueue.Holds.run {ops : List (SkipOp ν)} (h : q.Holds k s l)
    (hfresh : PushesFresh q.head l ops) :
    ∃ s' q', q.run k s ops = some (s', q', (plainRun l ops).2) ∧
      q'.Holds k s' (plainRun l ops).1 := by
  induction ops generalizing s q l with
  | nil => exact ⟨s, q, rfl, h⟩
  | cons op ops ih =>
    cases op with
    | push t =>
      obtain ⟨hpush, hhead⟩ := h.push hfresh.1
      exact ih hpush (hhead ▸ hfresh.2)
    | popFront n =>
      obtain ⟨s', q', elements, hpop, hholds, hhead, htaken⟩ := h.popFront n
      obtain ⟨s'', q'', hrun, hholds'⟩ := ih hholds (hhead ▸ hfresh)
      refine ⟨s'', q'', ?_, hholds'⟩
      rw [TSSkipQueue.run, hpop, Option.bind_some]
      dsimp only
      rw [hrun, htaken]
      rfl

/-- Whatever is pushed and taken, for every distance of the skip layer: no operation follows a null
pointer or an index that is not there, each `pop_front` returns what taking the elements one by one
would, and the layer goes on to fit the elements that are left. -/
theorem skip_queue_takes_first {head : ν} {check : χ} {store : Store ν χ}
    (hnext : store.next head = none) (hprev : store.prev head = none) {ops : List (SkipOp ν)}
    (hfresh : PushesFresh head [] ops) :
    ∃ s' q', (TSSkipQueue.new head check).run k store ops = some (s', q', (plainRun [] ops).2) ∧
      q'.Holds k s' (plainRun [] ops).1 := by
  refine TSSkipQueue.Holds.run ⟨.singleton hnext hprev, ⟨rfl, rfl⟩, ?_⟩ hfresh
  exact ⟨Nat.two_pow_pos k, Nat.two_pow_pos k, fun _ hi => absurd hi (Nat.not_lt_zero _),
    (Nat.zero_mul _).symm⟩

/-- The guarantee applied to a layer over every second element. -/
theorem skip_queue_takes_first_sample :
    ∃ (s' : Store Nat Nat) (q' : TSSkipQueue Nat Nat),
      (TSSkipQueue.new 100 9).run 1 ⟨fun _ => none, fun _ => none, fun _ => none, fun _ => 1⟩
        [.push 1, .push 2, .push 3, .push 4, .push 5, .popFront 3, .push 6, .push 1, .popFront 2,
          .popFront 9] =
        some (s', q', [[1, 2, 3], [4, 5], [6, 1]]) ∧ q'.Holds 1 s' [] := by
  refine skip_queue_takes_first (k := 1) rfl rfl ?_
  exact ⟨by decide, by decide, by decide, by decide, by decide, by decide, by decide, trivial⟩

end AsioCoroFrame.Libgo
