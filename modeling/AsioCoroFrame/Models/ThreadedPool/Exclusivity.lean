import AsioCoroFrame.Models.ThreadedPool.Conservation

/-!
# Every connection is in exactly one place

The accounting of the whole pool in runs where slot ranges have distinct first
slots and all connects succeed: a connection waits once in the pool it was
created for or is held by one thread, and a pool never gains or loses any.
-/

namespace AsioCoroFrame.ThreadedPool

variable {τ : Type} [DecidableEq τ] {s : State τ}

/-- Slot ranges have distinct first slots, and a pool that is opened gets all its connections:
the port is a number and every connect succeeds. -/
def Admissible (s : State τ) : Action τ → Prop
  | .insertSlots r connect =>
    (∀ n ∈ s.nodes, n.1.first ≠ r.first) ∧ ∀ i < poolSize, connect i = .ok
  | .insert _ host port connect => s.lookup (.host (hostKey host port)) = none →
    (∃ v, stoi port = .ok v) ∧ ∀ i < poolSize, connect i = .ok
  | _ => True

/-- A filling loop whose connects all succeed runs to its end. -/
theorem filled_eq {connect : Nat → ConnectResult} (h : ∀ i < poolSize, connect i = .ok) (n : Nat)
    (hn : n ≤ poolSize) : filled connect n = n := by
  induction n with
  | zero => rfl
  | succ n ih => rw [filled, h _ (by omega), if_pos rfl, ih (by omega)]

omit [DecidableEq τ] in
theorem Admissible.opensFully {a : Action τ} (h : Admissible s a) {key : PoolKey} {k : Nat}
    (ho : a.Opens s key k) : OpensFully s key k := by
  cases a with
  | insertSlots r connect =>
    obtain ⟨rfl, rfl⟩ := ho
    refine ⟨?_, filled_eq h.2 _ le_rfl⟩
    simpa [State.lookup, List.find?_eq_none] using h.1
  | insert t host port connect =>
    obtain ⟨rfl, hnone, rfl⟩ := ho
    obtain ⟨⟨v, hv⟩, hc⟩ := h hnone
    refine ⟨hnone, ?_⟩
    simp only [hv]
    exact filled_eq hc _ le_rfl
  | getConnection | spurious | recheck | release | notify | fail => exact ho.elim

theorem typed_of_run {as : List (Action τ)} (h : Run step Admissible initial as s) :
    Typed s ∧ Full s := by
  refine h.invariant (P := fun s => Typed s ∧ Full s) ⟨typed_initial, by simp [initial, Full,
    State.ownerAt]⟩ fun s a s' hs hok hstep => ?_
  refine step_invariant (O := OpensFully) (R := fun _ _ => True)
    (I := fun s => Typed s ∧ Full s) (fun s s' hI he => ?_)
    (fun _ _ ho => hok.opensFully ho) (fun _ _ => trivial) hstep hs
  exact ⟨hI.1.effect (fun _ _ ho => ho.1) he, Full.effect hI.1 hI.2 he⟩

/-- The connection waits, once, in the pool registered under `key` and nowhere else. -/
def Idle (s : State τ) (key : PoolKey) (c : Conn) : Prop :=
  (∃ p P, s.lookup key = some p ∧ s.pools[p]? = some P ∧ P.pool.queue.count c = 1 ∧
    ∀ p' P', s.pools[p']? = some P' → c ∈ P'.pool.queue → p' = p) ∧
  ∀ l ∈ s.held, l.conn ≠ c

/-- The connection is held once, as a pair with `key`, and waits in no pool. -/
def InUse (s : State τ) (key : PoolKey) (c : Conn) : Prop :=
  (∃ t, s.held.filter (·.conn = c) = [⟨t, key, c⟩]) ∧ ∀ P ∈ s.pools, c ∉ P.pool.queue

omit [DecidableEq τ] in
/-- A connection was created for one pool only. -/
theorem Conserved.key_unique (h : Conserved s) {k k' : PoolKey} {c : Conn}
    (hk : (k, c) ∈ s.created) (hk' : (k', c) ∈ s.created) : k = k' :=
  congrArg Prod.fst (List.inj_on_of_nodup_map h.nodup hk hk' rfl)

omit [DecidableEq τ] in
/-- All places together hold a created connection exactly once. -/
theorem Conserved.count_eq_one (h : Conserved s) {e : PoolKey × Conn} (he : e ∈ s.created) :
    (s.pools.flatMap (·.pool.queue)).count e.2 + (s.held.map (·.conn)).count e.2 = 1 := by
  rw [← List.count_append, h.perm.count_eq]
  exact List.count_eq_one_of_mem h.nodup (List.mem_map.mpr ⟨e, he, rfl⟩)

omit [DecidableEq τ] in
/-- A connection that no thread holds is idle in its own pool. -/
theorem Typed.idle (ht : Typed s) (hc : Conserved s) {e : PoolKey × Conn} (he : e ∈ s.created)
    (hheld : (s.held.map (·.conn)).count e.2 = 0) : Idle s e.1 e.2 := by
  have hcount := hc.count_eq_one he
  rw [hheld, Nat.add_zero] at hcount
  have hmem : e.2 ∈ s.pools.flatMap (·.pool.queue) := List.count_pos_iff.mp (by omega)
  obtain ⟨P, hPmem, hcP⟩ := List.mem_flatMap.mp hmem
  obtain ⟨p, hp⟩ := List.mem_iff_getElem?.mp hPmem
  have howner : ∀ (p' : Ptr) (P' : Cell τ), s.pools[p']? = some P' → e.2 ∈ P'.pool.queue →
      s.lookup e.1 = some p' := by
    intro p' P' hP' hc'
    have hkey := hc.key_unique (ht.queued p' P' hP' e.2 hc') (show (e.1, e.2) ∈ s.created from he)
    exact ht.registered p' e.1 (by simp [State.ownerAt, hP', hkey])
  have hlook := howner p P hp hcP
  refine ⟨⟨p, P, hlook, hp, ?_, ?_⟩, ?_⟩
  · have hperm := perm_flatMap_of_getElem? (fun P : Cell τ => P.pool.queue) hp
    rw [hperm.count_eq, List.count_append] at hcount
    have := List.count_pos_iff.mpr hcP
    omega
  · intro p' P' hP' hc'
    exact Option.some.inj ((howner p' P' hP' hc').symm.trans hlook)
  · intro l hl hconn
    exact List.count_eq_zero.mp hheld (List.mem_map.mpr ⟨l, hl, hconn⟩)

omit [DecidableEq τ] in
/-- A connection that some thread holds is held once, under its own key. -/
theorem Typed.inUse (ht : Typed s) (hc : Conserved s) {e : PoolKey × Conn} (he : e ∈ s.created)
    (hheld : (s.held.map (·.conn)).count e.2 ≠ 0) : InUse s e.1 e.2 := by
  have hcount := hc.count_eq_one he
  have hone : (s.held.map (·.conn)).count e.2 = 1 := by omega
  have hzero : (s.pools.flatMap (·.pool.queue)).count e.2 = 0 := by omega
  constructor
  · have hlen : (s.held.filter (·.conn = e.2)).length = 1 := by
      rw [← List.countP_eq_length_filter, ← hone, List.count_eq_countP, List.countP_map]
      simp [Function.comp_def, beq_eq_decide]
    obtain ⟨l, hl⟩ := List.length_eq_one_iff.mp hlen
    have hmem : l ∈ s.held ∧ l.conn = e.2 := by
      simpa using (show l ∈ s.held.filter (·.conn = e.2) by simp [hl])
    have hkey := hc.key_unique (ht.leased l hmem.1) (show (e.1, l.conn) ∈ s.created from
      hmem.2 ▸ he)
    refine ⟨l.thread, ?_⟩
    rw [hl, ← hkey, ← hmem.2]
  · intro P hP hcP
    exact List.count_eq_zero.mp hzero (List.mem_flatMap.mpr ⟨P, hP, hcP⟩)

omit [DecidableEq τ] in
/-- A pool's queue and its held connections together are the ones created for it. -/
theorem Typed.queue_add_held (ht : Typed s) (hf : Full s) (hc : Conserved s) {p : Ptr} {P : Cell τ}
    (hP : s.pools[p]? = some P) :
    P.pool.queue.length + s.held.countP (·.key = P.owner) = poolSize := by
  have howner : s.ownerAt p = some P.owner := by simp [State.ownerAt, hP]
  let mine : Conn → Bool := fun c => (P.owner, c) ∈ s.created
  have hcreated : (s.created.map (·.2)).countP mine = poolSize := by
    rw [← hf p P.owner howner, List.countP_map]
    refine List.countP_congr fun e he => ?_
    simp only [mine, Function.comp_apply, decide_eq_true_eq]
    constructor
    · intro hm
      exact (hc.key_unique hm (show (e.1, e.2) ∈ s.created from he)).symm
    · intro hk
      exact hk ▸ he
  have hqueue : P.pool.queue.countP mine = P.pool.queue.length :=
    List.countP_eq_length.mpr fun c hcq => by simpa [mine] using ht.queued p P hP c hcq
  have hrest : ((s.pools.eraseIdx p).flatMap (·.pool.queue)).countP mine = 0 := by
    refine List.countP_eq_zero.mpr fun c hcq hm => ?_
    obtain ⟨P', hP'mem, hcP'⟩ := List.mem_flatMap.mp hcq
    obtain ⟨p', hne, hP'⟩ := List.mem_eraseIdx_iff_getElem?.mp hP'mem
    have hkey := hc.key_unique (ht.queued p' P' hP' c hcP') (of_decide_eq_true hm)
    have hp' := ht.registered p' P.owner (by simp [State.ownerAt, hP', hkey])
    exact hne (Option.some.inj (hp'.symm.trans (ht.registered p P.owner howner)))
  have hheld : (s.held.map (·.conn)).countP mine = s.held.countP (·.key = P.owner) := by
    rw [List.countP_map]
    refine List.countP_congr fun l hl => ?_
    simp only [mine, Function.comp_apply, decide_eq_true_eq]
    constructor
    · intro hm
      exact (hc.key_unique hm (ht.leased l hl)).symm
    · intro hk
      exact hk ▸ ht.leased l hl
  have hsplit := (perm_flatMap_of_getElem? (fun P : Cell τ => P.pool.queue) hP).countP_eq mine
  have hall := hc.perm.countP_eq mine
  rw [List.countP_append, hsplit, List.countP_append, hqueue, hrest, hheld, hcreated] at hall
  omega

/-- Under any interleaving, every connection created by `fillPool` waits once in the queue it
was created for or is held by exactly one thread, no two leases share a connection, and each
pool accounts for exactly `poolSize` connections. -/
theorem connections_exclusive {as : List (Action τ)} (h : Run step Admissible initial as s) :
    (∀ e ∈ s.created, Idle s e.1 e.2 ∨ InUse s e.1 e.2) ∧
    (∀ l ∈ s.held, ∀ l' ∈ s.held, l.conn = l'.conn → l.thread = l'.thread) ∧
    ∀ (p : Ptr) (P : Cell τ), s.pools[p]? = some P →
      P.pool.queue.length + s.held.countP (·.key = P.owner) = poolSize := by
  obtain ⟨ht, hf⟩ := typed_of_run h
  have hc := conserved_of_run h
  have hplace : ∀ e ∈ s.created, Idle s e.1 e.2 ∨ InUse s e.1 e.2 := by
    intro e he
    by_cases hheld : (s.held.map (·.conn)).count e.2 = 0
    · exact .inl (ht.idle hc he hheld)
    · exact .inr (ht.inUse hc he hheld)
  refine ⟨hplace, ?_, fun p P hP => ht.queue_add_held hf hc hP⟩
  intro l hl l' hl' hconn
  rcases hplace _ (ht.leased l hl) with hidle | ⟨⟨t, ht⟩, _⟩
  · exact absurd rfl (hidle.2 l hl)
  · have hmem : l ∈ s.held.filter (·.conn = l.conn) := by simp [hl]
    have hmem' : l' ∈ s.held.filter (·.conn = l.conn) := by simp [hl', hconn]
    rw [ht, List.mem_singleton] at hmem hmem'
    rw [hmem, hmem']

/-- Two threads share a range while a third follows a redirect; one pair is given back. -/
theorem connections_exclusive_three_threads :
    ∃ s : State Nat,
      Run step Admissible initial
        [.insertSlots ⟨0, 16383⟩ fun _ => .ok, .getConnection 0 5, .getConnection 1 700,
          .insert 2 (ascii "h") (ascii "6379") fun _ => .ok,
          .release ⟨0, .slots ⟨0, 16383⟩, 0⟩] s ∧
      s.held = [⟨1, .slots ⟨0, 16383⟩, 1⟩, ⟨2, .host (ascii "h:6379"), 10⟩] ∧
      (∀ e ∈ s.created, Idle s e.1 e.2 ∨ InUse s e.1 e.2) ∧
      ∀ (p : Ptr) (P : Cell Nat), s.pools[p]? = some P →
        P.pool.queue.length + s.held.countP (·.key = P.owner) = poolSize := by
  obtain ⟨s, hrun, hheld⟩ : ∃ s : State Nat,
      Run step Admissible initial
        [.insertSlots ⟨0, 16383⟩ fun _ => .ok, .getConnection 0 5, .getConnection 1 700,
          .insert 2 (ascii "h") (ascii "6379") fun _ => .ok,
          .release ⟨0, .slots ⟨0, 16383⟩, 0⟩] s ∧
      s.held = [⟨1, .slots ⟨0, 16383⟩, 1⟩, ⟨2, .host (ascii "h:6379"), 10⟩] := by
    refine ⟨_, .snoc (.snoc (.snoc (.snoc (.snoc .nil ?_ rfl) ?_ rfl) ?_ rfl) ?_ rfl) ?_ rfl, ?_⟩
    · exact ⟨by simp [initial], fun _ _ => rfl⟩
    · exact trivial
    · exact trivial
    · exact fun _ => ⟨⟨6379, rfl⟩, fun _ _ => rfl⟩
    · exact trivial
    · rfl
  obtain ⟨hplace, _, hcount⟩ := connections_exclusive hrun
  exact ⟨s, hrun, hheld, hplace, hcount⟩

end AsioCoroFrame.ThreadedPool
