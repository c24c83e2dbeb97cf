import AsioCoroFrame.Models.ThreadedPool.State
import Mathlib.Logic.Relation
import Mathlib.Data.List.Range

/-!
# What one atomic section can do

Every action of a thread is a sequence of at most two elementary effects: a
pool is opened with some connections, a connection moves between a queue and a
thread, or only the threads at a condition variable change. Invariants of the
pool are proved against these effects and never unfold the operations.
-/

namespace AsioCoroFrame.ThreadedPool

open Cluster

variable {τ : Type}

/-- The key a call may pair with a connection of the pool `p`: the key of a map entry, or the
key carried by a thread already waiting on that pool. -/
def State.Refers (s : State τ) (p : Ptr) (key : PoolKey) : Prop :=
  (∃ r, key = .slots r ∧ (r, p) ∈ s.nodes) ∨ (∃ h, key = .host h ∧ (h, p) ∈ s.connections) ∨
    ∃ P, s.pools[p]? = some P ∧ ∃ c ∈ P.pool.asleep ++ P.pool.awake, c.key = key

/-- A new pool registered under `key`, with `k` fresh connections. -/
def State.opened (s : State τ) (key : PoolKey) (k : Nat) : State τ :=
  { s.register key with
    pools := s.pools ++ [⟨key, .stocked (List.range' s.next k)⟩]
    created := s.created ++ (List.range' s.next k).map (key, ·)
    next := s.next + k }

/-- The number of leading successful connects among the last `n` of a filling loop. -/
def filled (connect : Nat → ConnectResult) : Nat → Nat
  | 0 => 0
  | n + 1 => if connect (poolSize - (n + 1)) = .ok then filled connect n + 1 else 0

/-- The pool an action opens, with the connections it gets. -/
def Action.Opens (s : State τ) : Action τ → PoolKey → Nat → Prop
  | .insertSlots r connect, key, k => key = .slots r ∧ k = filled connect poolSize
  | .insert _ host port connect, key, k =>
    key = .host (hostKey host port) ∧ s.lookup key = none ∧
      k = match stoi port with
        | .error _ => 0
        | .ok _ => filled connect poolSize
  | _, _, _ => False

variable [DecidableEq τ]

/-- The elementary effects, where pools are opened as `O` allows and pairs given back as `R`
allows. -/
inductive Effect (O : State τ → PoolKey → Nat → Prop) (R : State τ → Lease τ → Prop) :
    State τ → State τ → Prop
  | opened {s key k} : O s key k → Effect O R s (s.opened key k)
  | take {s p P c pool key} (t : τ) : s.pools[p]? = some P → P.pool.queue = c :: pool.queue →
      (∀ c ∈ pool.asleep ++ pool.awake, s.Refers p c.key) → s.Refers p key →
      Monitor.Step P.pool.view pool.view → Effect O R s { s with
        pools := s.pools.set p ⟨P.owner, pool⟩
        held := s.held ++ [⟨t, key, c⟩] }
  | signal {s p P pool} : s.pools[p]? = some P → pool.queue = P.pool.queue →
      (∀ c ∈ pool.asleep ++ pool.awake, s.Refers p c.key) → Monitor.Step P.pool.view pool.view →
      Effect O R s { s with pools := s.pools.set p ⟨P.owner, pool⟩ }
  | put {s p P l} : R s l → l ∈ s.held → s.lookup l.key = some p → s.pools[p]? = some P →
      Effect O R s { s with
        pools := s.pools.set p ⟨P.owner, P.pool.push ⟨l.thread, l.key⟩ l.conn⟩
        held := s.held.erase l }
  | fail {s l} : l ∈ s.held → Effect O R s { s with broken := s.broken ++ [l.conn] }

variable {O : State τ → PoolKey → Nat → Prop} {R : State τ → Lease τ → Prop} {s s' : State τ}

/-! ## Opening a pool -/

omit [DecidableEq τ] in
theorem State.opened_zero (s : State τ) (key : PoolKey) : s.opened key 0 = s.register key := by
  cases key <;> simp [opened, register, ConPool.stocked, ConPool.empty]

omit [DecidableEq τ] in
theorem State.opened_stock (s : State τ) (key : PoolKey) (k : Nat) :
    (s.opened key k).stock s.pools.length key = s.opened key (k + 1) := by
  cases key <;>
    simp [opened, stock, register, ConPool.stocked, List.range'_concat, modify_length_concat,
      Nat.add_assoc]

omit [DecidableEq τ] in
/-- `fillPool` stops at the first failed connect and keeps what it has pushed. -/
theorem State.fillPool_opened (s : State τ) (key : PoolKey) (connect : Nat → ConnectResult)
    (n k : Nat) :
    (s.opened key k).fillPool s.pools.length key connect n =
      (s.opened key (k + filled connect n), decide (filled connect n = n)) := by
  induction n generalizing k with
  | zero => simp [fillPool, filled]
  | succ n ih =>
    cases hc : connect (poolSize - (n + 1)) with
    | null => simp [fillPool, filled, hc]
    | broken => simp [fillPool, filled, hc]
    | ok => simp [fillPool, filled, hc, opened_stock, ih, Nat.add_assoc, Nat.add_comm 1]

omit [DecidableEq τ] in
theorem State.fillPool_register (s : State τ) (key : PoolKey) (connect : Nat → ConnectResult) :
    (s.register key).fillPool s.pools.length key connect poolSize =
      (s.opened key (filled connect poolSize), decide (filled connect poolSize = poolSize)) := by
  rw [← opened_zero, fillPool_opened, Nat.zero_add]

/-! ## Every action is made of effects -/

omit [DecidableEq τ] in
/-- A section that changes one pool in place. -/
theorem State.onPool_spec {p : Ptr} {f : ConPool (Call τ) → Option (ConPool (Call τ))}
    (h : s.onPool p f = some s') :
    ∃ P pool, s.pools[p]? = some P ∧ f P.pool = some pool ∧
      s' = { s with pools := s.pools.set p ⟨P.owner, pool⟩ } := by
  simp only [onPool, Option.bind_eq_bind, Option.bind_eq_some_iff, Option.pure_def,
    Option.some.injEq] at h
  obtain ⟨P, hP, pool, hpool, rfl⟩ := h
  exact ⟨P, pool, hP, hpool, rfl⟩

/-- A release pushes to the pool found under its key. -/
theorem State.release_spec {l : Lease τ} (h : step s (.release l) = some s') :
    l ∈ s.held ∧ ¬ s.busy l.thread ∧ ∃ p P, s.lookup l.key = some p ∧ s.pools[p]? = some P ∧
      s' = { s with
        pools := s.pools.set p ⟨P.owner, P.pool.push ⟨l.thread, l.key⟩ l.conn⟩
        held := s.held.erase l } := by
  simp only [step, Option.ite_none_right_eq_some, releaseConnection, Option.bind_eq_bind,
    Option.bind_eq_some_iff, Option.pure_def, Option.some.injEq] at h
  obtain ⟨⟨hl, hbusy⟩, p, hp, P, hP, rfl⟩ := h
  exact ⟨hl, hbusy, p, P, hp, hP, rfl⟩

open Relation (ReflTransGen)

omit [DecidableEq τ] in
theorem State.refers_of_token {p : Ptr} {P : Cell τ} {c : Call τ} (hP : s.pools[p]? = some P)
    (hc : c ∈ P.pool.asleep ++ P.pool.awake) : s.Refers p c.key :=
  .inr (.inr ⟨P, hP, c, hc, rfl⟩)

/-- The threads awaiting a re-check, some of which may have gone ahead. -/
def State.thinned (s : State τ) (p : Ptr) (P : Cell τ) (awake : List (Call τ)) : State τ :=
  { s with pools := s.pools.set p ⟨P.owner, { P.pool with awake := awake }⟩ }

/-- The test of the queue takes its front or puts the caller to sleep, whether the caller
has just taken the mutex or has left the awakened threads for it. -/
theorem State.pullConnection_thinned_effect (t : τ) {p : Ptr} {key : PoolKey} {P : Cell τ}
    {awake : List (Call τ)} (hP : s.pools[p]? = some P) (hawake : ∀ c ∈ awake, c ∈ P.pool.awake)
    (h : s.Refers p key) (hview : Monitor.Step P.pool.view
      (({ P.pool with awake := awake } : ConPool (Call τ)).pull ⟨t, key⟩).1.view) :
    Effect O R s ((s.thinned p P awake).pullConnection t p key) := by
  have hp : p < s.pools.length := (List.getElem?_eq_some_iff.mp hP).1
  have hold : ∀ c ∈ P.pool.asleep ++ awake, s.Refers p c.key := by
    intro c hc
    refine refers_of_token hP ?_
    rcases List.mem_append.mp hc with hc | hc
    · exact List.mem_append_left _ hc
    · exact List.mem_append_right _ (hawake c hc)
  cases hq : P.pool.queue with
  | nil =>
    simp only [ConPool.pull, hq] at hview
    simp only [pullConnection, thinned, List.getElem?_set_self hp, ConPool.pull, hq, List.set_set]
    refine .signal hP (by simp [hq]) ?_ hview
    intro c hc
    simp only [List.append_assoc, List.mem_append, List.mem_cons, List.not_mem_nil,
      or_false] at hc
    rcases hc with hc | rfl | hc
    · exact hold c (List.mem_append_left _ hc)
    · exact h
    · exact hold c (List.mem_append_right _ hc)
  | cons c q =>
    simp only [ConPool.pull, hq] at hview
    simp only [pullConnection, thinned, List.getElem?_set_self hp, ConPool.pull, hq, List.set_set]
    exact .take t hP hq hold h hview

theorem State.pullConnection_effect (t : τ) {p : Ptr} {key : PoolKey} (h : s.Refers p key) :
    ReflTransGen (Effect O R) s (s.pullConnection t p key) := by
  cases hP : s.pools[p]? with
  | none => simpa [pullConnection, hP] using ReflTransGen.refl
  | some P =>
    have hsame : s.thinned p P P.pool.awake = s := by
      obtain ⟨hp, rfl⟩ := List.getElem?_eq_some_iff.mp hP
      change { s with pools := s.pools.set p s.pools[p] } = s
      rw [List.set_getElem_self]
    have heff := pullConnection_thinned_effect (O := O) (R := R) t hP (fun _ hc => hc) h
      (P.pool.view_pull _)
    rw [hsame] at heff
    exact .single heff

theorem searchBySlots_mem {index : Nat} {nodes : List (SlotRange × Ptr)} {n : SlotRange × Ptr}
    (h : searchBySlots index nodes = .ok n) : n ∈ nodes := by
  unfold searchBySlots at h
  split at h
  · cases h
  · rename_i m hm
    split at h
    · cases h
    · cases h
      exact (List.takeWhile_sublist _).subset (List.mem_of_getLast? hm)

theorem State.getConnection_effect (t : τ) (index : Nat) :
    ReflTransGen (Effect O R) s (s.getConnection t index) := by
  unfold getConnection
  split
  · exact .refl
  · rename_i n hn
    exact pullConnection_effect t (.inl ⟨n.1, rfl, searchBySlots_mem hn⟩)

theorem mem_assignHost (key : Host) (p : Ptr) (l : List (Host × Ptr)) :
    (key, p) ∈ assignHost key p l := mem_insertBefore.mpr (.inl rfl)

theorem State.insert_effect (t : τ) (host port : Bytes) (connect : Nat → ConnectResult)
    (hO : ∀ key k, (Action.insert t host port connect).Opens s key k → O s key k) :
    ReflTransGen (Effect O R) s (s.insert t host port connect) := by
  cases hf : s.connections.find? fun n => n.1 = hostKey host port with
  | some n =>
    obtain ⟨key, p⟩ := n
    have hkey : key = hostKey host port := by simpa using List.find?_some hf
    subst hkey
    simp only [insert, hf]
    exact pullConnection_effect t (.inr (.inl ⟨_, rfl, List.mem_of_find?_eq_some hf⟩))
  | none =>
    have hnone : s.lookup (.host (hostKey host port)) = none := by simp [lookup, hf]
    cases hport : stoi port with
    | error e =>
      simp only [insert, hf, hport]
      rw [← opened_zero]
      exact .single (.opened (hO _ _ ⟨rfl, hnone, by simp only [hport]⟩))
    | ok v =>
      have hopen : Effect O R s (s.opened (.host (hostKey host port)) (filled connect poolSize)) :=
        .opened (hO _ _ ⟨rfl, hnone, by simp [hport]⟩)
      simp only [insert, hf, hport, fillPool_register]
      by_cases hfull : filled connect poolSize = poolSize
      · simp only [hfull, decide_true] at hopen ⊢
        refine .head hopen (pullConnection_effect t (.inr (.inl ⟨_, rfl, ?_⟩)))
        exact mem_assignHost _ _ _
      · simp only [hfull, decide_false]
        exact .single hopen

theorem State.onPool_effect {p : Ptr} {f : ConPool (Call τ) → Option (ConPool (Call τ))}
    (hf : ∀ P pool, f P = some pool → pool.queue = P.queue ∧
      (∀ c ∈ pool.asleep ++ pool.awake, c ∈ P.asleep ++ P.awake) ∧ Monitor.Step P.view pool.view)
    (h : s.onPool p f = some s') : Effect O R s s' := by
  obtain ⟨P, pool, hP, hpool, rfl⟩ := onPool_spec h
  obtain ⟨hq, hc, hview⟩ := hf _ _ hpool
  exact .signal hP hq (fun c hmem => refers_of_token hP (hc c hmem)) hview

theorem ConPool.spurious_spec {T : Type} [DecidableEq T] {P pool : ConPool T} {t : T}
    (h : P.spurious t = some pool) :
    pool.queue = P.queue ∧ ∀ c ∈ pool.asleep ++ pool.awake, c ∈ P.asleep ++ P.awake := by
  simp only [spurious, Option.ite_none_right_eq_some, Option.some.injEq] at h
  obtain ⟨ht, rfl⟩ := h
  refine ⟨rfl, fun c hc => ?_⟩
  simp only [List.mem_append, List.mem_singleton] at hc ⊢
  rcases hc with hc | hc | rfl
  · exact .inl (List.mem_of_mem_erase hc)
  · exact .inr hc
  · exact .inl ht

theorem ConPool.notify_spec {T : Type} [DecidableEq T] {P pool : ConPool T} {t : T}
    {woken : Option T} (h : P.notify t woken = some pool) :
    pool.queue = P.queue ∧ ∀ c ∈ pool.asleep ++ pool.awake, c ∈ P.asleep ++ P.awake := by
  simp only [notify, Option.ite_none_right_eq_some] at h
  obtain ⟨_, h⟩ := h
  cases woken with
  | none =>
    simp only [Option.ite_none_right_eq_some, Option.some.injEq] at h
    obtain ⟨_, rfl⟩ := h
    exact ⟨rfl, fun _ hc => hc⟩
  | some u => exact spurious_spec (P := { P with notifying := P.notifying.erase t }) h

/-- Every action is a sequence of effects that opens pools and gives pairs back only as the
action does. -/
theorem step_effect {a : Action τ} (hO : ∀ key k, a.Opens s key k → O s key k)
    (hR : ∀ l, a = .release l → R s l) (h : step s a = some s') :
    ReflTransGen (Effect O R) s s' := by
  cases a with
  | insertSlots r connect =>
    cases h
    simp only [State.insertSlots, State.fillPool_register]
    exact .single (.opened (hO _ _ ⟨rfl, rfl⟩))
  | getConnection t index =>
    simp only [step, Option.ite_none_left_eq_some, Option.some.injEq] at h
    exact h.2 ▸ State.getConnection_effect t index
  | insert t host port connect =>
    simp only [step, Option.ite_none_left_eq_some, Option.some.injEq] at h
    exact h.2 ▸ State.insert_effect t host port connect hO
  | spurious p c =>
    refine .single (State.onPool_effect (f := (·.spurious c)) (fun P pool hs => ?_) h)
    exact ⟨(ConPool.spurious_spec hs).1, (ConPool.spurious_spec hs).2, ConPool.view_spurious hs⟩
  | recheck p c =>
    simp only [step, Option.bind_eq_bind, Option.bind_eq_some_iff,
      Option.ite_none_right_eq_some, Option.pure_def, Option.some.injEq] at h
    obtain ⟨P, hP, hc, rfl⟩ := h
    refine .single (State.pullConnection_thinned_effect c.thread hP
      (fun _ => List.mem_of_mem_erase) ?_ ?_)
    · exact State.refers_of_token hP (List.mem_append_right _ hc)
    · exact ConPool.view_recheck (P := P.pool) (t := c) (by simp [ConPool.recheck, hc])
  | release l =>
    obtain ⟨hl, _, p, P, hp, hP, rfl⟩ := State.release_spec h
    exact .single (.put (hR l rfl) hl hp hP)
  | notify p c woken =>
    refine .single (State.onPool_effect (f := (·.notify c woken)) (fun P pool hn => ?_) h)
    exact ⟨(ConPool.notify_spec hn).1, (ConPool.notify_spec hn).2, ConPool.view_notify hn⟩
  | fail c =>
    simp only [step, Option.ite_none_right_eq_some, List.any_eq_true, decide_eq_true_eq,
      Option.some.injEq] at h
    obtain ⟨⟨l, hl, rfl⟩, rfl⟩ := h
    exact .single (.fail hl)

/-- What every effect preserves, a sequence of effects preserves. -/
theorem effects_invariant {I : State τ → Prop}
    (hI : ∀ s s', I s → Effect O R s s' → I s') (h : ReflTransGen (Effect O R) s s') (hs : I s) :
    I s' := by
  induction h with
  | refl => exact hs
  | tail _ he ih => exact hI _ _ ih he

/-- What every effect preserves, every action preserves. -/
theorem step_invariant {I : State τ → Prop} (hI : ∀ s s', I s → Effect O R s s' → I s')
    {a : Action τ} (hO : ∀ key k, a.Opens s key k → O s key k)
    (hR : ∀ l, a = .release l → R s l) (h : step s a = some s') (hs : I s) : I s' :=
  effects_invariant hI (step_effect hO hR h) hs

/-- Every pool of the container moves as a counting monitor, so none loses a wake-up. -/
theorem noLostWakeup_of_run {ok : State τ → Action τ → Prop} {as : List (Action τ)}
    (h : Run step ok initial as s) : ∀ P ∈ s.pools, P.pool.view.NoLostWakeup := by
  refine h.invariant (P := fun s => ∀ P ∈ s.pools, P.pool.view.NoLostWakeup) (by simp [initial])
    fun s a s' hs _ hstep => step_invariant (O := fun _ _ _ => True) (R := fun _ _ => True)
      (I := fun s => ∀ P ∈ s.pools, P.pool.view.NoLostWakeup) ?_ (fun _ _ _ => trivial)
      (fun _ _ => trivial) hstep hs
  clear hs hstep h
  have hset {s : State τ} {p : Ptr} {P : Cell τ} {pool : ConPool (Call τ)}
      (hs : ∀ P ∈ s.pools, P.pool.view.NoLostWakeup) (hP : s.pools[p]? = some P)
      (hview : Monitor.Step P.pool.view pool.view) :
      ∀ Q ∈ s.pools.set p ⟨P.owner, pool⟩, Q.pool.view.NoLostWakeup := by
    intro Q hQ
    rcases List.mem_or_eq_of_mem_set hQ with hQ | rfl
    · exact hs Q hQ
    · exact hview.noLostWakeup (hs P (List.mem_of_getElem? hP))
  intro s s' hs he
  cases he with
  | opened _ =>
    intro Q hQ
    rcases List.mem_append.mp hQ with hQ | hQ
    · exact hs Q hQ
    · rw [List.mem_singleton] at hQ
      subst hQ
      simp [Monitor.NoLostWakeup, ConPool.view, ConPool.stocked]
  | take _ hP _ _ _ hview => exact hset hs hP hview
  | signal hP _ _ hview => exact hset hs hP hview
  | put _ _ _ hP => exact hset hs hP (by simpa [ConPool.view, ConPool.push] using Monitor.Step.push)
  | fail _ => exact hs

end AsioCoroFrame.ThreadedPool
