import AsioCoroFrame.Models.ThreadedPool.Effect

/-!
# Closing the container

`disconnect()` goes through both maps, takes ten connections from each pool and
frees them, deletes the pool and clears the map. It holds the mutex except
while it waits for a connection, so the releases of other threads come in
between. Notifications need no mutex and come in anywhere.
-/

namespace AsioCoroFrame.ThreadedPool

variable {τ : Type}

/-- The two maps of the container. -/
inductive PoolMap where
  | nodes
  | connections
  deriving DecidableEq, Repr

/-- Where the disconnecting thread stands. -/
inductive Phase where
  /-- Outside of `disconnect()`. -/
  | outside
  /-- With the mutex, in the loop over a map: the entries from `it` on, and the value of `i`. -/
  | draining (cons : PoolMap) (rest : List (PoolKey × Ptr)) (i : Nat)
  /-- Without the mutex, waiting in `pullConnection`. -/
  | waiting (cons : PoolMap) (rest : List (PoolKey × Ptr)) (i : Nat)
  /-- Without the mutex, after the first map and before the second. -/
  | between
  deriving DecidableEq, Repr

/-- Whether the disconnecting thread has the mutex. -/
def Phase.locked : Phase → Bool
  | .draining .. => true
  | .outside | .waiting .. | .between => false

/-- The container and the thread that closes it. -/
structure Shutdown (τ : Type) where
  container : State τ
  phase : Phase
  /-- The connections passed to `disconnect_`, each with the key of the pool it came from. -/
  freed : List (PoolKey × Conn)
  /-- The pools that have been deleted; the pointers to them in the maps are `NULL`. -/
  deleted : List Ptr
  /-- How often `disconnect()` has returned. -/
  returns : Nat
  deriving DecidableEq, Repr

/-- The entries of `nodes_`. -/
def State.nodeEntries (s : State τ) : List (PoolKey × Ptr) := s.nodes.map fun n => (.slots n.1, n.2)

/-- The entries of `connections_`. -/
def State.hostEntries (s : State τ) : List (PoolKey × Ptr) :=
  s.connections.map fun n => (.host n.1, n.2)

/-- The entries of both maps, in the order in which `disconnect()` goes through them. -/
def State.entries (s : State τ) : List (PoolKey × Ptr) := s.nodeEntries ++ s.hostEntries

/-- `cons.clear()`. -/
def State.clear (s : State τ) : PoolMap → State τ
  | .nodes => { s with nodes := [] }
  | .connections => { s with connections := [] }

/-- Before `disconnect()` is called. -/
def Shutdown.of (s : State τ) : Shutdown τ := ⟨s, .outside, [], [], 0⟩

/-- The pool that a release finds under its key. -/
def Shutdown.find (d : Shutdown τ) (key : PoolKey) : Option Ptr :=
  (d.container.lookup key).filter (· ∉ d.deleted)

variable [DecidableEq τ]

/-- `disconnect_(pullConnection(locker, *it->second))` from the test of the queue of `P` to the end
of the round or to the wait. -/
def Shutdown.test (d : Shutdown τ) (t : τ) (cons : PoolMap) (it : PoolKey × Ptr)
    (rest : List (PoolKey × Ptr)) (i : Nat) (P : Cell τ) : Shutdown τ :=
  match P.pool.pull ⟨t, it.1⟩ with
  | (pool, some c) => { d with
      container := { d.container with pools := d.container.pools.set it.2 ⟨P.owner, pool⟩ }
      phase := .draining cons (it :: rest) (i + 1)
      freed := d.freed ++ [(it.1, c)] }
  | (pool, none) => { d with
      container := { d.container with pools := d.container.pools.set it.2 ⟨P.owner, pool⟩ }
      phase := .waiting cons (it :: rest) i }

/-- One move of the disconnecting thread, or one atomic section of another thread. -/
inductive Move (τ : Type) where
  /-- Lock the mutex and start the loop over the next map. -/
  | enter
  /-- Start a round of the inner loop. -/
  | pull
  /-- Awakened and with the mutex again, test the queue again. -/
  | recheck
  /-- After ten rounds, delete the pool and go to the next entry. -/
  | delete
  /-- At the end of the map, clear it and unlock the mutex. -/
  | clear
  | other (a : Action τ)

/-- What other threads do: no call for a connection and no insertion starts or is under way, and a
release needs the mutex and the pool of its key. -/
def Shutdown.other (d : Shutdown τ) : Action τ → Option (Shutdown τ)
  | .release l =>
    if d.phase.locked ∨ d.find l.key = none then none
    else (step d.container (.release l)).map fun s => { d with container := s }
  | .notify p c woken =>
    (step d.container (.notify p c woken)).map fun s => { d with container := s }
  | .spurious p c => (step d.container (.spurious p c)).map fun s => { d with container := s }
  | .fail c => (step d.container (.fail c)).map fun s => { d with container := s }
  | .insertSlots .. | .getConnection .. | .insert .. | .recheck .. => none

/-- `disconnect()` on the thread `t`, interleaved with other threads. `disconnect_` is not `NULL`:
the constructor of the cluster has checked it. -/
def disconnectStep (t : τ) (d : Shutdown τ) : Move τ → Option (Shutdown τ)
  | .enter =>
    match d.phase with
    | .outside => some { d with phase := .draining .nodes d.container.nodeEntries 0 }
    | .between => some { d with phase := .draining .connections d.container.hostEntries 0 }
    | .draining .. | .waiting .. => none
  | .pull =>
    match d.phase with
    | .draining cons (it :: rest) i => do
      let P ← d.container.pools[it.2]?
      if i < poolSize then some (d.test t cons it rest i P) else none
    | _ => none
  | .recheck =>
    match d.phase with
    | .waiting cons (it :: rest) i => do
      let P ← d.container.pools[it.2]?
      if P.pool.awake.contains ⟨t, it.1⟩ then
        some (d.test t cons it rest i
          ⟨P.owner, { P.pool with awake := P.pool.awake.erase ⟨t, it.1⟩ }⟩)
      else none
    | _ => none
  | .delete =>
    match d.phase with
    | .draining cons (it :: rest) i =>
      if i = poolSize then
        some { d with phase := .draining cons rest 0, deleted := d.deleted ++ [it.2] }
      else none
    | _ => none
  | .clear =>
    match d.phase with
    | .draining .nodes [] _ =>
      some { d with container := d.container.clear .nodes, phase := .between }
    | .draining .connections [] _ => some { d with
        container := d.container.clear .connections
        phase := .outside
        returns := d.returns + 1 }
    | _ => none
  | .other a => d.other a

/-! ## One move -/

/-- The entries that `disconnect()` still has to go through, the current one first. -/
def Shutdown.todo (d : Shutdown τ) : List (PoolKey × Ptr) :=
  match d.phase with
  | .outside => d.container.entries
  | .draining .nodes rest _ | .waiting .nodes rest _ => rest ++ d.container.hostEntries
  | .between => d.container.hostEntries
  | .draining .connections rest _ | .waiting .connections rest _ => rest

/-- The connections of a pool that have been freed. -/
def Shutdown.drained (d : Shutdown τ) (key : PoolKey) : Nat := d.freed.countP (·.1 = key)

variable {t : τ} {s₀ : State τ} {d d' : Shutdown τ}

omit [DecidableEq τ] in
/-- The current entry is still to be done. -/
theorem Shutdown.todo_current {cons : PoolMap} {it : PoolKey × Ptr} {rest : List (PoolKey × Ptr)}
    {i : Nat}
    (h : d.phase = .draining cons (it :: rest) i ∨ d.phase = .waiting cons (it :: rest) i) :
    d.todo = it :: ({ d with phase := .draining cons rest 0 } : Shutdown τ).todo := by
  rcases h with h | h <;> cases cons <;> simp [todo, h]

/-- What a move does: the loops are entered, a queue is tested, a pool is deleted, a map is cleared,
or another thread moves. -/
inductive DisconnectEffect (t : τ) (d : Shutdown τ) : Move τ → Shutdown τ → Prop
  | enterNodes {m} : d.phase = .outside →
      DisconnectEffect t d m { d with phase := .draining .nodes d.container.nodeEntries 0 }
  | enterConnections {m} : d.phase = .between →
      DisconnectEffect t d m { d with phase := .draining .connections d.container.hostEntries 0 }
  | test {m cons it rest i P awake} :
      d.phase = .draining cons (it :: rest) i ∨ d.phase = .waiting cons (it :: rest) i →
      d.container.pools[it.2]? = some P → (∀ c ∈ awake, c ∈ P.pool.awake) →
      Monitor.Step P.pool.view
        (({ P.pool with awake := awake } : ConPool (Call τ)).pull ⟨t, it.1⟩).1.view →
      DisconnectEffect t d m (d.test t cons it rest i ⟨P.owner, { P.pool with awake := awake }⟩)
  | delete {cons it rest} : d.phase = .draining cons (it :: rest) poolSize →
      DisconnectEffect t d .delete
        { d with phase := .draining cons rest 0, deleted := d.deleted ++ [it.2] }
  | clearNodes {m i} : d.phase = .draining .nodes [] i →
      DisconnectEffect t d m { d with container := d.container.clear .nodes, phase := .between }
  | clearConnections {m i} : d.phase = .draining .connections [] i →
      DisconnectEffect t d m { d with
        container := d.container.clear .connections
        phase := .outside
        returns := d.returns + 1 }
  | other {m a d'} : d.other a = some d' → DisconnectEffect t d m d'

theorem disconnectStep_delete (h : disconnectStep t d .delete = some d') :
    ∃ cons it rest, d.phase = .draining cons (it :: rest) poolSize ∧
      d' = { d with phase := .draining cons rest 0, deleted := d.deleted ++ [it.2] } := by
  simp only [disconnectStep] at h
  split at h
  · rename_i cons it rest i hphase
    simp only [Option.ite_none_right_eq_some, Option.some.injEq] at h
    obtain ⟨rfl, rfl⟩ := h
    exact ⟨cons, it, rest, hphase, rfl⟩
  · cases h

theorem disconnectStep_effect {m : Move τ} (h : disconnectStep t d m = some d') :
    DisconnectEffect t d m d' := by
  cases m with
  | enter =>
    simp only [disconnectStep] at h
    split at h
    · rename_i hphase
      cases h
      exact .enterNodes hphase
    · rename_i hphase
      cases h
      exact .enterConnections hphase
    · cases h
    · cases h
  | pull =>
    simp only [disconnectStep] at h
    split at h
    · rename_i cons it rest i hphase
      simp only [Option.bind_eq_bind, Option.bind_eq_some_iff, Option.ite_none_right_eq_some,
        Option.some.injEq] at h
      obtain ⟨P, hP, _, rfl⟩ := h
      exact .test (.inl hphase) hP (fun _ hc => hc) (P.pool.view_pull _)
    · cases h
  | recheck =>
    simp only [disconnectStep] at h
    split at h
    · rename_i cons it rest i hphase
      simp only [Option.bind_eq_bind, Option.bind_eq_some_iff, Option.ite_none_right_eq_some,
        Option.some.injEq] at h
      obtain ⟨P, hP, hawake, rfl⟩ := h
      refine .test (.inr hphase) hP (fun _ => List.mem_of_mem_erase) ?_
      exact ConPool.view_recheck (P := P.pool) (t := ⟨t, it.1⟩)
        (by rw [ConPool.recheck, if_pos (List.contains_iff_mem.mp hawake)])
    · cases h
  | delete =>
    obtain ⟨cons, it, rest, hphase, rfl⟩ := disconnectStep_delete h
    exact .delete hphase
  | clear =>
    simp only [disconnectStep] at h
    split at h
    · rename_i hphase
      cases h
      exact .clearNodes hphase
    · rename_i hphase
      cases h
      exact .clearConnections hphase
    · cases h
  | other a => exact .other h

omit [DecidableEq τ] in
/-- The test of a queue frees its front and counts a round, or leads to the wait. -/
theorem Shutdown.test_spec (cons : PoolMap) (it : PoolKey × Ptr) (rest : List (PoolKey × Ptr))
    (i : Nat) (P : Cell τ) :
    ∃ pool phase freed, d.test t cons it rest i P = { d with
        container := { d.container with pools := d.container.pools.set it.2 ⟨P.owner, pool⟩ }
        phase := phase
        freed := freed } ∧ pool = (P.pool.pull ⟨t, it.1⟩).1 ∧
      ((∃ c, freed = d.freed ++ [(it.1, c)] ∧ phase = .draining cons (it :: rest) (i + 1)) ∨
        freed = d.freed ∧ phase = .waiting cons (it :: rest) i) := by
  unfold test
  split
  · rename_i pool c hpull
    exact ⟨_, _, _, rfl, by rw [hpull], .inl ⟨c, rfl, rfl⟩⟩
  · rename_i pool hpull
    exact ⟨_, _, _, rfl, by rw [hpull], .inr ⟨rfl, rfl⟩⟩

/-! ## The disconnecting thread as a thread that keeps what it gets -/

/-- The container as it was registered, with the freed connections in the hands of the
disconnecting thread. -/
def Shutdown.kept (t : τ) (s₀ : State τ) (d : Shutdown τ) : State τ :=
  { d.container with
    nodes := s₀.nodes
    connections := s₀.connections
    held := d.container.held ++ d.freed.map fun e => ⟨t, e.1, e.2⟩ }

omit [DecidableEq τ] in
theorem Shutdown.kept_of (t : τ) (s : State τ) : (Shutdown.of s).kept t s = s := by
  simp [kept, of]

omit [DecidableEq τ] in
theorem Shutdown.lookup_kept (key : PoolKey) : (d.kept t s₀).lookup key = s₀.lookup key := by
  cases key <;> rfl

/-- The maps of a container in `disconnect()` may have lost entries, but they have no others. -/
def Shutdown.MapsOf (s₀ : State τ) (d : Shutdown τ) : Prop :=
  ∀ key p, d.container.lookup key = some p → s₀.lookup key = some p

/-- What another thread does to the container it does to the kept one, and the maps stay. -/
theorem Shutdown.other_kept (hmaps : d.MapsOf s₀) {a : Action τ} (h : d.other a = some d') :
    step (d.kept t s₀) a = some (d'.kept t s₀) ∧
      ∃ s, d' = { d with container := s } ∧ s.nodes = d.container.nodes ∧
        s.connections = d.container.connections := by
  have honPool {p : Ptr} {f : ConPool (Call τ) → Option (ConPool (Call τ))} {s : State τ}
      (hs : d.container.onPool p f = some s) :
      (d.kept t s₀).onPool p f = some (({ d with container := s } : Shutdown τ).kept t s₀) ∧
        s.nodes = d.container.nodes ∧ s.connections = d.container.connections := by
    obtain ⟨P, pool, hP, hpool, rfl⟩ := State.onPool_spec hs
    have hP' : (d.kept t s₀).pools[p]? = some P := hP
    refine ⟨?_, rfl, rfl⟩
    simp only [State.onPool, hP', Option.bind_eq_bind, Option.bind_some, hpool, Option.pure_def]
    rfl
  cases a with
  | insertSlots | getConnection | insert | recheck => cases h
  | spurious p c =>
    obtain ⟨s, hs, rfl⟩ := Option.map_eq_some_iff.mp h
    have hpool := honPool (f := (·.spurious c)) hs
    exact ⟨hpool.1, s, rfl, hpool.2⟩
  | notify p c woken =>
    obtain ⟨s, hs, rfl⟩ := Option.map_eq_some_iff.mp h
    have hpool := honPool (f := (·.notify c woken)) hs
    exact ⟨hpool.1, s, rfl, hpool.2⟩
  | fail c =>
    obtain ⟨s, hs, rfl⟩ := Option.map_eq_some_iff.mp h
    simp only [step, Option.ite_none_right_eq_some, Option.some.injEq] at hs
    obtain ⟨hc, rfl⟩ := hs
    have hc' : (d.kept t s₀).held.any (·.conn = c) = true := by
      rw [kept, List.any_append, hc, Bool.true_or]
    refine ⟨?_, _, rfl, rfl, rfl⟩
    simp only [step, hc', if_true]
    rfl
  | release l =>
    simp only [other, Option.ite_none_left_eq_some] at h
    obtain ⟨s, hs, rfl⟩ := Option.map_eq_some_iff.mp h.2
    obtain ⟨hl, hbusy, p, P, hp, hP, rfl⟩ := State.release_spec hs
    refine ⟨?_, _, rfl, rfl, rfl⟩
    have hl' : l ∈ (d.kept t s₀).held := List.mem_append_left _ hl
    have hbusy' : ¬ (d.kept t s₀).busy l.thread = true := hbusy
    have hp' : (d.kept t s₀).lookup l.key = some p := (lookup_kept l.key).trans (hmaps _ _ hp)
    have hP' : (d.kept t s₀).pools[p]? = some P := hP
    rw [step, if_pos ⟨hl', hbusy'⟩]
    simp only [State.releaseConnection, Option.bind_eq_bind, hp', Option.bind_some, hP',
      Option.pure_def]
    simp only [kept, List.erase_append_left _ hl]

omit [DecidableEq τ] in
/-- A test of the disconnecting thread is a `pullConnection` of the kept container. -/
theorem Shutdown.kept_test (cons : PoolMap) (it : PoolKey × Ptr) (rest : List (PoolKey × Ptr))
    (i : Nat) {P : Cell τ} (hP : d.container.pools[it.2]? = some P) (awake : List (Call τ)) :
    (d.test t cons it rest i ⟨P.owner, { P.pool with awake := awake }⟩).kept t s₀ =
      ((d.kept t s₀).thinned it.2 P awake).pullConnection t it.2 it.1 := by
  have hp := (List.getElem?_eq_some_iff.mp hP).1
  have hset : ((d.kept t s₀).thinned it.2 P awake).pools[it.2]? =
      some ⟨P.owner, { P.pool with awake := awake }⟩ := List.getElem?_set_self hp
  rw [State.pullConnection, hset]
  cases hq : P.pool.queue with
  | nil => simp [test, ConPool.pull, hq, kept, State.thinned, List.set_set]
  | cons c q => simp [test, ConPool.pull, hq, kept, State.thinned, List.set_set]

omit [DecidableEq τ] in
/-- An entry of a map refers to its pool. -/
theorem State.refers_of_entry {s : State τ} {it : PoolKey × Ptr} (h : it ∈ s.entries) :
    s.Refers it.2 it.1 := by
  rcases List.mem_append.mp h with h | h
  · obtain ⟨n, hn, rfl⟩ := List.mem_map.mp h
    exact .inl ⟨n.1, rfl, hn⟩
  · obtain ⟨n, hn, rfl⟩ := List.mem_map.mp h
    exact .inr (.inl ⟨n.1, rfl, hn⟩)

/-- The other threads open no pool. -/
theorem Shutdown.other_opens {s : State τ} {a : Action τ} {key : PoolKey} {k : Nat}
    (h : d.other a = some d') : ¬ a.Opens s key k := by
  cases a with
  | insertSlots | insert => cases h
  | getConnection | spurious | recheck | release | notify | fail => exact id

open Relation (ReflTransGen)

/-- Every move is a sequence of effects on the kept container that opens no pool. -/
theorem DisconnectEffect.kept {O : State τ → PoolKey → Nat → Prop} (hmaps : d.MapsOf s₀)
    (htodo : ∀ it ∈ d.todo, it ∈ s₀.entries) {m : Move τ} (h : DisconnectEffect t d m d') :
    ReflTransGen (Effect O fun _ _ => True) (d.kept t s₀) (d'.kept t s₀) := by
  cases h with
  | enterNodes | enterConnections | delete | clearNodes | clearConnections => exact .refl
  | @test _ cons it rest i P awake hphase hP hawake hview =>
    have hmem : it ∈ d.todo := Shutdown.todo_current hphase ▸ List.mem_cons_self
    have heff := State.pullConnection_thinned_effect (s := d.kept t s₀) (O := O)
      (R := fun _ _ => True) t hP hawake (State.refers_of_entry (htodo it hmem)) hview
    rw [← Shutdown.kept_test cons it rest i hP] at heff
    exact .single heff
  | other h =>
    exact step_effect (fun _ _ ho => absurd ho (Shutdown.other_opens h)) (fun _ _ => trivial)
      (Shutdown.other_kept hmaps h).1

end AsioCoroFrame.ThreadedPool
