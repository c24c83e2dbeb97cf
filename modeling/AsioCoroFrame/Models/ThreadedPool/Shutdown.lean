import AsioCoroFrame.Models.ThreadedPool.Disconnect
import AsioCoroFrame.Models.ThreadedPool.Exclusivity

/-!
# Every connection is freed once

To the accounting of the container the disconnecting thread is one that takes
connections and never gives them back. A pool is deleted when ten of its
connections have been taken, and those are all it has: nobody holds one, and
every release still finds its pool. Only the notification that follows a
release can come too late.
-/

namespace AsioCoroFrame.ThreadedPool

variable {τ : Type} [DecidableEq τ] {s s' s₀ : State τ} {t : τ} {d d' : Shutdown τ}

/-! ## Every pool is an entry of one map -/

/-- The maps have one entry for each pool. -/
structure Listed (s : State τ) : Prop where
  nodup : (s.entries.map Prod.snd).Nodup
  complete : ∀ p key, s.ownerAt p = some key → (key, p) ∈ s.entries

omit [DecidableEq τ] in
/-- An entry bears the key its pool was created for. -/
theorem Typed.entry (h : Typed s) {e : PoolKey × Ptr} (he : e ∈ s.entries) :
    s.ownerAt e.2 = some e.1 := h.refers _ _ (State.refers_of_entry he)

omit [DecidableEq τ] in
/-- No two entries have one key. -/
theorem Typed.entry_unique (h : Typed s) {e e' : PoolKey × Ptr} (he : e ∈ s.entries)
    (he' : e' ∈ s.entries) (hkey : e.1 = e'.1) : e = e' := by
  have hlook := h.registered _ _ (h.entry he)
  rw [hkey, h.registered _ _ (h.entry he')] at hlook
  exact Prod.ext hkey (Option.some.inj hlook).symm

omit [DecidableEq τ] in
/-- A pool that is opened under a new key becomes an entry. -/
theorem entries_opened {key : PoolKey} (k : Nat) (hnone : s.lookup key = none) :
    (s.opened key k).entries.Perm ((key, s.pools.length) :: s.entries) := by
  cases key with
  | slots r =>
    have hnodes : (s.opened (.slots r) k).nodeEntries.Perm
        ((.slots r, s.pools.length) :: s.nodeEntries) := by
      rw [State.nodeEntries, nodes_opened k hnone]
      exact (perm_insertBefore _ _ _).map _
    exact hnodes.append_right _
  | host h =>
    have hhosts : (s.opened (.host h) k).hostEntries.Perm
        ((.host h, s.pools.length) :: s.hostEntries) := (perm_insertBefore _ _ _).map _
    exact (hhosts.append_left _).trans List.perm_middle

omit [DecidableEq τ] in
theorem Listed.opened (ht : Typed s) (h : Listed s) {key : PoolKey} (k : Nat)
    (hnone : s.lookup key = none) : Listed (s.opened key k) := by
  have hperm := entries_opened k hnone
  constructor
  · rw [(hperm.map _).nodup_iff, List.map_cons, List.nodup_cons]
    refine ⟨fun hmem => ?_, h.nodup⟩
    obtain ⟨e, he, hp⟩ := List.mem_map.mp hmem
    have hown := ht.entry he
    rw [hp, State.ownerAt, List.getElem?_eq_none le_rfl] at hown
    cases hown
  · intro p key' ho
    rw [hperm.mem_iff, List.mem_cons]
    rcases (ownerAt_opened ..).mp ho with ho | ⟨rfl, rfl⟩
    · exact .inr (h.complete p key' ho)
    · exact .inl rfl

omit [DecidableEq τ] in
theorem Listed.update (h : Listed s) {p : Ptr} {P : Cell τ} (pool : ConPool (Call τ))
    (hP : s.pools[p]? = some P) (hpools : s'.pools = s.pools.set p ⟨P.owner, pool⟩)
    (hentries : s'.entries = s.entries) : Listed s' :=
  ⟨hentries ▸ h.nodup, fun q key ho =>
    hentries ▸ h.complete q key (ownerAt_set pool hP hpools q ▸ ho)⟩

theorem Listed.effect {O : State τ → PoolKey → Nat → Prop} {R : State τ → Lease τ → Prop}
    (hO : ∀ key k, O s key k → s.lookup key = none) (ht : Typed s) (h : Listed s)
    (he : Effect O R s s') : Listed s' := by
  cases he with
  | opened ho => exact h.opened ht _ (hO _ _ ho)
  | take _ hP | signal hP | put _ _ _ hP => exact h.update _ hP rfl rfl
  | fail => exact ⟨h.nodup, h.complete⟩

/-- What the accounting of a container rests on. -/
structure Intact (s : State τ) : Prop where
  typed : Typed s
  listed : Listed s
  full : Full s
  conserved : Conserved s

theorem Intact.effect {R : State τ → Lease τ → Prop} (h : Intact s)
    (he : Effect OpensFully R s s') : Intact s' where
  typed := h.typed.effect (fun _ _ ho => ho.1) he
  listed := h.listed.effect (fun _ _ ho => ho.1) h.typed he
  full := Full.effect h.typed h.full he
  conserved := h.conserved.effect he

theorem intact_of_run {as : List (Action τ)} (h : Run step Admissible initial as s) : Intact s := by
  refine h.invariant (P := Intact) ⟨typed_initial, ⟨List.nodup_nil, by simp [initial,
    State.ownerAt]⟩, by simp [initial, Full, State.ownerAt], conserved_initial⟩
    fun s a s' hs hok hstep => ?_
  exact step_invariant (R := fun _ _ => True) (fun _ _ => Intact.effect)
    (fun _ _ ho => hok.opensFully ho) (fun _ _ => trivial) hstep hs

/-! ## Progress -/

/-- The rounds of the inner loop that have been made for an entry which is not done. -/
def Phase.rounds (phase : Phase) (e : PoolKey × Ptr) : Nat :=
  match phase with
  | .draining _ (it :: _) i | .waiting _ (it :: _) i => if it = e then i else 0
  | _ => 0

/-- Whether `nodes_` has been cleared in this call. -/
def Phase.second : Phase → Bool
  | .between | .draining .connections .. | .waiting .connections .. => true
  | .outside | .draining .nodes .. | .waiting .nodes .. => false

@[simp] theorem Phase.rounds_start (cons : PoolMap) (rest : List (PoolKey × Ptr))
    (e : PoolKey × Ptr) : (Phase.draining cons rest 0).rounds e = 0 := by
  cases rest <;> simp [rounds]

/-- What `disconnect()` has done so far of the entries of `s₀`: those that are done have lost all
their connections, and those that are not are still found. -/
structure Closing (s₀ : State τ) (d : Shutdown τ) : Prop where
  maps : d.MapsOf s₀
  present : ∀ e ∈ d.todo, d.container.lookup e.1 = some e.2
  cleared : d.phase.second = true → d.container.nodes = []
  returned : 0 < d.returns → d.todo = [] ∧ d.container.nodes = [] ∧ d.container.connections = []
  progress : ∃ done, s₀.entries = done ++ d.todo ∧ d.deleted = done.map Prod.snd ∧
    (∀ e ∈ done, d.drained e.1 = poolSize) ∧ ∀ e ∈ d.todo, d.drained e.1 = d.phase.rounds e

omit [DecidableEq τ] in
theorem closing_of (ht : Typed s₀) : Closing s₀ (.of s₀) where
  maps _ _ h := h
  present _ he := ht.registered _ _ (ht.entry he)
  cleared h := absurd h Bool.false_ne_true
  returned h := absurd h (Nat.lt_irrefl 0)
  progress := ⟨[], rfl, rfl, by simp, fun _ _ => rfl⟩

omit [DecidableEq τ] in
/-- Entries of the same maps are found under the same keys. -/
theorem lookup_congr (hnodes : s'.nodes = s.nodes) (hconns : s'.connections = s.connections)
    (key : PoolKey) : s'.lookup key = s.lookup key := by
  cases key with
  | slots r => rw [State.lookup, State.lookup, hnodes]
  | host h => rw [State.lookup, State.lookup, hconns]

omit [DecidableEq τ] in
/-- A change behind the maps, with the loops where they were. -/
theorem Closing.update (h : Closing s₀ d) (hnodes : d'.container.nodes = d.container.nodes)
    (hconns : d'.container.connections = d.container.connections) (htodo : d'.todo = d.todo)
    (hsecond : d'.phase.second = d.phase.second) (hreturns : d'.returns = d.returns)
    (hdeleted : d'.deleted = d.deleted)
    (hdone : ∀ e ∈ s₀.entries, e ∉ d.todo → d'.drained e.1 = d.drained e.1)
    (hcount : ∀ e ∈ d.todo, d.drained e.1 = d.phase.rounds e →
      d'.drained e.1 = d'.phase.rounds e)
    (hnodup : (s₀.entries.map Prod.snd).Nodup) : Closing s₀ d' := by
  have hlook := lookup_congr hnodes hconns
  obtain ⟨done, hsplit, hdel, hall, hrest⟩ := h.progress
  refine ⟨?_, ?_, ?_, ?_, done, ?_, ?_, ?_, ?_⟩
  · intro key p hp
    exact h.maps key p (hlook key ▸ hp)
  · intro e he
    exact (hlook e.1).trans (h.present e (htodo ▸ he))
  · intro hs
    exact hnodes.trans (h.cleared (hsecond ▸ hs))
  · intro hr
    obtain ⟨htd, hn, hc⟩ := h.returned (hreturns ▸ hr)
    exact ⟨htodo.trans htd, hnodes.trans hn, hconns.trans hc⟩
  · rw [htodo, hsplit]
  · rw [hdeleted, hdel]
  · intro e he
    have hdisj : e ∉ d.todo := by
      rw [hsplit, List.map_append] at hnodup
      intro hmem
      exact (List.nodup_append.mp hnodup).2.2 e.2 (List.mem_map_of_mem he) e.2
        (List.mem_map_of_mem hmem) rfl
    rw [hdone e (hsplit ▸ List.mem_append_left _ he) hdisj, hall e he]
  · intro e he
    rw [htodo] at he
    exact hcount e he (hrest e he)

omit [DecidableEq τ] in
theorem todo_subset (h : Closing s₀ d) {e : PoolKey × Ptr} (he : e ∈ d.todo) : e ∈ s₀.entries := by
  obtain ⟨done, hsplit, _⟩ := h.progress
  exact hsplit ▸ List.mem_append_right _ he

omit [DecidableEq τ] in
/-- A test leaves the loop over the map where it is. -/
theorem Shutdown.test_same {cons : PoolMap} {it : PoolKey × Ptr} {rest : List (PoolKey × Ptr)}
    {i : Nat} (P : Cell τ)
    (h : d.phase = .draining cons (it :: rest) i ∨ d.phase = .waiting cons (it :: rest) i) :
    (d.test t cons it rest i P).todo = d.todo ∧
      (d.test t cons it rest i P).phase.second = d.phase.second := by
  obtain ⟨pool, phase, freed, hd', _, hcases⟩ := test_spec (d := d) (t := t) cons it rest i P
  rw [hd']
  rcases hcases with ⟨c, rfl, rfl⟩ | ⟨rfl, rfl⟩ <;> rcases h with h | h <;> cases cons <;>
    simp [todo, Phase.second, h, State.hostEntries]

omit [DecidableEq τ] in
/-- A round of the inner loop frees a connection of the current pool, or waits. -/
theorem Closing.test (ht : Typed s₀) (hl : Listed s₀) (h : Closing s₀ d) {cons : PoolMap}
    {it : PoolKey × Ptr} {rest : List (PoolKey × Ptr)} {i : Nat} (P : Cell τ)
    (hphase : d.phase = .draining cons (it :: rest) i ∨ d.phase = .waiting cons (it :: rest) i) :
    Closing s₀ (d.test t cons it rest i P) := by
  obtain ⟨pool, phase, freed, hd', _, hcases⟩ :=
    Shutdown.test_spec (d := d) (t := t) cons it rest i P
  have hit : it ∈ d.todo := Shutdown.todo_current hphase ▸ List.mem_cons_self
  have hrounds (e : PoolKey × Ptr) : d.phase.rounds e = if it = e then i else 0 := by
    rcases hphase with hphase | hphase <;> simp [Phase.rounds, hphase]
  have hother {e : PoolKey × Ptr} (he : e ∈ s₀.entries) (hne : e ≠ it) : it.1 ≠ e.1 := fun hkey =>
    hne (ht.entry_unique he (todo_subset h hit) hkey.symm)
  have hsame := Shutdown.test_same (t := t) P hphase
  rw [hd'] at hsame ⊢
  obtain ⟨htodo, hsecond⟩ := hsame
  rcases hcases with ⟨c, rfl, rfl⟩ | ⟨rfl, rfl⟩
  · refine h.update rfl rfl htodo hsecond rfl rfl ?_ ?_ hl.nodup
    · intro e he hnot
      have hne : e ≠ it := fun heq => hnot (heq ▸ hit)
      simp [Shutdown.drained, List.countP_append, hother he hne]
    · intro e he hcount
      by_cases heq : e = it
      · subst heq
        rw [hrounds, if_pos rfl] at hcount
        simp [Shutdown.drained, List.countP_append, Phase.rounds] at hcount ⊢
        exact hcount
      · have hkey := hother (todo_subset h he) heq
        rw [hrounds, if_neg (Ne.symm heq)] at hcount
        simp [Shutdown.drained, List.countP_append, Phase.rounds, hkey, Ne.symm heq] at hcount ⊢
        exact hcount
  · refine h.update rfl rfl htodo hsecond rfl rfl (fun _ _ _ => rfl) ?_ hl.nodup
    intro e _ hcount
    rw [hrounds] at hcount
    exact hcount

omit [DecidableEq τ] in
/-- Ten rounds are made before a pool is deleted. -/
theorem Closing.delete (hl : Listed s₀) (h : Closing s₀ d) {cons : PoolMap} {it : PoolKey × Ptr}
    {rest : List (PoolKey × Ptr)} (hphase : d.phase = .draining cons (it :: rest) poolSize) :
    Closing s₀ { d with phase := .draining cons rest 0, deleted := d.deleted ++ [it.2] } := by
  have htodo : d.todo = it :: (Shutdown.todo { d with
      phase := .draining cons rest 0, deleted := d.deleted ++ [it.2] }) :=
    Shutdown.todo_current (.inl hphase)
  obtain ⟨done, hsplit, hdel, hall, hrest⟩ := h.progress
  have hnodup := hl.nodup.of_map
  rw [hsplit, htodo] at hnodup
  refine ⟨h.maps, ?_, ?_, ?_, done ++ [it], ?_, ?_, ?_, ?_⟩
  · exact fun e he => h.present e (htodo ▸ List.mem_cons_of_mem it he)
  · intro hs
    refine h.cleared ?_
    cases cons <;> simp [hphase, Phase.second] at hs ⊢
  · intro hr
    have hnil := (h.returned hr).1
    rw [htodo] at hnil
    exact absurd hnil (List.cons_ne_nil _ _)
  · rw [hsplit, htodo, List.append_assoc, List.singleton_append]
  · simp [hdel]
  · intro e he
    rcases List.mem_append.mp he with he | he
    · exact hall e he
    · rw [List.mem_singleton] at he
      subst he
      have hcount := hrest e (htodo ▸ List.mem_cons_self)
      rw [hphase, Phase.rounds, if_pos rfl] at hcount
      exact hcount
  · intro e he
    have hne : it ≠ e := by
      rintro rfl
      exact (List.nodup_cons.mp (List.nodup_append.mp hnodup).2.1).1 he
    have hcount := hrest e (htodo ▸ List.mem_cons_of_mem it he)
    rw [hphase, Phase.rounds, if_neg hne] at hcount
    exact hcount.trans (Phase.rounds_start cons rest e).symm

omit [DecidableEq τ] in
/-- The first map is cleared when its entries are done; the second one is found as before. -/
theorem Closing.clearNodes (h : Closing s₀ d) {i : Nat} (hphase : d.phase = .draining .nodes [] i) :
    Closing s₀ { d with container := d.container.clear .nodes, phase := .between } := by
  have htodo : Shutdown.todo { d with
      container := d.container.clear .nodes, phase := .between } = d.todo := by
    simp [Shutdown.todo, hphase, State.hostEntries, State.clear]
  obtain ⟨done, hsplit, hdel, hall, hrest⟩ := h.progress
  refine ⟨?_, ?_, fun _ => rfl, ?_, done, ?_, hdel, hall, ?_⟩
  · intro key p hp
    cases key with
    | slots r => exact absurd hp (by simp [State.lookup, State.clear])
    | host g => exact h.maps (.host g) p hp
  · intro e he
    obtain ⟨n, _, rfl⟩ := List.mem_map.mp (show e ∈ d.container.hostEntries from he)
    rw [htodo] at he
    exact h.present _ he
  · intro hr
    obtain ⟨hnil, _, hc⟩ := h.returned hr
    exact ⟨htodo.trans hnil, rfl, hc⟩
  · rw [htodo, hsplit]
  · intro e he
    have hcount := hrest e (htodo ▸ he)
    rw [hphase] at hcount
    exact hcount

omit [DecidableEq τ] in
/-- After the second map everything is done. -/
theorem Closing.clearConnections (h : Closing s₀ d) {i : Nat}
    (hphase : d.phase = .draining .connections [] i) :
    Closing s₀ { d with
      container := d.container.clear .connections
      phase := .outside
      returns := d.returns + 1 } := by
  have htodo : d.todo = [] := by simp [Shutdown.todo, hphase]
  have hnodes : d.container.nodes = [] := h.cleared (by rw [hphase]; rfl)
  have hnil : Shutdown.todo { d with
      container := d.container.clear .connections
      phase := .outside
      returns := d.returns + 1 } = [] := by
    simp [Shutdown.todo, State.entries, State.nodeEntries, State.hostEntries, State.clear, hnodes]
  obtain ⟨done, hsplit, hdel, hall, _⟩ := h.progress
  refine ⟨?_, ?_, fun hs => absurd hs Bool.false_ne_true, fun _ => ⟨hnil, hnodes, rfl⟩, done, ?_,
    hdel, hall, ?_⟩
  · intro key p hp
    cases key with
    | slots r => exact h.maps (.slots r) p hp
    | host g => exact absurd hp (by simp [State.lookup, State.clear])
  · rw [hnil]
    simp
  · rw [hnil, hsplit, htodo]
  · rw [hnil]
    simp

theorem Closing.effect (ht : Typed s₀) (hl : Listed s₀) (h : Closing s₀ d) {m : Move τ}
    (he : DisconnectEffect t d m d') : Closing s₀ d' := by
  cases he with
  | enterNodes hphase =>
    refine h.update rfl rfl ?_ (by simp [hphase, Phase.second]) rfl rfl (fun _ _ _ => rfl) ?_
      hl.nodup
    · simp [Shutdown.todo, hphase, State.entries]
    · intro e _ hcount
      rw [hphase] at hcount
      exact hcount.trans (Phase.rounds_start _ _ e).symm
  | enterConnections hphase =>
    refine h.update rfl rfl ?_ (by simp [hphase, Phase.second]) rfl rfl (fun _ _ _ => rfl) ?_
      hl.nodup
    · simp [Shutdown.todo, hphase]
    · intro e _ hcount
      rw [hphase] at hcount
      exact hcount.trans (Phase.rounds_start _ _ e).symm
  | test hphase _ _ _ => exact h.test ht hl _ hphase
  | delete hphase => exact h.delete hl hphase
  | clearNodes hphase => exact h.clearNodes hphase
  | clearConnections hphase => exact h.clearConnections hphase
  | other hother =>
    obtain ⟨_, s, rfl, hnodes, hconns⟩ := Shutdown.other_kept (t := t) h.maps hother
    have hhosts : s.hostEntries = d.container.hostEntries := by
      rw [State.hostEntries, State.hostEntries, hconns]
    have hentries : s.entries = d.container.entries := by
      rw [State.entries, State.entries, hhosts, State.nodeEntries, State.nodeEntries, hnodes]
    refine h.update hnodes hconns ?_ rfl rfl rfl (fun _ _ _ => rfl) (fun _ _ hcount => hcount)
      hl.nodup
    simp only [Shutdown.todo, hhosts, hentries]

/-! ## Accounting -/

/-- What is promised of the connections: none that is held is freed, none is freed twice, every
release finds its pool; and once `disconnect()` has returned, all have been freed and the maps are
empty, so that another call has nothing to free. -/
structure Accounted (d : Shutdown τ) : Prop where
  unheld : ∀ l ∈ d.container.held, l.conn ∉ d.freed.map Prod.snd
  once : (d.freed.map Prod.snd).Nodup
  found : ∀ l ∈ d.container.held, ∃ p, d.find l.key = some p
  returned : 0 < d.returns →
    (d.freed.map Prod.snd).Perm (d.container.created.map Prod.snd) ∧
      d.container.nodes = [] ∧ d.container.connections = []

omit [DecidableEq τ] in
theorem kept_held : ((d.kept t s₀).held.map (·.conn)) =
    d.container.held.map (·.conn) ++ d.freed.map Prod.snd := by
  simp [Shutdown.kept]

omit [DecidableEq τ] in
/-- A pool whose ten connections have been freed has no others. -/
theorem Intact.drained (h : Intact (d.kept t s₀)) {e : PoolKey × Ptr} (he : e ∈ s₀.entries)
    (hdrained : d.drained e.1 = poolSize) :
    (∀ P, d.container.pools[e.2]? = some P → P.pool.queue = []) ∧
      ∀ l ∈ d.container.held, l.key ≠ e.1 := by
  have hown : (d.kept t s₀).ownerAt e.2 = some e.1 := h.typed.entry he
  obtain ⟨P, hP, hkey⟩ := Option.map_eq_some_iff.mp hown
  have hcount := h.typed.queue_add_held h.full h.conserved hP
  have hfreed : (d.freed.map fun e => (⟨t, e.1, e.2⟩ : Lease τ)).countP (·.key = e.1) =
      poolSize := by
    rw [List.countP_map, ← hdrained]
    rfl
  have hheld : (d.kept t s₀).held =
      d.container.held ++ d.freed.map fun e => ⟨t, e.1, e.2⟩ := rfl
  rw [hkey, hheld, List.countP_append, hfreed] at hcount
  constructor
  · intro P' hP'
    obtain rfl := Option.some.inj (hP.symm.trans hP')
    exact List.length_eq_zero_iff.mp (by omega)
  · intro l hl hlkey
    have hzero : d.container.held.countP (·.key = e.1) = 0 := by omega
    exact List.countP_eq_zero.mp hzero l hl (decide_eq_true hlkey)

omit [DecidableEq τ] in
/-- Every created connection, and so every one that is held, has an entry of its key. -/
theorem Intact.entry_of_created (h : Intact (d.kept t s₀)) {key : PoolKey} {c : Conn}
    (hc : (key, c) ∈ d.container.created) : ∃ p, (key, p) ∈ s₀.entries := by
  obtain ⟨p, hp⟩ := h.typed.origin (key, c) hc
  exact ⟨p, h.listed.complete p key hp⟩

omit [DecidableEq τ] in
theorem Intact.entry_of_held (h : Intact (d.kept t s₀)) {l : Lease τ}
    (hl : l ∈ d.container.held) : ∃ p, (l.key, p) ∈ s₀.entries :=
  h.entry_of_created (h.typed.leased l (List.mem_append_left _ hl))

omit [DecidableEq τ] in
/-- The pool of a held connection is not done, and is found. -/
theorem Closing.found (h : Closing s₀ d) (hs : Intact (d.kept t s₀)) {l : Lease τ}
    (hl : l ∈ d.container.held) : ∃ p, d.find l.key = some p := by
  obtain ⟨p, hp⟩ := hs.entry_of_held hl
  obtain ⟨done, hsplit, hdel, hall, _⟩ := h.progress
  have hnot : (l.key, p) ∉ done := fun hmem =>
    (hs.drained hp (hall _ hmem)).2 l hl rfl
  have htodo : (l.key, p) ∈ d.todo :=
    (List.mem_append.mp (hsplit ▸ hp)).resolve_left hnot
  have hlive : p ∉ d.deleted := by
    have hnodup : (s₀.entries.map Prod.snd).Nodup := hs.listed.nodup
    rw [hsplit, List.map_append] at hnodup
    intro hmem
    exact (List.nodup_append.mp hnodup).2.2 p (hdel ▸ hmem) p
      (List.mem_map.mpr ⟨_, htodo, rfl⟩) rfl
  refine ⟨p, ?_⟩
  rw [Shutdown.find, h.present _ htodo]
  simp [hlive]

omit [DecidableEq τ] in
/-- When all entries are done, all connections have been freed. -/
theorem Closing.complete (h : Closing s₀ d) (hs : Intact (d.kept t s₀)) (htodo : d.todo = []) :
    (d.freed.map Prod.snd).Perm (d.container.created.map Prod.snd) := by
  obtain ⟨done, hsplit, _, hall, _⟩ := h.progress
  rw [htodo, List.append_nil] at hsplit
  have hdrained {e : PoolKey × Ptr} (he : e ∈ s₀.entries) := hs.drained he (hall e (hsplit ▸ he))
  have hheld : d.container.held = [] := by
    refine List.eq_nil_iff_forall_not_mem.mpr fun l hl => ?_
    obtain ⟨p, hp⟩ := hs.entry_of_held hl
    exact (hdrained hp).2 l hl rfl
  have hqueues : d.container.pools.flatMap (·.pool.queue) = [] := by
    refine List.flatMap_eq_nil_iff.mpr fun P hP => ?_
    obtain ⟨p, hp⟩ := List.mem_iff_getElem?.mp hP
    have hentry : (P.owner, p) ∈ s₀.entries := hs.listed.complete p P.owner
      (by rw [State.ownerAt, show (d.kept t s₀).pools = d.container.pools from rfl, hp]; rfl)
    exact (hdrained hentry).1 P hp
  have hperm := hs.conserved.perm
  rw [kept_held, hheld, show (d.kept t s₀).pools = d.container.pools from rfl, hqueues] at hperm
  exact hperm

omit [DecidableEq τ] in
/-- The accounting of the kept container, read for the container and the freed connections. -/
theorem Closing.accounted (h : Closing s₀ d) (hs : Intact (d.kept t s₀)) : Accounted d := by
  have hnodup := hs.conserved.perm.nodup_iff.mpr hs.conserved.nodup
  rw [kept_held, List.nodup_append] at hnodup
  obtain ⟨_, hfreed, hdisjoint⟩ := List.nodup_append.mp hnodup.2.1
  refine ⟨fun l hl hmem => ?_, hfreed, fun l hl => h.found hs hl, fun hr => ?_⟩
  · exact hdisjoint l.conn (List.mem_map_of_mem hl) l.conn hmem rfl
  · obtain ⟨htodo, hnodes, hconns⟩ := h.returned hr
    exact ⟨h.complete hs htodo, hnodes, hconns⟩

/-- The connections are accounted for in every state of every run. -/
theorem accounted_of_run {as : List (Action τ)} {ms : List (Move τ)}
    {ok : Shutdown τ → Move τ → Prop} (h₀ : Run step Admissible initial as s₀)
    (h : Run (disconnectStep t) ok (.of s₀) ms d) : Accounted d := by
  have hintact := intact_of_run h₀
  have hinv : Closing s₀ d ∧ Intact (d.kept t s₀) := by
    refine h.invariant (P := fun d => Closing s₀ d ∧ Intact (d.kept t s₀))
      ⟨closing_of hintact.typed, (Shutdown.kept_of t s₀).symm ▸ hintact⟩ fun d m d' hd _ hstep => ?_
    have heff := disconnectStep_effect hstep
    refine ⟨hd.1.effect hintact.typed hintact.listed heff, ?_⟩
    exact effects_invariant (fun _ _ => Intact.effect)
      (heff.kept hd.1.maps fun _ he => todo_subset hd.1 he) hd.2
  exact hinv.1.accounted hinv.2

/-! ## Notifications -/

/-- No thread is about to notify a pool that has been deleted. -/
def NoDangling (d : Shutdown τ) : Prop :=
  ∀ p ∈ d.deleted, ∀ P, d.container.pools[p]? = some P → P.pool.notifying = []

/-- A pool is only deleted when no thread that has pushed to it has still to notify it. -/
def Settled (d : Shutdown τ) (m : Move τ) : Prop :=
  m = .delete → ∀ cons it rest P, d.phase = .draining cons (it :: rest) poolSize →
    d.container.pools[it.2]? = some P → P.pool.notifying = []

theorem ConPool.notifying_spurious {T : Type} [DecidableEq T] {P pool : ConPool T} {c : T}
    (h : P.spurious c = some pool) : pool.notifying = P.notifying := by
  obtain ⟨_, he⟩ := Option.ite_none_right_eq_some.mp h
  obtain rfl := Option.some.inj he
  rfl

/-- A notification is one less to come. -/
theorem ConPool.notifying_notify {T : Type} [DecidableEq T] {P pool : ConPool T} {c : T}
    {woken : Option T} (h : P.notify c woken = some pool) :
    pool.notifying = P.notifying.erase c := by
  obtain ⟨_, h⟩ := Option.ite_none_right_eq_some.mp h
  cases woken with
  | none =>
    obtain ⟨_, he⟩ := Option.ite_none_right_eq_some.mp h
    obtain rfl := Option.some.inj he
    rfl
  | some u => exact notifying_spurious (P := { P with notifying := P.notifying.erase c }) h

omit [DecidableEq τ] in
/-- A pool that changes in place leaves no notification behind where there was none. -/
theorem NoDangling.set (h : NoDangling d) {p : Ptr} {P Q : Cell τ}
    (hP : d.container.pools[p]? = some P) (hQ : p ∈ d.deleted → P.pool.notifying = [] →
      Q.pool.notifying = [])
    (hpools : d'.container.pools = d.container.pools.set p Q) (hdeleted : d'.deleted = d.deleted) :
    NoDangling d' := by
  intro q hq P' hP'
  rw [hdeleted] at hq
  rw [hpools] at hP'
  by_cases he : p = q
  · subst he
    rw [List.getElem?_set_self (List.getElem?_eq_some_iff.mp hP).1] at hP'
    obtain rfl := Option.some.inj hP'
    exact hQ hq (h p hq P hP)
  · rw [List.getElem?_set_ne he] at hP'
    exact h q hq P' hP'

/-- A release pushes to a pool that has not been deleted. -/
theorem NoDangling.other (h : NoDangling d) {a : Action τ} (ha : d.other a = some d') :
    NoDangling d' := by
  cases a with
  | insertSlots | getConnection | insert | recheck => cases ha
  | spurious p c =>
    obtain ⟨s, hs, rfl⟩ := Option.map_eq_some_iff.mp ha
    obtain ⟨P, pool, hP, hpool, rfl⟩ := State.onPool_spec (f := (·.spurious c)) hs
    exact h.set hP (fun _ hnil => (ConPool.notifying_spurious hpool).trans hnil) rfl rfl
  | notify p c woken =>
    obtain ⟨s, hs, rfl⟩ := Option.map_eq_some_iff.mp ha
    obtain ⟨P, pool, hP, hpool, rfl⟩ := State.onPool_spec (f := (·.notify c woken)) hs
    refine h.set hP (fun _ hnil => ?_) rfl rfl
    rw [ConPool.notifying_notify hpool, hnil, List.erase_nil]
  | fail c =>
    obtain ⟨s, hs, rfl⟩ := Option.map_eq_some_iff.mp ha
    obtain ⟨_, he⟩ := Option.ite_none_right_eq_some.mp hs
    obtain rfl := Option.some.inj he
    exact h
  | release l =>
    simp only [Shutdown.other, Option.ite_none_left_eq_some, not_or] at ha
    obtain ⟨⟨_, hfind⟩, ha⟩ := ha
    obtain ⟨s, hs, rfl⟩ := Option.map_eq_some_iff.mp ha
    obtain ⟨_, _, p, P, hp, hP, rfl⟩ := State.release_spec hs
    refine h.set hP (fun hdel => absurd ?_ hfind) rfl rfl
    rw [Shutdown.find, hp]
    simp [hdel]

omit [DecidableEq τ] in
theorem ConPool.notifying_pull {T : Type} (P : ConPool T) (c : T) :
    (P.pull c).1.notifying = P.notifying := by
  unfold pull
  split <;> rfl

/-- Only the deletion of a pool can leave a notification behind. -/
theorem noDangling_step {m : Move τ} (h : NoDangling d) (hs : disconnectStep t d m = some d') :
    NoDangling d' ↔ Settled d m := by
  by_cases hm : m = .delete
  · subst hm
    obtain ⟨cons, it, rest, hphase, rfl⟩ := disconnectStep_delete hs
    constructor
    · intro hnew _ cons' it' rest' P hphase' hP
      obtain ⟨_, hrest, _⟩ := Phase.draining.inj (hphase.symm.trans hphase')
      obtain rfl := List.head_eq_of_cons_eq hrest
      exact hnew it.2 (List.mem_append_right _ List.mem_cons_self) P hP
    · intro hsettled p hp P hP
      rcases List.mem_append.mp hp with hp | hp
      · exact h p hp P hP
      · rw [List.mem_singleton] at hp
        subst hp
        exact hsettled rfl cons it rest P hphase hP
  · have hsettled : Settled d m := fun he => absurd he hm
    refine ⟨fun _ => hsettled, fun _ => ?_⟩
    cases disconnectStep_effect hs with
    | enterNodes | enterConnections => exact h
    | @test _ cons it rest i P awake _ hP =>
      obtain ⟨pool, phase, freed, hd', hpool, _⟩ := Shutdown.test_spec (d := d) (t := t) cons it
        rest i ⟨P.owner, { P.pool with awake := awake }⟩
      rw [hd']
      refine h.set hP (fun _ hnil => ?_) rfl rfl
      rw [hpool, ConPool.notifying_pull]
      exact hnil
    | delete => exact absurd rfl hm
    | clearNodes | clearConnections => exact h
    | other ha => exact h.other ha

/-- In every run of `disconnect()` against the releases of other threads, from every container that
was reached with all connects succeeding, the connections are accounted for in every state. All is
well in every state, notifications included, exactly when no pool is deleted before the threads
that have pushed to it have notified it. -/
theorem shutdown_safe_iff {as : List (Action τ)} (h₀ : Run step Admissible initial as s₀) (t : τ)
    {ms : List (Move τ)} (h : Run (disconnectStep t) (fun _ _ => True) (.of s₀) ms d) :
    (∀ pre m, pre <+: ms → Run (disconnectStep t) (fun _ _ => True) (.of s₀) pre m →
        Accounted m) ∧
      ((∀ pre m, pre <+: ms → Run (disconnectStep t) (fun _ _ => True) (.of s₀) pre m →
          Accounted m ∧ NoDangling m) ↔
        ∀ pre a m, pre ++ [a] <+: ms →
          Run (disconnectStep t) (fun _ _ => True) (.of s₀) pre m → Settled m a) := by
  have haccounted : ∀ pre m, pre <+: ms →
      Run (disconnectStep t) (fun _ _ => True) (.of s₀) pre m → Accounted m :=
    fun pre m _ hm => accounted_of_run h₀ hm
  have hinit : NoDangling (.of s₀) := fun p hp => absurd hp List.not_mem_nil
  have hnotified := h.always_iff hinit fun _ _ _ hd hs => noDangling_step hd hs
  refine ⟨haccounted, ?_⟩
  rw [← hnotified]
  constructor
  · exact fun hall pre m hpre hm => (hall pre m hpre hm).2
  · exact fun hall pre m hpre hm => ⟨haccounted pre m hpre hm, hall pre m hpre hm⟩

/-- All slots of a cluster of one node. -/
def allSlots : SlotRange := ⟨0, 16383⟩

/-- The container of that node after the first thread was given a connection. -/
def oneHeld : State Nat where
  nodes := [(allSlots, 0)]
  connections := []
  pools := [⟨.slots allSlots, .stocked (List.range' 1 9)⟩]
  held := [⟨0, .slots allSlots, 0⟩]
  created := (List.range 10).map (.slots allSlots, ·)
  next := 10
  broken := []

theorem run_oneHeld :
    Run step Admissible initial [.insertSlots allSlots fun _ => .ok, .getConnection 0 5] oneHeld :=
  .snoc (.snoc .nil ⟨by simp [initial], fun _ _ => rfl⟩ rfl) trivial rfl

/-- `disconnect()` waits for the connection that is held, is notified of it and returns. -/
theorem shutdown_safe_waiting :
    ∃ (ms : List (Move Nat)) (d : Shutdown Nat),
      Run (disconnectStep 1) (fun _ _ => True) (.of oneHeld) ms d ∧ d.returns = 1 ∧
        d.freed.map Prod.snd = [1, 2, 3, 4, 5, 6, 7, 8, 9, 0] ∧ Accounted d := by
  let ms : List (Move Nat) := .enter :: List.replicate 10 .pull ++
    [.other (.release ⟨0, .slots allSlots, 0⟩),
      .other (.notify 0 ⟨0, .slots allSlots⟩ (some ⟨1, .slots allSlots⟩)), .recheck, .delete,
      .clear, .enter, .clear]
  obtain ⟨d, hd, hreturns, hfreed⟩ : ∃ d, runFrom (disconnectStep 1) ms (.of oneHeld) = some d ∧
      d.returns = 1 ∧ d.freed.map Prod.snd = [1, 2, 3, 4, 5, 6, 7, 8, 9, 0] := ⟨_, rfl, rfl, rfl⟩
  have hrun : Run (disconnectStep 1) (fun _ _ => True) (.of oneHeld) ms d :=
    .of_runFrom hd fun _ _ _ _ _ _ => trivial
  exact ⟨ms, d, hrun, hreturns, hfreed,
    (shutdown_safe_iff run_oneHeld 1 hrun).1 ms d (List.prefix_refl _) hrun⟩

/-- The connection is given back, and its pool is deleted before the thread that gave it back has
notified the pool. -/
theorem notify_after_delete :
    ∃ (ms : List (Move Nat)) (d : Shutdown Nat),
      Run (disconnectStep 1) (fun _ _ => True) (.of oneHeld) ms d ∧ d.deleted = [0] ∧
        (disconnectStep 1 d (.other (.notify 0 ⟨0, .slots allSlots⟩ none))).isSome ∧
        ¬ ∀ pre m, pre <+: ms → Run (disconnectStep 1) (fun _ _ => True) (.of oneHeld) pre m →
          Accounted m ∧ NoDangling m := by
  let ms : List (Move Nat) := .other (.release ⟨0, .slots allSlots, 0⟩) :: .enter ::
    List.replicate 10 .pull ++ [.delete]
  obtain ⟨d, hd, hdeleted, hnotify, P, hP, hnotifying⟩ : ∃ d,
      runFrom (disconnectStep 1) ms (.of oneHeld) = some d ∧ d.deleted = [0] ∧
        (disconnectStep 1 d (.other (.notify 0 ⟨0, .slots allSlots⟩ none))).isSome ∧
        ∃ P, d.container.pools[0]? = some P ∧ P.pool.notifying = [⟨0, .slots allSlots⟩] :=
    ⟨_, rfl, rfl, rfl, _, rfl, rfl⟩
  have hrun : Run (disconnectStep 1) (fun _ _ => True) (.of oneHeld) ms d :=
    .of_runFrom hd fun _ _ _ _ _ _ => trivial
  refine ⟨ms, d, hrun, hdeleted, hnotify, fun hall => ?_⟩
  have hnil := (hall ms d (List.prefix_refl _) hrun).2 0 (hdeleted ▸ List.mem_cons_self) P hP
  exact absurd (hnotifying.symm.trans hnil) (List.cons_ne_nil _ _)

end AsioCoroFrame.ThreadedPool
