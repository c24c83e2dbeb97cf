import AsioCoroFrame.Core.Run
import AsioCoroFrame.Models.ThreadedPool.Effect
import Mathlib.Data.List.Nodup
import Mathlib.Data.List.Count

/-!
# Connections are neither lost nor shared

In every run whatsoever, the connections waiting in pools and those held by
threads are together exactly the ones `fillPool` has pushed. When slot ranges
have distinct first slots and all connects succeed, each connection moreover
stays with the pool it was created for, and every pool accounts for exactly
`poolSize` connections.
-/

namespace AsioCoroFrame.ThreadedPool

open Relation (ReflTransGen)

variable {τ : Type} [DecidableEq τ] {s s' : State τ}

/-! ## Conservation in every run -/

/-- Every pushed connection is in one place, and identities are never reused. -/
structure Conserved (s : State τ) : Prop where
  perm : (s.pools.flatMap (·.pool.queue) ++ s.held.map (·.conn)).Perm (s.created.map (·.2))
  nodup : (s.created.map (·.2)).Nodup
  fresh : ∀ e ∈ s.created, e.2 < s.next

omit [DecidableEq τ] in
theorem conserved_initial : Conserved (initial : State τ) :=
  ⟨by simp [initial], by simp [initial], by simp [initial]⟩

omit [DecidableEq τ] in
theorem Conserved.opened (h : Conserved s) (key : PoolKey) (k : Nat) :
    Conserved (s.opened key k) := by
  have hpools : (s.opened key k).pools = s.pools ++ [⟨key, .stocked (List.range' s.next k)⟩] := rfl
  have hcreated : (s.opened key k).created.map (·.2) =
      s.created.map (·.2) ++ List.range' s.next k := by simp [State.opened]
  have hheld : (s.opened key k).held = s.held := by cases key <;> rfl
  refine ⟨?_, ?_, ?_⟩
  · rw [hpools, hcreated, hheld, List.flatMap_append, List.flatMap_singleton, List.append_assoc]
    have hswap : (List.range' s.next k ++ s.held.map (·.conn)).Perm
        (s.held.map (·.conn) ++ List.range' s.next k) := List.perm_append_comm
    refine (hswap.append_left _).trans ?_
    rw [← List.append_assoc]
    exact h.perm.append_right _
  · rw [hcreated]
    refine h.nodup.append List.nodup_range' ?_
    intro c hc hr
    obtain ⟨e, he, rfl⟩ := List.mem_map.mp hc
    exact absurd (h.fresh e he) (Nat.not_lt.mpr (List.mem_range'_1.mp hr).1)
  · intro e he
    simp only [State.opened, List.mem_append, List.mem_map] at he ⊢
    rcases he with he | ⟨c, hc, rfl⟩
    · exact (h.fresh e he).trans_le (Nat.le_add_right _ _)
    · exact (List.mem_range'_1.mp hc).2

/-- No effect loses or duplicates a connection. -/
theorem Conserved.effect {O : State τ → PoolKey → Nat → Prop} {R : State τ → Lease τ → Prop}
    (h : Conserved s) (he : Effect O R s s') : Conserved s' := by
  cases he with
  | opened _ => exact h.opened _ _
  | @take p P c pool key t hP hq _ _ _ =>
    refine ⟨.trans ?_ h.perm, h.nodup, h.fresh⟩
    have hold := perm_flatMap_of_getElem? (fun P : Cell τ => P.pool.queue) hP
    have hnew := perm_flatMap_set ⟨P.owner, pool⟩ (fun P : Cell τ => P.pool.queue) hP
    rw [hq] at hold
    simp only [List.map_append, List.map_cons, List.map_nil]
    refine (hnew.append_right _).trans (.trans ?_ (hold.append_right _).symm)
    rw [← List.append_assoc]
    exact List.perm_append_comm
  | @signal p P pool hP hq _ _ =>
    refine ⟨.trans (.append_right _ ?_) h.perm, h.nodup, h.fresh⟩
    have hold := perm_flatMap_of_getElem? (fun P : Cell τ => P.pool.queue) hP
    have hnew := perm_flatMap_set ⟨P.owner, pool⟩ (fun P : Cell τ => P.pool.queue) hP
    rw [hq] at hnew
    exact hnew.trans hold.symm
  | @put p P l _ hl _ hP =>
    refine ⟨.trans ?_ h.perm, h.nodup, h.fresh⟩
    have hold := perm_flatMap_of_getElem? (fun P : Cell τ => P.pool.queue) hP
    have hnew := perm_flatMap_set ⟨P.owner, P.pool.push ⟨l.thread, l.key⟩ l.conn⟩
      (fun P : Cell τ => P.pool.queue) hP
    have hheld : (s.held.map (·.conn)).Perm (l.conn :: (s.held.erase l).map (·.conn)) := by
      simpa using (List.perm_cons_erase hl).map (·.conn)
    have hqueue : (P.pool.push ⟨l.thread, l.key⟩ l.conn).queue = P.pool.queue ++ [l.conn] := rfl
    rw [hqueue] at hnew
    refine (hnew.append_right _).trans (.trans ?_ (hold.append hheld).symm)
    have hmove : ([l.conn] ++ (s.pools.eraseIdx p).flatMap (fun P => P.pool.queue)).Perm
        ((s.pools.eraseIdx p).flatMap (fun P => P.pool.queue) ++ [l.conn]) :=
      List.perm_append_comm
    have := (hmove.append_left P.pool.queue).append_right ((s.held.erase l).map (·.conn))
    simpa only [List.append_assoc, List.singleton_append, List.cons_append,
      List.nil_append] using this
  | fail _ => exact ⟨h.perm, h.nodup, h.fresh⟩

/-- Every run conserves connections, whatever connects fail and whatever is inserted. -/
theorem conserved_of_run {ok : State τ → Action τ → Prop} {as : List (Action τ)}
    (h : Run step ok initial as s) : Conserved s :=
  h.invariant conserved_initial fun _ _ _ hs _ hstep =>
    step_invariant (O := fun _ _ _ => True) (R := fun _ _ => True) (fun _ _ => Conserved.effect)
      (fun _ _ _ => trivial) (fun _ _ => trivial) hstep hs

/-! ## Every connection belongs to its pool -/

/-- What the pool behind a pointer was created for. -/
def State.ownerAt (s : State τ) (p : Ptr) : Option PoolKey := s.pools[p]?.map (·.owner)

/-- The maps, the waiting threads, the queues and the leases agree on what each pool is for. -/
structure Typed (s : State τ) : Prop where
  refers : ∀ p key, s.Refers p key → s.ownerAt p = some key
  registered : ∀ p key, s.ownerAt p = some key → s.lookup key = some p
  origin : ∀ e ∈ s.created, ∃ p, s.ownerAt p = some e.1
  queued : ∀ (p : Ptr) (P : Cell τ), s.pools[p]? = some P → ∀ c ∈ P.pool.queue,
    (P.owner, c) ∈ s.created
  leased : ∀ l ∈ s.held, (l.key, l.conn) ∈ s.created

omit [DecidableEq τ] in
theorem typed_initial : Typed (initial : State τ) := by
  refine ⟨?_, ?_, ?_, ?_, ?_⟩ <;> simp [initial, State.Refers, State.ownerAt]

omit [DecidableEq τ] in
/-- Changing a pool in place does not change what any pool is for. -/
theorem ownerAt_set {p : Ptr} {P : Cell τ} (pool : ConPool (Call τ)) (hP : s.pools[p]? = some P)
    (hpools : s'.pools = s.pools.set p ⟨P.owner, pool⟩) (p' : Ptr) :
    s'.ownerAt p' = s.ownerAt p' := by
  have hp := (List.getElem?_eq_some_iff.mp hP).1
  by_cases he : p = p'
  · subst he
    rw [State.ownerAt, State.ownerAt, hpools, List.getElem?_set_self hp, hP]
    rfl
  · simp [State.ownerAt, hpools, he]

omit [DecidableEq τ] in
/-- A pool changes in place, with well-typed threads and connections. -/
theorem Typed.update (h : Typed s) {p : Ptr} {P : Cell τ} {pool : ConPool (Call τ)}
    (hP : s.pools[p]? = some P) (hnodes : s'.nodes = s.nodes)
    (hconns : s'.connections = s.connections) (hcreated : s'.created = s.created)
    (hpools : s'.pools = s.pools.set p ⟨P.owner, pool⟩)
    (hcalls : ∀ c ∈ pool.asleep ++ pool.awake, s.Refers p c.key)
    (hqueue : ∀ c ∈ pool.queue, (P.owner, c) ∈ s.created)
    (hheld : ∀ l ∈ s'.held, (l.key, l.conn) ∈ s.created) : Typed s' := by
  have hown := ownerAt_set pool hP hpools
  have hp := (List.getElem?_eq_some_iff.mp hP).1
  have hlookup : s'.lookup = s.lookup := by
    funext key
    cases key <;> simp [State.lookup, hnodes, hconns]
  refine ⟨?_, ?_, ?_, ?_, ?_⟩
  · intro p' key href
    rw [hown]
    refine h.refers p' key ?_
    rcases href with ⟨r, hr, hmem⟩ | ⟨k, hk, hmem⟩ | ⟨P', hP', c, hc, hkey⟩
    · exact .inl ⟨r, hr, hnodes ▸ hmem⟩
    · exact .inr (.inl ⟨k, hk, hconns ▸ hmem⟩)
    · by_cases he : p = p'
      · subst he
        rw [hpools, List.getElem?_set_self hp] at hP'
        cases hP'
        exact hkey ▸ hcalls c hc
      · rw [hpools, List.getElem?_set_ne he] at hP'
        exact .inr (.inr ⟨P', hP', c, hc, hkey⟩)
  · intro p' key ho
    rw [hlookup]
    exact h.registered p' key (hown p' ▸ ho)
  · intro e he
    obtain ⟨p', hp'⟩ := h.origin e (hcreated ▸ he)
    exact ⟨p', (hown p').trans hp'⟩
  · intro p' P' hP' c hc
    rw [hcreated]
    by_cases he : p = p'
    · subst he
      rw [hpools, List.getElem?_set_self hp] at hP'
      cases hP'
      exact hqueue c hc
    · rw [hpools, List.getElem?_set_ne he] at hP'
      exact h.queued p' P' hP' c hc
  · intro l hl
    rw [hcreated]
    exact hheld l hl

omit [DecidableEq τ] in
/-- A slot range with a new first slot becomes a new entry of `nodes_`. -/
theorem nodes_opened {r : SlotRange} (k : Nat) (hnone : s.lookup (.slots r) = none) :
    (s.opened (.slots r) k).nodes =
      insertBefore (fun n => r.first < n.1.first) (r, s.pools.length) s.nodes := by
  have hany : ¬ s.nodes.any (fun n => n.1.first = r.first) = true := by
    simpa [State.lookup, List.find?_eq_none] using hnone
  simp only [State.opened, State.register, assignNode, hany, Bool.false_eq_true, ite_false]

omit [DecidableEq τ] in
/-- Registering a pool under a new key finds it there and leaves all other keys alone. -/
theorem lookup_opened {key : PoolKey} (k : Nat) (hnone : s.lookup key = none) :
    (s.opened key k).lookup key = some s.pools.length ∧
      ∀ key' p, s.lookup key' = some p → (s.opened key k).lookup key' = some p := by
  cases key with
  | slots r =>
    have hnodes := nodes_opened k hnone
    have habsent : ∀ n ∈ s.nodes, n.1.first ≠ r.first := by
      simpa [State.lookup, List.find?_eq_none] using hnone
    constructor
    · rw [State.lookup, hnodes, find?_insertBefore_self (by simp) (by simpa using habsent)]
      rfl
    · intro key' p hp
      cases key' with
      | slots r' =>
        have hne : r.first ≠ r'.first := by
          intro he
          simp only [State.lookup, ← he] at hp hnone
          rw [hnone] at hp
          cases hp
        rw [State.lookup, hnodes, find?_insertBefore_of_not (by simpa using hne)]
        exact hp
      | host h => exact hp
  | host h =>
    have habsent : ∀ n ∈ s.connections, n.1 ≠ h := by
      simpa only [State.lookup, Option.map_eq_none_iff, List.find?_eq_none,
        decide_eq_true_eq] using hnone
    constructor
    · change ((assignHost h s.pools.length s.connections).find? _).map _ = _
      rw [assignHost, find?_insertBefore_self (by simp) (by simpa using habsent)]
      rfl
    · intro key' p hp
      cases key' with
      | slots r => exact hp
      | host h' =>
        have hne : h ≠ h' := by
          rintro rfl
          rw [hnone] at hp
          cases hp
        change ((assignHost h s.pools.length s.connections).find? _).map _ = _
        rw [assignHost, find?_insertBefore_of_not (by simpa using hne)]
        exact hp

omit [DecidableEq τ] in
theorem ownerAt_opened (key : PoolKey) (k : Nat) (p : Ptr) (key' : PoolKey) :
    (s.opened key k).ownerAt p = some key' ↔
      s.ownerAt p = some key' ∨ (p = s.pools.length ∧ key' = key) := by
  have hpools : (s.opened key k).pools = s.pools ++ [⟨key, .stocked (List.range' s.next k)⟩] := rfl
  rw [State.ownerAt, State.ownerAt, hpools]
  rcases Nat.lt_trichotomy p s.pools.length with hp | hp | hp
  · rw [List.getElem?_append_left hp]
    simp [hp.ne]
  · subst hp
    simp [eq_comm]
  · rw [List.getElem?_eq_none (by simp; omega), List.getElem?_eq_none (by omega)]
    simp [hp.ne']

omit [DecidableEq τ] in
/-- A new pool is referred to by its own map entry only. -/
theorem refers_opened {key : PoolKey} {k : Nat} (hnone : s.lookup key = none) {p : Ptr}
    {key' : PoolKey} (h : (s.opened key k).Refers p key') :
    s.Refers p key' ∨ (p = s.pools.length ∧ key' = key) := by
  rcases h with ⟨r, rfl, hmem⟩ | ⟨g, rfl, hmem⟩ | ⟨P, hP, c, hc, rfl⟩
  · cases key with
    | slots r₀ =>
      rw [nodes_opened k hnone, mem_insertBefore] at hmem
      rcases hmem with he | hmem
      · cases he
        exact .inr ⟨rfl, rfl⟩
      · exact .inl (.inl ⟨r, rfl, hmem⟩)
    | host h₀ => exact .inl (.inl ⟨r, rfl, hmem⟩)
  · cases key with
    | slots r₀ => exact .inl (.inr (.inl ⟨g, rfl, hmem⟩))
    | host h₀ =>
      rcases mem_insertBefore.mp hmem with he | hmem
      · cases he
        exact .inr ⟨rfl, rfl⟩
      · exact .inl (.inr (.inl ⟨g, rfl, hmem⟩))
  · change (s.pools ++ [⟨key, .stocked (List.range' s.next k)⟩])[p]? = some P at hP
    rcases Nat.lt_or_ge p s.pools.length with hp | hp
    · rw [List.getElem?_append_left hp] at hP
      exact .inl (.inr (.inr ⟨P, hP, c, hc, rfl⟩))
    · rw [List.getElem?_append_right hp] at hP
      have hPnew := List.mem_of_getElem? hP
      rw [List.mem_singleton] at hPnew
      subst hPnew
      simp [ConPool.stocked] at hc

omit [DecidableEq τ] in
/-- A pool opened under a new key, with however many connections. -/
theorem Typed.opened (h : Typed s) {key : PoolKey} (k : Nat) (hnone : s.lookup key = none) :
    Typed (s.opened key k) := by
  obtain ⟨hself, hother⟩ := lookup_opened k hnone
  have hcreated : (s.opened key k).created =
      s.created ++ (List.range' s.next k).map (key, ·) := rfl
  refine ⟨?_, ?_, ?_, ?_, ?_⟩
  · intro p key' href
    rw [ownerAt_opened]
    rcases refers_opened hnone href with href | hp
    · exact .inl (h.refers p key' href)
    · exact .inr hp
  · intro p key' ho
    rcases (ownerAt_opened ..).mp ho with ho | ⟨rfl, rfl⟩
    · exact hother key' p (h.registered p key' ho)
    · exact hself
  · intro e he
    rw [hcreated, List.mem_append, List.mem_map] at he
    rcases he with he | ⟨c, _, rfl⟩
    · obtain ⟨p, hp⟩ := h.origin e he
      exact ⟨p, (ownerAt_opened ..).mpr (.inl hp)⟩
    · exact ⟨s.pools.length, (ownerAt_opened ..).mpr (.inr ⟨rfl, rfl⟩)⟩
  · intro p P hP c hc
    rw [hcreated, List.mem_append]
    change (s.pools ++ [⟨key, .stocked (List.range' s.next k)⟩])[p]? = some P at hP
    rcases Nat.lt_or_ge p s.pools.length with hp | hp
    · rw [List.getElem?_append_left hp] at hP
      exact .inl (h.queued p P hP c hc)
    · rw [List.getElem?_append_right hp] at hP
      have hPnew := List.mem_of_getElem? hP
      rw [List.mem_singleton] at hPnew
      subst hPnew
      exact .inr (List.mem_map.mpr ⟨c, hc, rfl⟩)
  · intro l hl
    have hheld : (s.opened key k).held = s.held := by cases key <;> rfl
    rw [hcreated, List.mem_append]
    exact .inl (h.leased l (hheld ▸ hl))

theorem Typed.effect {O : State τ → PoolKey → Nat → Prop} {R : State τ → Lease τ → Prop}
    (hO : ∀ key k, O s key k → s.lookup key = none) (h : Typed s) (he : Effect O R s s') :
    Typed s' := by
  cases he with
  | opened ho => exact h.opened _ (hO _ _ ho)
  | @take p P c pool key t hP hq hcalls href _ =>
    have hkey : P.owner = key := by
      simpa [State.ownerAt, hP] using h.refers p key href
    refine h.update hP rfl rfl rfl rfl hcalls ?_ ?_
    · intro d hd
      exact h.queued p P hP d (by rw [hq]; exact List.mem_cons_of_mem _ hd)
    · intro l hl
      rcases List.mem_append.mp hl with hl | hl
      · exact h.leased l hl
      · rw [List.mem_singleton] at hl
        subst hl
        exact hkey ▸ h.queued p P hP c (by simp [hq])
  | @signal p P pool hP hq hcalls _ =>
    refine h.update hP rfl rfl rfl rfl hcalls ?_ h.leased
    intro d hd
    exact h.queued p P hP d (hq ▸ hd)
  | @put p P l _ hl hlook hP =>
    have hkey : P.owner = l.key := by
      obtain ⟨p', hp'⟩ := h.origin _ (h.leased l hl)
      have heq : p = p' := Option.some.inj (hlook.symm.trans (h.registered p' l.key hp'))
      subst heq
      simpa [State.ownerAt, hP] using hp'
    refine h.update hP rfl rfl rfl rfl ?_ ?_ fun l' hl' => h.leased l' (List.mem_of_mem_erase hl')
    · exact fun c hc => State.refers_of_token hP hc
    · intro d hd
      rcases List.mem_append.mp hd with hd | hd
      · exact h.queued p P hP d hd
      · rw [List.mem_singleton] at hd
        subst hd
        exact hkey ▸ h.leased l hl
  | fail hl => exact ⟨h.refers, h.registered, h.origin, h.queued, h.leased⟩

/-! ## Every pool has its ten connections -/

/-- Each pool has been given all of its connections. -/
def Full (s : State τ) : Prop :=
  ∀ p key, s.ownerAt p = some key → s.created.countP (·.1 = key) = poolSize

/-- Pools are opened under new keys and filled completely. -/
def OpensFully (s : State τ) (key : PoolKey) (k : Nat) : Prop :=
  s.lookup key = none ∧ k = poolSize

omit [DecidableEq τ] in
theorem Full.opened (ht : Typed s) (h : Full s) {key : PoolKey} (hnone : s.lookup key = none) :
    Full (s.opened key poolSize) := by
  have hnew : ∀ p, s.ownerAt p ≠ some key := by
    intro p ho
    rw [ht.registered p key ho] at hnone
    cases hnone
  have hcreated : (s.opened key poolSize).created =
      s.created ++ (List.range' s.next poolSize).map (key, ·) := rfl
  intro p key' ho
  rw [hcreated, List.countP_append, List.countP_map]
  rcases (ownerAt_opened ..).mp ho with ho | ⟨rfl, rfl⟩
  · have hne : key ≠ key' := by
      rintro rfl
      exact hnew p ho
    simp [h p key' ho, Function.comp_def, hne]
  · have hzero : s.created.countP (·.1 = key') = 0 := by
      refine List.countP_eq_zero.mpr fun e he hk => ?_
      obtain ⟨p, hp⟩ := ht.origin e he
      exact hnew p (by simpa using (of_decide_eq_true hk) ▸ hp)
    simp [hzero, Function.comp_def]

omit [DecidableEq τ] in
/-- Changing a pool in place leaves every pool with what it was given. -/
theorem Full.update (h : Full s) {p : Ptr} {P : Cell τ} (pool : ConPool (Call τ))
    (hP : s.pools[p]? = some P) (hpools : s'.pools = s.pools.set p ⟨P.owner, pool⟩)
    (hcreated : s'.created = s.created) : Full s' := by
  intro q key ho
  rw [ownerAt_set pool hP hpools] at ho
  rw [hcreated]
  exact h q key ho

theorem Full.effect {R : State τ → Lease τ → Prop} (ht : Typed s) (h : Full s)
    (he : Effect OpensFully R s s') : Full s' := by
  cases he with
  | opened ho =>
    obtain ⟨hnone, rfl⟩ := ho
    exact Full.opened ht h hnone
  | take _ hP | signal hP | put _ _ _ hP => exact h.update _ hP rfl rfl
  | fail => exact h

end AsioCoroFrame.ThreadedPool
