import AsioCoroFrame.Models.ThreadedPool.Grant

/-!
# Which runs keep broken connections out of the pools

`fillPool` refuses a context whose `err` is set, and `releaseConnection` does
not look. A run has only healthy connections waiting in its pools exactly when
no thread gives back a connection that has failed in its hands.
-/

namespace AsioCoroFrame.ThreadedPool

variable {τ : Type} [DecidableEq τ] {s s' : State τ}

/-- No connection that waits in a pool has `err` set. -/
def Healthy (s : State τ) : Prop := ∀ P ∈ s.pools, ∀ c ∈ P.pool.queue, c ∉ s.broken

instance (s : State τ) : Decidable (Healthy s) :=
  inferInstanceAs (Decidable (∀ P ∈ s.pools, ∀ c ∈ P.pool.queue, c ∉ s.broken))

/-- A connection that is given back has not failed. -/
def ReleasesHealthy (s : State τ) : Action τ → Prop
  | .release l => l.conn ∉ s.broken
  | _ => True

/-- Nothing that the step hands out had failed before. -/
def HandsOutHealthy (s s' : State τ) : Prop :=
  ∀ l ∈ s'.held, l ∉ s.held → l.conn ∉ s.broken

/-- Every state visited is healthy and every step from it hands out healthy connections only. -/
def AlwaysHealthy (as : List (Action τ)) : Prop :=
  ∀ pre post s, as = pre ++ post → runFrom step pre initial = some s →
    Healthy s ∧ ∀ a rest s', post = a :: rest → step s a = some s' → HandsOutHealthy s s'

/-- Conservation, and broken connections all have been opened. -/
structure Sound (s : State τ) : Prop extends Conserved s where
  known : ∀ c ∈ s.broken, c < s.next

omit [DecidableEq τ] in
theorem Conserved.held_lt_next (h : Conserved s) {l : Lease τ} (hl : l ∈ s.held) :
    l.conn < s.next := by
  have hmem : l.conn ∈ s.created.map (·.2) :=
    h.perm.subset (List.mem_append_right _ (List.mem_map.mpr ⟨l, hl, rfl⟩))
  obtain ⟨e, he, hconn⟩ := List.mem_map.mp hmem
  exact hconn ▸ h.fresh e he

omit [DecidableEq τ] in
/-- A connection in the hands of a thread waits in no pool. -/
theorem Conserved.not_queued (h : Conserved s) {l : Lease τ} (hl : l ∈ s.held) {P : Cell τ}
    (hP : P ∈ s.pools) : l.conn ∉ P.pool.queue := by
  intro hc
  have hnodup := h.perm.nodup_iff.mpr h.nodup
  exact (List.nodup_append.mp hnodup).2.2 l.conn (List.mem_flatMap.mpr ⟨P, hP, hc⟩) l.conn
    (List.mem_map.mpr ⟨l, hl, rfl⟩) rfl

variable {O : State τ → PoolKey → Nat → Prop}

theorem Sound.effect {R : State τ → Lease τ → Prop} (h : Sound s) (he : Effect O R s s') :
    Sound s' := by
  refine ⟨h.toConserved.effect he, ?_⟩
  cases he with
  | @opened key k _ =>
    intro c hc
    rw [State.opened_broken] at hc
    exact (h.known c hc).trans_le (Nat.le_add_right _ _)
  | take | signal | put => exact h.known
  | @fail l hl =>
    intro c hc
    rcases List.mem_append.mp hc with hc | hc
    · exact h.known c hc
    · rw [List.mem_singleton] at hc
      exact hc ▸ h.held_lt_next hl

omit [DecidableEq τ] in
/-- A pool changes in place and gains only healthy connections. -/
theorem Healthy.update (h : Healthy s) {p : Ptr} {P : Cell τ} {pool : ConPool (Call τ)}
    (hpools : s'.pools = s.pools.set p ⟨P.owner, pool⟩) (hbroken : s'.broken = s.broken)
    (hqueue : ∀ c ∈ pool.queue, c ∉ s.broken) : Healthy s' := by
  intro Q hQ c hc
  rw [hbroken]
  rcases List.mem_or_eq_of_mem_set (hpools ▸ hQ) with hQ | rfl
  · exact h Q hQ c hc
  · exact hqueue c hc

/-- Every effect keeps the pools healthy, provided no failed connection is given back. -/
theorem Healthy.effect (hs : Sound s) (h : Healthy s)
    (he : Effect O (fun s l => l.conn ∉ s.broken) s s') : Healthy s' := by
  cases he with
  | @opened key k _ =>
    intro P hP c hc
    rw [State.opened_broken]
    rcases List.mem_append.mp hP with hP | hP
    · exact h P hP c hc
    · rw [List.mem_singleton] at hP
      subst hP
      intro hmem
      exact absurd (hs.known c hmem) (Nat.not_lt.mpr (List.mem_range'_1.mp hc).1)
  | take _ hP hq =>
    refine h.update rfl rfl fun c hc => ?_
    exact h _ (List.mem_of_getElem? hP) c (hq ▸ List.mem_cons_of_mem _ hc)
  | signal hP hq =>
    refine h.update rfl rfl fun c hc => ?_
    exact h _ (List.mem_of_getElem? hP) c (hq ▸ hc)
  | put hl _ _ hP =>
    refine h.update rfl rfl fun c hc => ?_
    rcases List.mem_append.mp hc with hc | hc
    · exact h _ (List.mem_of_getElem? hP) c hc
    · rw [List.mem_singleton] at hc
      exact hc ▸ hl
  | @fail l hl =>
    intro P hP c hc hmem
    rcases List.mem_append.mp hmem with hmem | hmem
    · exact h P hP c hc hmem
    · rw [List.mem_singleton] at hmem
      exact hs.not_queued hl hP (hmem ▸ hc)

/-- What holds at every point of an action that began in `s₀` with healthy pools. -/
structure HealthySince (s₀ s : State τ) : Prop where
  sound : Sound s
  healthy : Healthy s
  mono : s₀.broken ⊆ s.broken
  out : HandsOutHealthy s₀ s

/-- What is taken while the pools are healthy had not failed when the action began. -/
theorem HealthySince.effect {s₀ : State τ} (h : HealthySince s₀ s)
    (he : Effect O (fun s l => l.conn ∉ s.broken) s s') : HealthySince s₀ s' := by
  refine ⟨h.sound.effect he, Healthy.effect h.sound h.healthy he, ?_, ?_⟩
  · cases he with
    | opened => exact State.opened_broken s .. ▸ h.mono
    | take | signal | put => exact h.mono
    | fail => exact List.Subset.trans h.mono (List.subset_append_left _ _)
  · cases he with
    | opened =>
      rw [HandsOutHealthy, State.opened_held]
      exact h.out
    | @take p P c pool key t hP hq =>
      intro l hl hnew hmem
      rcases List.mem_append.mp hl with hl | hl
      · exact h.out l hl hnew hmem
      · rw [List.mem_singleton] at hl
        subst hl
        exact h.healthy P (List.mem_of_getElem? hP) c (by simp [hq]) (h.mono hmem)
    | signal | fail => exact h.out
    | put => exact fun l hl => h.out l (List.mem_of_mem_erase hl)

/-- One step that gives no failed connection back. -/
theorem step_healthy {a : Action τ} (hs : Sound s) (h : Healthy s) (hok : ReleasesHealthy s a)
    (hstep : step s a = some s') : HealthySince s s' := by
  refine step_invariant (O := fun _ _ _ => True) (fun _ _ => HealthySince.effect)
    (fun _ _ _ => trivial) ?_ hstep ⟨hs, h, List.Subset.refl _, fun l hl hnew => absurd hl hnew⟩
  rintro l rfl
  exact hok

omit [DecidableEq τ] in
theorem sound_initial : Sound (initial : State τ) :=
  ⟨conserved_initial, by simp [initial]⟩

/-- A run that gives back no failed connection ends, as do all its beginnings, healthy. -/
theorem healthy_of_run {as : List (Action τ)} (h : Run step ReleasesHealthy initial as s) :
    Sound s ∧ Healthy s := by
  refine h.invariant (P := fun s => Sound s ∧ Healthy s) ⟨sound_initial, by simp [initial, Healthy]⟩
    fun s a s' hs hok hstep => ?_
  have hsince := step_healthy hs.1 hs.2 hok hstep
  exact ⟨hsince.sound, hsince.healthy⟩

/-- A failed connection that is given back waits in its pool at once. -/
theorem not_healthy_of_release {l : Lease τ} (hbroken : l.conn ∈ s.broken)
    (hstep : step s (.release l) = some s') : ¬ Healthy s' := by
  obtain ⟨_, _, p, P, _, hP, rfl⟩ := State.release_spec hstep
  have hp := (List.getElem?_eq_some_iff.mp hP).1
  intro h
  refine h ⟨P.owner, P.pool.push ⟨l.thread, l.key⟩ l.conn⟩ (List.mem_set hp _) l.conn ?_ hbroken
  simp [ConPool.push]

/-- The pools stay healthy along an execution, and hand out no failed connection, exactly when
every connection given back on the way was healthy. -/
theorem pool_healthy_iff {as : List (Action τ)} (h : runFrom step as initial = some s) :
    AlwaysHealthy as ↔ Run step ReleasesHealthy initial as s := by
  constructor
  · intro hall
    refine .of_runFrom h fun pre a post he s₁ hs₁ => ?_
    subst he
    rw [runFrom_append, hs₁, Option.bind_some, runFrom, Option.bind_eq_some_iff] at h
    obtain ⟨s₂, hstep, _⟩ := h
    cases a with
    | release l =>
      intro hbroken
      have hs₂ : runFrom step (pre ++ [.release l]) initial = some s₂ := by
        simp [runFrom_append, hs₁, runFrom, hstep]
      exact not_healthy_of_release hbroken hstep (hall _ post s₂ (by simp) hs₂).1
    | _ => exact trivial
  · intro hrun pre post s₁ he hs₁
    subst he
    obtain ⟨m, hpre, hpost⟩ := hrun.split
    obtain rfl : m = s₁ := Option.some.inj (hpre.runFrom_eq.symm.trans hs₁)
    obtain ⟨hsound, hhealthy⟩ := healthy_of_run hpre
    refine ⟨hhealthy, ?_⟩
    rintro a rest s' rfl hstep
    exact (step_healthy hsound hhealthy hpost.head_ok hstep).out

/-- A pair is given back and another one taken while neither has failed. -/
theorem pool_healthy_iff_two_threads :
    ∃ s : State Nat, runFrom step
        [.insertSlots ⟨0, 16383⟩ fun _ => .ok, .getConnection 0 5,
          .release ⟨0, .slots ⟨0, 16383⟩, 0⟩, .getConnection 1 5] initial = some s ∧
      (AlwaysHealthy (τ := Nat)
        [.insertSlots ⟨0, 16383⟩ fun _ => .ok, .getConnection 0 5,
          .release ⟨0, .slots ⟨0, 16383⟩, 0⟩, .getConnection 1 5] ↔
        Run step ReleasesHealthy initial
          [.insertSlots ⟨0, 16383⟩ fun _ => .ok, .getConnection 0 5,
            .release ⟨0, .slots ⟨0, 16383⟩, 0⟩, .getConnection 1 5] s) :=
  ⟨_, rfl, pool_healthy_iff rfl⟩

/-- A connection fails in the hands of a thread, is put back, and reaches a later thread. -/
theorem pool_recycles_broken :
    ∃ s s' : State Nat,
      runFrom step [.insertSlots ⟨0, 16383⟩ fun _ => .ok, .getConnection 0 5, .fail 0,
        .release ⟨0, .slots ⟨0, 16383⟩, 0⟩] initial = some s ∧ ¬ Healthy s ∧
      runFrom step ((List.range 9).map fun t => .getConnection (t + 1) 5) s = some s' ∧
      ∃ s'', step s' (.getConnection 10 5) = some s'' ∧ ¬ HandsOutHealthy s' s'' := by
  refine ⟨_, _, rfl, by decide, rfl, _, rfl, ?_⟩
  intro h
  exact h ⟨10, .slots ⟨0, 16383⟩, 0⟩ (by decide) (by decide) (by decide)

end AsioCoroFrame.ThreadedPool
