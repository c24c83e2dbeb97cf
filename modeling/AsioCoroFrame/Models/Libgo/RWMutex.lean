import AsioCoroFrame.Core.Run
import AsioCoroFrame.Core.Tally
import AsioCoroFrame.Models.Libgo.BlockObject

/-!
# The lock for readers and writers

A reader counts itself and then looks whether the mutex is taken; a writer takes the
mutex and then waits until nobody is counted. A step is one access to the count or one
section under the lock of the mutex.
-/

namespace AsioCoroFrame.Libgo

/-! ## The code -/

/-- Where a task is. -/
inductive RWSite where
  | outside
  /-- In `r_lock` or `r_try_lock` and not counted. -/
  | arriving (try_ : Bool)
  /-- Counted, and in front of the test of the mutex. -/
  | counted (try_ : Bool)
  /-- The mutex is taken; about to take itself off the count. -/
  | backing (try_ : Bool)
  | reading
  /-- In `CoMutex::lock`: in front of the test, being switched out, and in the queue. -/
  | testing
  | leaving
  | queued
  /-- In `w_try_lock` in front of `try_lock`. -/
  | trying
  /-- A writer that has the mutex and waits for the readers. -/
  | draining
  /-- In `w_try_lock` with the mutex, in front of the test of the count. -/
  | checking
  /-- In `w_try_lock`, about to give the mutex back. -/
  | returning
  | writing
  deriving DecidableEq, Repr

/-- `CoRWMutexImpl` and the tasks that use it; `failed` records an assertion that does not hold or
an error that is thrown. -/
structure RWMutex (τ : Type) where
  mtx : BlockObject τ
  readers : Int
  site : τ → RWSite
  failed : Bool

/-- The operations. -/
inductive RWOperation where
  | rLock
  | rTryLock
  | rUnlock
  | wLock
  | wTryLock
  | wUnlock
  deriving DecidableEq, Repr

/-- What can happen next: a task calls an operation or goes one section further. -/
inductive RWAction (τ : Type) where
  | call (t : τ) (op : RWOperation)
  | go (t : τ)
  deriving DecidableEq, Repr

variable {τ : Type} [DecidableEq τ]

omit [DecidableEq τ] in
/-- A new lock; a `CoMutex` is a `BlockObject` with one signal. -/
def RWMutex.new : RWMutex τ := ⟨.new 1 1, 0, fun _ => .outside, false⟩

/-- A task goes on at another place. -/
def RWMutex.move (s : RWMutex τ) (t : τ) (x : RWSite) : RWMutex τ :=
  { s with site := Function.update s.site t x }

/-- `CoMutex::unlock`, which throws if the mutex is not taken. -/
def RWMutex.unlock (s : RWMutex τ) (t : τ) : RWMutex τ :=
  match s.mtx.wakeup with
  | (b, none, ok) => { s.move t .outside with mtx := b, failed := s.failed || !ok }
  | (b, some u, ok) =>
    { (s.move t .outside).move u .draining with mtx := b, failed := s.failed || !ok }

/-- An operation is called; a lock is released only by a task that holds it. -/
def RWMutex.call (s : RWMutex τ) (t : τ) (op : RWOperation) : Option (RWMutex τ) :=
  match op, s.site t with
  | .rLock, .outside => some (s.move t (.arriving false))
  | .rTryLock, .outside => some (s.move t (.arriving true))
  | .wLock, .outside => some (s.move t .testing)
  | .wTryLock, .outside => some (s.move t .trying)
  | .rUnlock, .reading =>
    some { s.move t .outside with
      readers := s.readers - 1
      failed := s.failed || decide (s.readers - 1 < 0) }
  | .wUnlock, .writing => some (s.unlock t)
  | _, _ => none

/-- The next section of a task; a thread outside of the coroutines polls the mutex. -/
def RWMutex.go (native : τ → Bool) (s : RWMutex τ) (t : τ) : Option (RWMutex τ) :=
  match s.site t with
  | .arriving try_ => some { s.move t (.counted try_) with readers := s.readers + 1 }
  | .counted try_ => some (s.move t (if s.mtx.isWakeup then .reading else .backing try_))
  | .backing try_ =>
    some { s.move t (if try_ then .outside else .arriving false) with readers := s.readers - 1 }
  | .testing =>
    match s.mtx.tryBlockWait with
    | some b => some { s.move t .draining with mtx := b }
    | none => some (if native t then s else s.move t .leaving)
  | .leaving =>
    match s.mtx.addWaitTask t with
    | (b, false) => some { s.move t .draining with mtx := b }
    | (b, true) => some { s.move t .queued with mtx := b }
  | .trying =>
    match s.mtx.tryBlockWait with
    | some b => some { s.move t .checking with mtx := b }
    | none => some (s.move t .outside)
  | .draining => some (if s.readers = 0 then s.move t .writing else s)
  | .checking => some (s.move t (if s.readers = 0 then .writing else .returning))
  | .returning => some (s.unlock t)
  | .outside | .reading | .queued | .writing => none

/-- One step. -/
def RWMutex.step (native : τ → Bool) (s : RWMutex τ) : RWAction τ → Option (RWMutex τ)
  | .call t op => s.call t op
  | .go t => s.go native t

/-! ## What every state satisfies -/

/-- The mutex is held by a task at this place. -/
def RWSite.holds : RWSite → Nat
  | .draining | .checking | .returning | .writing => 1
  | _ => 0

/-- A task at this place is counted as a reader. -/
def RWSite.counts : RWSite → Nat
  | .counted _ | .backing _ | .reading => 1
  | _ => 0

/-- The mutex has one signal or one holder, the count is that of the tasks that are counted, and
no task reads beside one that writes. -/
structure RWMutex.Inv [Fintype τ] (s : RWMutex τ) : Prop where
  sound : s.mtx.Sound
  bound : s.mtx.maxWakeups = 1
  queued : ∀ t, t ∈ s.mtx.waitQueue ↔ s.site t = .queued
  holders : s.mtx.wakeups + tally RWSite.holds s.site = 1
  counted : s.readers = tally RWSite.counts s.site
  apart : ∀ {t u}, s.site t = .writing → s.site u ≠ .reading
  unfailed : s.failed = false

section Inv

variable [Fintype τ] {s s' : RWMutex τ} {t : τ}

/-- A task moves between places outside of the queue. -/
theorem RWMutex.Inv.move (h : s.Inv) {x y : RWSite} (hy : s.site t = y) (hyq : y ≠ .queued)
    (hxq : x ≠ .queued) (hsite : s'.site = Function.update s.site t x) (hsound : s'.mtx.Sound)
    (hbound : s'.mtx.maxWakeups = s.mtx.maxWakeups)
    (hqueue : s'.mtx.waitQueue = s.mtx.waitQueue)
    (hholds : s'.mtx.wakeups + x.holds = s.mtx.wakeups + y.holds)
    (hcounts : s'.readers + y.counts = s.readers + x.counts) (hfailed : s'.failed = s.failed)
    (hwriting : x = .writing → ∀ u, s.site u ≠ .reading)
    (hreading : x = .reading → ∀ u, s.site u ≠ .writing) : s'.Inv := by
  have hholders := tally_update RWSite.holds s.site t x
  have hcounted := tally_update RWSite.counts s.site t x
  rw [hy, ← hsite] at hholders hcounted
  have hh := h.holders
  have hc := h.counted
  refine ⟨hsound, hbound.trans h.bound, fun u => ?_, by omega, by omega, fun {u v} hu hv => ?_,
    hfailed.trans h.unfailed⟩
  · rw [hqueue, h.queued, hsite]
    by_cases hut : u = t
    · subst hut
      simp [hy, hyq, hxq]
    · rw [Function.update_of_ne hut]
  · rw [hsite] at hu hv
    by_cases hut : u = t <;> by_cases hvt : v = t
    · rw [hut, Function.update_self] at hu
      rw [hvt, Function.update_self, hu] at hv
      cases hv
    · rw [hut, Function.update_self] at hu
      rw [Function.update_of_ne hvt] at hv
      exact hwriting hu v hv
    · rw [Function.update_of_ne hut] at hu
      rw [hvt, Function.update_self] at hv
      exact hreading hv u hu
    · rw [Function.update_of_ne hut] at hu
      rw [Function.update_of_ne hvt] at hv
      exact h.apart hu hv

/-- A task with the mutex gives it back, or hands it to the first writer in the queue. -/
theorem RWMutex.Inv.unlock (h : s.Inv) (ht : (s.site t).holds = 1) : (s.unlock t).Inv := by
  have hzero : s.mtx.wakeups = 0 := by
    have hh := h.holders
    have := le_tally RWSite.holds s.site t
    omega
  have htq : s.site t ≠ .queued := fun hq => by simp [hq, RWSite.holds] at ht
  have htc : (s.site t).counts = 0 := by
    cases hx : s.site t <;> simp_all [RWSite.holds, RWSite.counts]
  have hbound := h.bound
  have hsound := h.sound.wakeup (by omega)
  rw [RWMutex.unlock]
  rcases BlockObject.wakeup_cases (b := s.mtx) (by omega) with ⟨_, hwake⟩ | ⟨u, q, hcons, hwake⟩
  · rw [hwake] at hsound ⊢
    let s' : RWMutex τ := { s.move t .outside with
      mtx := { s.mtx with wakeups := s.mtx.wakeups + 1 }, failed := s.failed || !true }
    change s'.Inv
    refine h.move rfl htq (by simp) rfl hsound rfl rfl ?_ ?_ (by simp [s']) (by simp) (by simp)
    · rw [ht]
      rfl
    · rw [htc]
      rfl
  · rw [hwake] at hsound ⊢
    have hu : s.site u = .queued := (h.queued u).mp (hcons ▸ List.mem_cons_self)
    have hut : u ≠ t := fun hut => htq (hut ▸ hu)
    have honce := h.sound.once
    rw [hcons, List.nodup_cons] at honce
    have hh := h.holders
    have hc := h.counted
    have hholds₁ := tally_update RWSite.holds s.site t .outside
    have hcounts₁ := tally_update RWSite.counts s.site t .outside
    have hholds₂ := tally_update RWSite.holds (Function.update s.site t .outside) u .draining
    have hcounts₂ := tally_update RWSite.counts (Function.update s.site t .outside) u .draining
    rw [Function.update_of_ne hut, hu] at hholds₂ hcounts₂
    simp only [RWSite.holds, RWSite.counts] at hholds₁ hcounts₁ hholds₂ hcounts₂ ht htc
    have hsite {v : τ} (hvt : v ≠ t) (hvu : v ≠ u) :
        Function.update (Function.update s.site t .outside) u .draining v = s.site v := by
      rw [Function.update_of_ne hvu, Function.update_of_ne hvt]
    refine ⟨hsound, hbound, fun v => ?_, ?_, ?_, fun {v w} hv hw => ?_, by simp [h.unfailed]⟩
    · change v ∈ q ↔ Function.update (Function.update s.site t .outside) u .draining v = _
      have hv := h.queued v
      rw [hcons, List.mem_cons] at hv
      by_cases hvu : v = u
      · subst hvu
        simp [honce.1]
      · by_cases hvt : v = t
        · subst hvt
          rw [Function.update_of_ne hvu, Function.update_self]
          simpa [hvu, htq] using hv
        · rw [hsite hvt hvu, ← hv, or_iff_right hvu]
    · change s.mtx.wakeups + tally RWSite.holds
        (Function.update (Function.update s.site t .outside) u .draining) = 1
      omega
    · change s.readers = tally RWSite.counts
        (Function.update (Function.update s.site t .outside) u .draining)
      omega
    · change Function.update (Function.update s.site t .outside) u .draining v = _ at hv
      change Function.update (Function.update s.site t .outside) u .draining w = _ at hw
      have hplace {v : τ} {x : RWSite}
          (hv : Function.update (Function.update s.site t .outside) u .draining v = x)
          (hx : x = .writing ∨ x = .reading) : s.site v = x := by
        by_cases hvu : v = u
        · rw [hvu, Function.update_self] at hv
          rcases hx with rfl | rfl <;> cases hv
        · by_cases hvt : v = t
          · rw [hvt, Function.update_of_ne (hvt ▸ hvu), Function.update_self] at hv
            rcases hx with rfl | rfl <;> cases hv
          · rwa [hsite hvt hvu] at hv
      exact h.apart (hplace hv (.inl rfl)) (hplace hw (.inr rfl))

/-- A task moves, and neither the mutex nor the count changes. -/
theorem RWMutex.Inv.goOn (h : s.Inv) {x y : RWSite} (hy : s.site t = y) (hyq : y ≠ .queued)
    (hxq : x ≠ .queued) (hholds : x.holds = y.holds) (hcounts : y.counts = x.counts)
    (hwriting : x = .writing → ∀ u, s.site u ≠ .reading)
    (hreading : x = .reading → ∀ u, s.site u ≠ .writing) : (s.move t x).Inv :=
  h.move hy hyq hxq rfl h.sound rfl rfl (congrArg _ hholds) (by simp [RWMutex.move, hcounts]) rfl
    hwriting hreading

/-- A task takes the mutex. -/
theorem RWMutex.Inv.take (h : s.Inv) {x y : RWSite} (hy : s.site t = y) (hyq : y ≠ .queued)
    (hx : x.holds = 1 ∧ x.counts = 0) (hxw : x ≠ .writing) (hyh : y.holds = 0 ∧ y.counts = 0)
    {b : BlockObject τ} (htry : s.mtx.tryBlockWait = some b) :
    ({ s.move t x with mtx := b } : RWMutex τ).Inv := by
  obtain ⟨hwakeups, hqueue, hbound⟩ := BlockObject.tryBlockWait_eq_some htry
  refine h.move hy hyq ?_ rfl (h.sound.tryBlockWait htry) hbound hqueue ?_ ?_ rfl
    (fun hw => absurd hw hxw) ?_
  · rintro rfl
    cases hx.1
  · change b.wakeups + _ = _
    rw [hx.1, hyh.1]
    omega
  · rw [hx.2, hyh.2]
    rfl
  · rintro rfl
    cases hx.1

/-- A writer that has been switched out goes to the end of the queue. -/
theorem RWMutex.Inv.enqueue (h : s.Inv) (hy : s.site t = .leaving)
    (hadd : s.mtx.addWaitTask t =
      ({ s.mtx with waitQueue := s.mtx.waitQueue ++ [t] }, true)) :
    ({ s.move t .queued with
      mtx := { s.mtx with waitQueue := s.mtx.waitQueue ++ [t] } } : RWMutex τ).Inv := by
  have hout : t ∉ s.mtx.waitQueue := by
    rw [h.queued, hy]
    simp
  have hsound := h.sound.addWaitTask hout
  rw [hadd] at hsound
  have hholders := tally_update RWSite.holds s.site t .queued
  have hcounted := tally_update RWSite.counts s.site t .queued
  rw [hy] at hholders hcounted
  refine ⟨hsound, h.bound, fun u => ?_, ?_, ?_, fun {u v} hu hv => ?_, h.unfailed⟩
  · change u ∈ s.mtx.waitQueue ++ [t] ↔ Function.update s.site t .queued u = .queued
    by_cases hut : u = t
    · simp [hut]
    · simp [hut, h.queued]
  · exact (congrArg (s.mtx.wakeups + ·) (Nat.add_right_cancel hholders)).trans h.holders
  · exact h.counted.trans (congrArg _ (Nat.add_right_cancel hcounted).symm)
  · change Function.update s.site t .queued u = _ at hu
    change Function.update s.site t .queued v = _ at hv
    have hplace {u : τ} {x : RWSite} (hu : Function.update s.site t .queued u = x)
        (hx : x ≠ .queued) : s.site u = x := by
      by_cases hut : u = t
      · rw [hut, Function.update_self] at hu
        exact absurd hu.symm hx
      · rwa [Function.update_of_ne hut] at hu
    exact h.apart (hplace hu (by simp)) (hplace hv (by simp))

theorem RWMutex.Inv.call (h : s.Inv) {op : RWOperation} (hs : s.call t op = some s') : s'.Inv := by
  unfold RWMutex.call at hs
  split at hs <;> rename_i hsite
  · cases hs
    exact h.goOn hsite (by simp) (by simp) rfl rfl (by simp) (by simp)
  · cases hs
    exact h.goOn hsite (by simp) (by simp) rfl rfl (by simp) (by simp)
  · cases hs
    exact h.goOn hsite (by simp) (by simp) rfl rfl (by simp) (by simp)
  · cases hs
    exact h.goOn hsite (by simp) (by simp) rfl rfl (by simp) (by simp)
  · cases hs
    have hpos : 0 < s.readers := by
      have := le_tally RWSite.counts s.site t
      rw [hsite] at this
      simp only [RWSite.counts] at this
      have := h.counted
      omega
    refine h.move hsite (by simp) (by simp) rfl h.sound rfl rfl rfl ?_ ?_ (by simp) (by simp)
    · simp [RWSite.counts]
    · have : ¬s.readers - 1 < 0 := by omega
      simp [this]
  · cases hs
    exact h.unlock (by rw [hsite]; rfl)
  · cases hs

omit [DecidableEq τ] in
/-- While a signal is there, nobody writes. -/
theorem RWMutex.Inv.not_writing (h : s.Inv) (hpos : 0 < s.mtx.wakeups) (u : τ) :
    s.site u ≠ .writing := fun hu => by
  have := le_tally RWSite.holds s.site u
  rw [hu] at this
  simp only [RWSite.holds] at this
  have := h.holders
  omega

omit [DecidableEq τ] in
/-- While nobody is counted, nobody reads. -/
theorem RWMutex.Inv.not_reading (h : s.Inv) (hzero : s.readers = 0) (u : τ) :
    s.site u ≠ .reading := fun hu => by
  have := le_tally RWSite.counts s.site u
  rw [hu] at this
  simp only [RWSite.counts] at this
  have := h.counted
  omega

theorem RWMutex.Inv.go (h : s.Inv) {native : τ → Bool} (hs : s.go native t = some s') :
    s'.Inv := by
  unfold RWMutex.go at hs
  split at hs <;> rename_i hsite
  · cases hs
    refine h.move hsite (by simp) (by simp) rfl h.sound rfl rfl rfl ?_ rfl (by simp) (by simp)
    simp [RWSite.counts]
  · cases hs
    by_cases hw : s.mtx.isWakeup
    · rw [if_pos hw]
      refine h.goOn hsite (by simp) (by simp) rfl rfl (by simp) fun _ => h.not_writing ?_
      simpa [BlockObject.isWakeup] using hw
    · rw [if_neg hw]
      exact h.goOn hsite (by simp) (by simp) rfl rfl (by simp) (by simp)
  · rename_i try_
    cases hs
    refine h.move hsite (by simp) ?_ rfl h.sound rfl rfl ?_ ?_ rfl ?_ ?_ <;> cases try_ <;>
      simp [RWMutex.move, RWSite.holds, RWSite.counts]
  · split at hs
    · rename_i b htry
      cases hs
      exact h.take hsite (by simp) ⟨rfl, rfl⟩ (by simp) ⟨rfl, rfl⟩ htry
    · cases hs
      split
      · exact h
      · exact h.goOn hsite (by simp) (by simp) rfl rfl (by simp) (by simp)
  · rcases s.mtx.addWaitTask_cases t with ⟨b, hadd, htry⟩ | ⟨_, hadd⟩
    · rw [hadd] at hs
      cases hs
      exact h.take hsite (by simp) ⟨rfl, rfl⟩ (by simp) ⟨rfl, rfl⟩ htry
    · rw [hadd] at hs
      cases hs
      exact h.enqueue hsite hadd
  · split at hs
    · rename_i b htry
      cases hs
      exact h.take hsite (by simp) ⟨rfl, rfl⟩ (by simp) ⟨rfl, rfl⟩ htry
    · cases hs
      exact h.goOn hsite (by simp) (by simp) rfl rfl (by simp) (by simp)
  · cases hs
    split
    · rename_i hzero
      exact h.goOn hsite (by simp) (by simp) rfl rfl (fun _ => h.not_reading hzero) (by simp)
    · exact h
  · cases hs
    by_cases hzero : s.readers = 0
    · rw [if_pos hzero]
      exact h.goOn hsite (by simp) (by simp) rfl rfl (fun _ => h.not_reading hzero) (by simp)
    · rw [if_neg hzero]
      exact h.goOn hsite (by simp) (by simp) rfl rfl (by simp) (by simp)
  · cases hs
    exact h.unlock (by rw [hsite]; rfl)
  · cases hs
  · cases hs
  · cases hs
  · cases hs

omit [DecidableEq τ] in
theorem RWMutex.inv_new : (new : RWMutex τ).Inv where
  sound := BlockObject.sound_new ..
  bound := rfl
  queued t := by simp [new, BlockObject.new]
  holders := by
    have : tally RWSite.holds (new : RWMutex τ).site = 0 := tally_eq_zero fun _ => rfl
    rw [this]
    rfl
  counted := by
    have : tally RWSite.counts (new : RWMutex τ).site = 0 := tally_eq_zero fun _ => rfl
    rw [this]
    rfl
  apart hu := by cases hu
  unfailed := rfl

theorem RWMutex.inv_of_run {native : τ → Bool} {as : List (RWAction τ)}
    (h : Run (step native) (fun _ _ => True) new as s) : s.Inv := by
  refine h.invariant inv_new fun s a s' hs _ hstep => ?_
  cases a with
  | call t op => exact hs.call hstep
  | go t => exact hs.go hstep

/-- Under every interleaving of readers and writers, with their `try` functions: a writer is alone,
no assertion fails and no error is thrown, the count of readers is at most the number of tasks, and
a writer is left in the queue only while another task has the mutex. -/
theorem rwmutex_excludes {native : τ → Bool} {as : List (RWAction τ)}
    (h : Run (RWMutex.step native) (fun _ _ => True) .new as s) :
    (∀ t, s.site t = .writing → ∀ u, s.site u ≠ .reading ∧ (s.site u = .writing → u = t)) ∧
      s.failed = false ∧ 0 ≤ s.readers ∧ s.readers ≤ Fintype.card τ ∧
      ∀ t, s.site t = .queued → ∃ u, (s.site u).holds = 1 := by
  have hs := RWMutex.inv_of_run h
  have hholders := hs.holders
  have hcounted := hs.counted
  have hcard : tally RWSite.counts s.site ≤ Fintype.card τ := tally_le_card fun x => by
    cases x <;> simp [RWSite.counts]
  refine ⟨fun t ht u => ⟨hs.apart ht, fun hu => ?_⟩, hs.unfailed, by omega, by omega,
    fun t ht => ?_⟩
  · by_contra hne
    have hboth := add_le_tally RWSite.holds s.site hne
    rw [ht, hu] at hboth
    simp only [RWSite.holds] at hboth
    omega
  · have hmem := (hs.queued t).mpr ht
    have hzero : ¬0 < s.mtx.wakeups := fun hpos => by
      rw [hs.sound.handed hpos] at hmem
      cases hmem
    have hpos : 0 < tally RWSite.holds s.site := by omega
    obtain ⟨u, hu⟩ := exists_of_tally_pos hpos
    refine ⟨u, ?_⟩
    cases hx : s.site u <;> simp_all [RWSite.holds]

/-- The guarantee applied to a writer that waits in the queue behind one that waits for a
reader. -/
theorem rwmutex_excludes_queued :
    ∃ s : RWMutex (Fin 3), s.site 0 = .reading ∧ s.site 2 = .queued ∧
      (∀ t, s.site t = .writing → ∀ u, s.site u ≠ .reading ∧ (s.site u = .writing → u = t)) ∧
      s.failed = false ∧ 0 ≤ s.readers ∧ s.readers ≤ Fintype.card (Fin 3) ∧
      ∀ t, s.site t = .queued → ∃ u, (s.site u).holds = 1 := by
  have hrun : ∃ s : RWMutex (Fin 3), s.site 0 = .reading ∧ s.site 2 = .queued ∧
      Run (RWMutex.step fun _ => false) (fun _ _ => True) .new
        [.call 0 .rTryLock, .go 0, .call 1 .wLock, .go 0, .go 1, .go 1, .call 2 .wLock, .go 2,
          .go 2] s := by
    refine ⟨_, ?_, ?_, .of_runFrom rfl fun _ _ _ _ _ _ => trivial⟩ <;> rfl
  obtain ⟨s, hreading, hqueued, hrun⟩ := hrun
  exact ⟨s, hreading, hqueued, rwmutex_excludes hrun⟩

end Inv

end AsioCoroFrame.Libgo
