import Mathlib.Data.List.Nodup
import Mathlib.Data.List.Perm.Basic

/-!
# The object that coroutines block on

A `BlockObject` keeps a number of signals and a queue of waiting tasks. A signal is
either kept or handed to the first task that waits, so that no task waits beside a
signal. Each definition is one section under `lock_`.
-/

namespace AsioCoroFrame.Libgo

/-- `BlockObject`. -/
structure BlockObject (τ : Type) where
  /-- `wakeup_`, the signals kept. -/
  wakeups : Nat
  /-- `max_wakeup_`, how many may be kept. -/
  maxWakeups : Nat
  /-- `wait_queue_`, front first. -/
  waitQueue : List τ
  deriving DecidableEq, Repr

variable {τ : Type}

/-- A new object; the default bound is `(size_t)-1`. -/
def BlockObject.new (wakeups maxWakeups : Nat) : BlockObject τ := ⟨wakeups, maxWakeups, []⟩

/-- `TryBlockWait`, and the test in front of a wait. -/
def BlockObject.tryBlockWait (b : BlockObject τ) : Option (BlockObject τ) :=
  if b.wakeups = 0 then none else some { b with wakeups := b.wakeups - 1 }

/-- `IsWakeup`. -/
def BlockObject.isWakeup (b : BlockObject τ) : Bool := decide (0 < b.wakeups)

/-- `AddWaitTask`, called by the processer once the task is switched out; `false` means that a
signal was there after all and the task goes on. -/
def BlockObject.addWaitTask (b : BlockObject τ) (t : τ) : BlockObject τ × Bool :=
  if 0 < b.wakeups then ({ b with wakeups := b.wakeups - 1 }, false)
  else ({ b with waitQueue := b.waitQueue ++ [t] }, true)

/-- `Wakeup`: the task made runnable, if there is one, and the result. -/
def BlockObject.wakeup (b : BlockObject τ) : BlockObject τ × Option τ × Bool :=
  match b.waitQueue with
  | [] =>
    if b.maxWakeups ≤ b.wakeups then (b, none, false)
    else ({ b with wakeups := b.wakeups + 1 }, none, true)
  | t :: q => ({ b with waitQueue := q }, some t, true)

/-- `CancelWait` by the timer of a wait that is still in the queue. -/
def BlockObject.cancelWait [DecidableEq τ] (b : BlockObject τ) (t : τ) : Option (BlockObject τ) :=
  if t ∈ b.waitQueue then some { b with waitQueue := b.waitQueue.erase t } else none

/-- No task waits beside a signal, and each waits once. -/
structure BlockObject.Sound (b : BlockObject τ) : Prop where
  handed : 0 < b.wakeups → b.waitQueue = []
  once : b.waitQueue.Nodup

theorem BlockObject.sound_new (n m : Nat) : (new n m : BlockObject τ).Sound :=
  ⟨fun _ => rfl, List.nodup_nil⟩

theorem BlockObject.tryBlockWait_eq_some {b b' : BlockObject τ} (h : b.tryBlockWait = some b') :
    b.wakeups = b'.wakeups + 1 ∧ b'.waitQueue = b.waitQueue ∧ b'.maxWakeups = b.maxWakeups := by
  rw [tryBlockWait, Option.ite_none_left_eq_some, Option.some.injEq] at h
  obtain ⟨hpos, rfl⟩ := h
  exact ⟨(Nat.succ_pred_eq_of_ne_zero hpos).symm, rfl, rfl⟩

theorem BlockObject.Sound.tryBlockWait {b b' : BlockObject τ} (hb : b.Sound)
    (h : b.tryBlockWait = some b') : b'.Sound := by
  obtain ⟨hwakeups, hqueue, _⟩ := tryBlockWait_eq_some h
  refine ⟨fun _ => ?_, hqueue ▸ hb.once⟩
  rw [hqueue]
  exact hb.handed (by omega)

/-- A task either takes a signal or goes to the end of the queue. -/
theorem BlockObject.addWaitTask_cases (b : BlockObject τ) (t : τ) :
    (∃ b', b.addWaitTask t = (b', false) ∧ b.tryBlockWait = some b') ∨
      b.wakeups = 0 ∧ b.addWaitTask t = ({ b with waitQueue := b.waitQueue ++ [t] }, true) := by
  by_cases h : 0 < b.wakeups
  · refine .inl ⟨_, if_pos h, ?_⟩
    rw [BlockObject.tryBlockWait, if_neg (Nat.pos_iff_ne_zero.mp h)]
  · exact .inr ⟨by omega, if_neg h⟩

/-- A signal is handed to the first waiting task, or kept where none waits. -/
theorem BlockObject.wakeup_cases {b : BlockObject τ} (h : b.wakeups < b.maxWakeups) :
    (b.waitQueue = [] ∧ b.wakeup = ({ b with wakeups := b.wakeups + 1 }, none, true)) ∨
      ∃ t q, b.waitQueue = t :: q ∧ b.wakeup = ({ b with waitQueue := q }, some t, true) := by
  cases hq : b.waitQueue with
  | nil => exact .inl ⟨rfl, by rw [wakeup, hq]; exact if_neg (Nat.not_le.mpr h)⟩
  | cons t q => exact .inr ⟨t, q, rfl, by rw [wakeup, hq]⟩

theorem BlockObject.wakeup_maxWakeups (b : BlockObject τ) :
    b.wakeup.1.maxWakeups = b.maxWakeups := by
  unfold wakeup
  split
  · split <;> rfl
  · rfl

theorem BlockObject.Sound.wakeup {b : BlockObject τ} (hb : b.Sound)
    (h : b.wakeups < b.maxWakeups) : b.wakeup.1.Sound := by
  rcases wakeup_cases h with ⟨hnil, hwake⟩ | ⟨t, q, hcons, hwake⟩
  · rw [hwake]
    exact ⟨fun _ => hnil, hb.once⟩
  · rw [hwake]
    have honce := hb.once
    rw [hcons] at honce
    refine ⟨fun hpos => ?_, (List.nodup_cons.mp honce).2⟩
    have hempty := hb.handed hpos
    rw [hcons] at hempty
    cases hempty

theorem BlockObject.Sound.addWaitTask {b : BlockObject τ} (hb : b.Sound) {t : τ}
    (ht : t ∉ b.waitQueue) : (b.addWaitTask t).1.Sound := by
  rcases b.addWaitTask_cases t with ⟨b', hadd, htry⟩ | ⟨hzero, hadd⟩
  · rw [hadd]
    exact hb.tryBlockWait htry
  · rw [hadd]
    refine ⟨fun hpos => absurd hpos (by simp [hzero]), ?_⟩
    exact hb.once.append (List.nodup_cons.mpr ⟨List.not_mem_nil, List.nodup_nil⟩)
      (by simpa using ht)

theorem BlockObject.Sound.cancelWait [DecidableEq τ] {b b' : BlockObject τ} (hb : b.Sound) {t : τ}
    (h : b.cancelWait t = some b') :
    b'.Sound ∧ t ∈ b.waitQueue ∧ b' = { b with waitQueue := b.waitQueue.erase t } := by
  rw [BlockObject.cancelWait, Option.ite_none_right_eq_some, Option.some.injEq] at h
  obtain ⟨ht, rfl⟩ := h
  refine ⟨⟨fun hpos => ?_, hb.once.erase t⟩, ht, rfl⟩
  have hempty := hb.handed hpos
  rw [hempty] at ht
  cases ht

end AsioCoroFrame.Libgo
