import AsioCoroFrame.Core.Monitor
import Mathlib.Data.List.Basic

/-!
# One connection pool: a queue and its condition variable

A `ConPool` pairs a condition variable with a queue of connections.
`pullConnection` takes the front of the queue or waits; `pushConnection`
appends, unlocks and notifies afterwards. Each definition here is one atomic
section under the mutex; a thread inside a call is represented by a token.
-/

namespace AsioCoroFrame.ThreadedPool

/-- Identity of a redis connection, in order of creation. -/
abbrev Conn := Nat

/-- The state of a `ConPool`: its queue and the threads known to its condition variable. -/
structure ConPool (T : Type) where
  /-- The waiting connections, front first. -/
  queue : List Conn
  /-- Threads blocked in `wait`, with the mutex given up. -/
  asleep : List T
  /-- Threads notified or spuriously awakened that have not re-checked the queue. -/
  awake : List T
  /-- Threads that have pushed and unlocked and still have to call `notify_one`. -/
  notifying : List T
  deriving DecidableEq, Repr

variable {T : Type} [DecidableEq T]

/-- `new ConPool()`. -/
def ConPool.empty : ConPool T := ⟨[], [], [], []⟩

/-- `pullConnection` from the test of the queue to the return or to the wait. -/
def ConPool.pull (P : ConPool T) (t : T) : ConPool T × Option Conn :=
  match P.queue with
  | c :: q => ({ P with queue := q }, some c)
  | [] => ({ P with asleep := P.asleep ++ [t] }, none)

/-- A spurious wake-up: the thread leaves the condition variable unasked. -/
def ConPool.spurious (P : ConPool T) (t : T) : Option (ConPool T) :=
  if t ∈ P.asleep then some { P with asleep := P.asleep.erase t, awake := P.awake ++ [t] }
  else none

/-- An awakened thread has the mutex again and re-checks the queue. -/
def ConPool.recheck (P : ConPool T) (t : T) : Option (ConPool T × Option Conn) :=
  if t ∈ P.awake then some (({ P with awake := P.awake.erase t } : ConPool T).pull t) else none

/-- `pushConnection` up to the unlock. -/
def ConPool.push (P : ConPool T) (t : T) (c : Conn) : ConPool T :=
  { P with queue := P.queue ++ [c], notifying := P.notifying ++ [t] }

/-- `notify_one`: it awakens one sleeper, if there is any. -/
def ConPool.notify (P : ConPool T) (t : T) (woken : Option T) : Option (ConPool T) :=
  if t ∈ P.notifying then
    let P' : ConPool T := { P with notifying := P.notifying.erase t }
    match woken with
    | none => if P.asleep = [] then some P' else none
    | some u => P'.spurious u
  else none

/-- The atomic sections of any threads on one pool. -/
inductive ConPool.Action (T : Type) where
  | pull (t : T)
  | spurious (t : T)
  | recheck (t : T)
  | push (t : T) (c : Conn)
  | notify (t : T) (woken : Option T)
  deriving DecidableEq, Repr

/-- One atomic section; a pulled connection leaves the pool. -/
def ConPool.step (P : ConPool T) : ConPool.Action T → Option (ConPool T)
  | .pull t => some (P.pull t).1
  | .spurious t => P.spurious t
  | .recheck t => (P.recheck t).map (·.1)
  | .push t c => some (P.push t c)
  | .notify t woken => P.notify t woken

/-- The counting view of a pool. -/
def ConPool.view (P : ConPool T) : Monitor :=
  ⟨P.queue.length, P.asleep.length, P.awake.length, P.notifying.length⟩

/-- Erasing a member shortens a list by one. -/
theorem length_of_mem {l : List T} {t : T} (h : t ∈ l) : l.length = (l.erase t).length + 1 := by
  have := List.length_erase_of_mem h
  have := List.length_pos_of_mem h
  omega

omit [DecidableEq T] in
theorem ConPool.view_pull (P : ConPool T) (t : T) : Monitor.Step P.view (P.pull t).1.view := by
  obtain ⟨queue, asleep, awake, notifying⟩ := P
  cases queue with
  | nil => simpa [view, pull] using Monitor.Step.sleep
  | cons c q => simpa [view, pull] using Monitor.Step.take

theorem ConPool.view_spurious {P P' : ConPool T} {t : T} (h : P.spurious t = some P') :
    Monitor.Step P.view P'.view := by
  simp only [spurious, Option.ite_none_right_eq_some, Option.some.injEq] at h
  obtain ⟨ht, rfl⟩ := h
  simp only [view, length_of_mem ht, List.length_append, List.length_singleton]
  exact .spurious

theorem ConPool.view_recheck {P : ConPool T} {t : T} {r : ConPool T × Option Conn}
    (h : P.recheck t = some r) : Monitor.Step P.view r.1.view := by
  simp only [recheck, Option.ite_none_right_eq_some, Option.some.injEq] at h
  obtain ⟨ht, rfl⟩ := h
  obtain ⟨queue, asleep, awake, notifying⟩ := P
  cases queue with
  | nil =>
    simp only [view, pull, length_of_mem ht, List.length_append, List.length_singleton,
      List.length_nil]
    exact .recheckSleep
  | cons c q =>
    simp only [view, pull, length_of_mem ht, List.length_cons]
    exact .recheckTake

theorem ConPool.view_notify {P P' : ConPool T} {t : T} {woken : Option T}
    (h : P.notify t woken = some P') : Monitor.Step P.view P'.view := by
  simp only [notify, Option.ite_none_right_eq_some] at h
  obtain ⟨ht, h⟩ := h
  cases woken with
  | none =>
    simp only [Option.ite_none_right_eq_some, Option.some.injEq] at h
    obtain ⟨ha, rfl⟩ := h
    simp only [view, length_of_mem ht, ha, List.length_nil]
    exact .notifyNone
  | some u =>
    simp only [spurious, Option.ite_none_right_eq_some, Option.some.injEq] at h
    obtain ⟨hu, rfl⟩ := h
    simp only [view, length_of_mem ht, length_of_mem hu, List.length_append,
      List.length_singleton]
    exact .notifyOne

/-- Every atomic section on a pool is one of the counting monitor. -/
theorem ConPool.step_view {P P' : ConPool T} {a : ConPool.Action T} (h : P.step a = some P') :
    Monitor.Step P.view P'.view := by
  cases a with
  | pull t =>
    cases h
    exact P.view_pull t
  | spurious t => exact view_spurious h
  | recheck t =>
    obtain ⟨r, hr, rfl⟩ := Option.map_eq_some_iff.mp h
    exact view_recheck hr
  | push t c =>
    cases h
    simpa [view, push] using Monitor.Step.push
  | notify t woken => exact view_notify h

/-- A pool with any stock of connections and no thread at its condition variable. -/
def ConPool.stocked (queue : List Conn) : ConPool T := ⟨queue, [], [], []⟩

/-- In every reachable state of a pool, a thread asleep beside idle connections is matched:
there are at least as many signals still to be sent and awakened threads still to re-check
as connections in the queue, and so at least one of them. -/
theorem no_lost_wakeup {queue : List Conn} {as : List (ConPool.Action T)} {P : ConPool T}
    (h : Run ConPool.step (fun _ _ => True) (ConPool.stocked queue) as P)
    (hsleep : P.asleep ≠ []) (hidle : P.queue ≠ []) :
    P.queue.length ≤ P.notifying.length + P.awake.length ∧ (P.notifying ≠ [] ∨ P.awake ≠ []) := by
  have hinv : P.view.NoLostWakeup := by
    refine h.invariant (P := fun P => P.view.NoLostWakeup) ?_ fun _ _ _ hp _ hs =>
      (ConPool.step_view hs).noLostWakeup hp
    simp [Monitor.NoLostWakeup, ConPool.view, ConPool.stocked]
  have hle : P.queue.length ≤ P.notifying.length + P.awake.length :=
    hinv (List.length_pos_iff.mpr hsleep)
  refine ⟨hle, ?_⟩
  by_contra hnone
  simp only [not_or, not_not] at hnone
  have hpos := List.length_pos_iff.mpr hidle
  simp only [hnone.1, hnone.2, List.length_nil] at hle
  omega

/-- One thread holds the only connection, a second one waits, the first gives it back. -/
theorem no_lost_wakeup_handover :
    ∃ P : ConPool Nat,
      Run ConPool.step (fun _ _ => True) (ConPool.stocked [7]) [.pull 0, .pull 1, .push 0 7] P ∧
      P.asleep = [1] ∧ P.queue = [7] ∧
      P.queue.length ≤ P.notifying.length + P.awake.length ∧
      (P.notifying ≠ [] ∨ P.awake ≠ []) := by
  have hrun : Run ConPool.step (fun _ _ => True) (ConPool.stocked [7])
      [.pull 0, .pull 1, .push 0 7] (⟨[7], [1], [], [0]⟩ : ConPool Nat) :=
    .of_runFrom rfl fun _ _ _ _ _ _ => trivial
  exact ⟨_, hrun, rfl, rfl, no_lost_wakeup hrun (by decide) (by decide)⟩

end AsioCoroFrame.ThreadedPool
