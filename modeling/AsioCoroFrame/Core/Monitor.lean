import AsioCoroFrame.Core.Run
import Mathlib.Logic.Relation

/-!
# Counting monitors

A monitor guards a stock of items by a mutex and one condition variable. A
consumer that finds the stock empty falls asleep; a producer adds an item under
the mutex and signals later, after giving the mutex up. Only four numbers
matter for lost wake-ups, so any implementation is compared with this one by
counting its items and its threads.
-/

namespace AsioCoroFrame

/-- The numbers of stocked items, sleeping consumers, awakened consumers that have not
looked again, and signals still to be sent. -/
structure Monitor where
  available : Nat
  asleep : Nat
  awake : Nat
  pending : Nat
  deriving DecidableEq, Repr

/-- One atomic section of a consumer or a producer. -/
inductive Monitor.Step : Monitor → Monitor → Prop
  | take {n a w p} : Step ⟨n + 1, a, w, p⟩ ⟨n, a, w, p⟩
  | sleep {a w p} : Step ⟨0, a, w, p⟩ ⟨0, a + 1, w, p⟩
  | spurious {n a w p} : Step ⟨n, a + 1, w, p⟩ ⟨n, a, w + 1, p⟩
  | recheckTake {n a w p} : Step ⟨n + 1, a, w + 1, p⟩ ⟨n, a, w, p⟩
  | recheckSleep {a w p} : Step ⟨0, a, w + 1, p⟩ ⟨0, a + 1, w, p⟩
  | push {n a w p} : Step ⟨n, a, w, p⟩ ⟨n + 1, a, w, p + 1⟩
  | notifyOne {n a w p} : Step ⟨n, a + 1, w, p + 1⟩ ⟨n, a, w + 1, p⟩
  | notifyNone {n w p} : Step ⟨n, 0, w, p + 1⟩ ⟨n, 0, w, p⟩

/-- Whoever sleeps beside stocked items is matched by a signal or an awakened consumer. -/
def Monitor.NoLostWakeup (m : Monitor) : Prop := 0 < m.asleep → m.available ≤ m.pending + m.awake

/-- No atomic section loses a wake-up: items appear together with a signal, and a signal is
only spent on a sleeper or when nobody sleeps. -/
theorem Monitor.Step.noLostWakeup {m m' : Monitor} (h : Monitor.Step m m')
    (hm : m.NoLostWakeup) : m'.NoLostWakeup := by
  unfold Monitor.NoLostWakeup at hm ⊢
  cases h <;> simp only at hm ⊢ <;> omega

end AsioCoroFrame
