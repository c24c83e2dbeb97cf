import AsioCoroFrame.Models.ThreadedPool.Exclusivity

/-!
# A redirect insert that fails

`insert(host, port)` registers the pool of a new node before it converts the
port and makes the ten connections, so an exception leaves the node known with
a pool that nobody fills. A call leaves the redirect pools as they were on an
exception exactly when it cannot raise one.
-/

namespace AsioCoroFrame.ThreadedPool

open Cluster

variable {τ : Type} [DecidableEq τ] {s : State τ}

/-- `insert(host, port)` up to giving up the mutex; the flag tells whether it raises. -/
def State.tryInsert (s : State τ) (t : τ) (host port : Bytes) (connect : Nat → ConnectResult) :
    State τ × Bool :=
  let key := hostKey host port
  match s.connections.find? fun n => n.1 = key with
  | some n => (s.pullConnection t n.2 (.host key), false)
  | none =>
    match stoi port with
    | .error _ => (s.register (.host key), true)
    | .ok _ =>
      match (s.register (.host key)).fillPool s.pools.length (.host key) connect poolSize with
      | (s', true) => (s'.pullConnection t s.pools.length (.host key), false)
      | (s', false) => (s', true)

/-- `connections_` has the same keys, and the pools behind them are the same. -/
def SameRedirects (s s' : State τ) : Prop :=
  s'.connections = s.connections ∧ ∀ n ∈ s.connections, s'.pools[n.2]? = s.pools[n.2]?

/-- A redirect insert that raises leaves the redirect pools as they were. -/
def UnchangedOnFailure (s : State τ) : Action τ → Prop
  | .insert t host port connect => (s.tryInsert t host port connect).2 = true →
    SameRedirects s (s.tryInsert t host port connect).1
  | _ => True

/-- A redirect insert finds its node, or can make all connections to it. -/
def InsertCompletes (s : State τ) : Action τ → Prop
  | .insert _ host port connect => s.lookup (.host (hostKey host port)) ≠ none ∨
    (∃ v, stoi port = .ok v) ∧ ∀ i < poolSize, connect i = .ok
  | _ => True

omit [DecidableEq τ] in
/-- The flag beside it, the call is the step of the pool. -/
theorem State.tryInsert_fst (s : State τ) (t : τ) (host port : Bytes)
    (connect : Nat → ConnectResult) :
    (s.tryInsert t host port connect).1 = s.insert t host port connect := by
  simp only [tryInsert, insert]
  cases s.connections.find? fun n => n.1 = hostKey host port with
  | some n => rfl
  | none =>
    cases stoi port with
    | error e => rfl
    | ok v =>
      rcases (s.register (.host (hostKey host port))).fillPool s.pools.length
        (.host (hostKey host port)) connect poolSize with ⟨s', _ | _⟩ <;> rfl

/-- A filling loop that runs to its end has made every connection. -/
theorem connect_of_filled {connect : Nat → ConnectResult} {n : Nat} (h : filled connect n = n)
    {i : Nat} (hlo : poolSize - n ≤ i) (hi : i < poolSize) : connect i = .ok := by
  induction n with
  | zero => omega
  | succ n ih =>
    rw [filled] at h
    split at h
    · rename_i hc
      rcases Nat.eq_or_lt_of_le hlo with rfl | hlt
      · exact hc
      · exact ih (Nat.succ.inj h) (by omega)
    · omega

theorem filled_poolSize_iff {connect : Nat → ConnectResult} :
    filled connect poolSize = poolSize ↔ ∀ i < poolSize, connect i = .ok :=
  ⟨fun h _ hi => connect_of_filled h (by omega) hi, fun h => filled_eq h _ le_rfl⟩

omit [DecidableEq τ] in
/-- A node that gets a pool was not there before. -/
theorem State.opened_host_connections_ne (s : State τ) (h : Host) (k : Nat) :
    (s.opened (.host h) k).connections ≠ s.connections := by
  have hopen : (s.opened (.host h) k).connections = assignHost h s.pools.length s.connections :=
    rfl
  intro he
  have hlen := congrArg List.length (hopen.symm.trans he)
  rw [assignHost, insertBefore, List.length_append, List.length_cons, Nat.add_succ,
    ← List.length_append, List.takeWhile_append_dropWhile] at hlen
  omega

omit [DecidableEq τ] in
/-- The call for an unknown node opens its pool in any case; it raises unless the pool is filled. -/
theorem State.tryInsert_unknown {t : τ} {host port : Bytes} {connect : Nat → ConnectResult}
    (hnone : s.lookup (.host (hostKey host port)) = none)
    (hc : ¬ ((∃ v, stoi port = .ok v) ∧ ∀ i < poolSize, connect i = .ok)) :
    ∃ k, s.tryInsert t host port connect = (s.opened (.host (hostKey host port)) k, true) := by
  have hf : (s.connections.find? fun n => n.1 = hostKey host port) = none := by
    simpa [lookup] using hnone
  cases hport : stoi port with
  | error e => exact ⟨0, by simp only [tryInsert, hf, hport, opened_zero]⟩
  | ok v =>
    have hshort : filled connect poolSize ≠ poolSize :=
      fun h => hc ⟨⟨v, hport⟩, filled_poolSize_iff.mp h⟩
    refine ⟨filled connect poolSize, ?_⟩
    simp only [tryInsert, hf, hport, fillPool_register, hshort, decide_false]

omit [DecidableEq τ] in
/-- The call raises nothing once its node is known or its pool is filled. -/
theorem State.tryInsert_completes {t : τ} {host port : Bytes} {connect : Nat → ConnectResult}
    (h : InsertCompletes s (.insert t host port connect)) :
    (s.tryInsert t host port connect).2 = false := by
  cases hf : s.connections.find? fun n => n.1 = hostKey host port with
  | some n => simp only [tryInsert, hf]
  | none =>
    rcases h with hknown | ⟨⟨v, hport⟩, hc⟩
    · exact absurd (by simp [lookup, hf]) hknown
    · simp only [tryInsert, hf, hport, fillPool_register, filled_poolSize_iff.mpr hc, decide_true]

omit [DecidableEq τ] in
/-- In any state, an action is safe exactly when it is no insert that can raise. -/
theorem unchangedOnFailure_iff (a : Action τ) : UnchangedOnFailure s a ↔ InsertCompletes s a := by
  cases a with
  | insert t host port connect =>
    constructor
    · intro h
      by_contra hc
      simp only [InsertCompletes, not_or, not_not] at hc
      obtain ⟨k, hk⟩ := State.tryInsert_unknown (t := t) hc.1 hc.2
      rw [UnchangedOnFailure, hk] at h
      exact s.opened_host_connections_ne _ k (h rfl).1
    · intro h hraises
      rw [State.tryInsert_completes h] at hraises
      cases hraises
  | _ => exact Iff.rfl

/-- Along any execution, every redirect insert that raises leaves the redirect pools as they were
exactly when every redirect insert finds its node or can make all connections to it. -/
theorem redirects_unchanged_iff {as : List (Action τ)} (h : runFrom step as initial = some s) :
    (∀ pre a post m, as = pre ++ a :: post → runFrom step pre initial = some m →
      UnchangedOnFailure m a) ↔ Run step InsertCompletes initial as s := by
  constructor
  · intro hall
    refine .of_runFrom h fun pre a post he m hm => ?_
    exact (unchangedOnFailure_iff a).mp (hall pre a post m he hm)
  · intro hrun pre a post m he hm
    subst he
    obtain ⟨m', hpre, hpost⟩ := hrun.split
    obtain rfl : m' = m := Option.some.inj (hpre.runFrom_eq.symm.trans hm)
    exact (unchangedOnFailure_iff a).mpr hpost.head_ok

/-- A redirect to a node that can be reached, and another one to the same node. -/
theorem redirects_unchanged_iff_known :
    ∃ s : State Bool, runFrom step
        [.insert false (ascii "node") (ascii "6379") fun _ => .ok,
          .insert true (ascii "node") (ascii "6379") fun _ => .null] initial = some s ∧
      ((∀ pre a post m, [.insert false (ascii "node") (ascii "6379") fun _ => .ok,
          .insert true (ascii "node") (ascii "6379") fun _ => .null] = pre ++ a :: post →
          runFrom step pre initial = some m → UnchangedOnFailure m a) ↔
        Run step InsertCompletes initial
          [.insert false (ascii "node") (ascii "6379") fun _ => .ok,
            .insert true (ascii "node") (ascii "6379") fun _ => .null] s) :=
  ⟨_, rfl, redirects_unchanged_iff rfl⟩

/-- After an insert whose first connect fails, the next one for the same node does not connect
although it could: it falls asleep at the empty pool. -/
theorem failed_insert_blocks :
    ¬ UnchangedOnFailure (initial : State Bool)
        (.insert false (ascii "node") (ascii "6379") fun _ => .null) ∧
      ∃ s s' : State Bool,
        runFrom step [.insert false (ascii "node") (ascii "6379") fun _ => .null] initial = some s ∧
        step s (.insert true (ascii "node") (ascii "6379") fun _ => .ok) = some s' ∧
        s'.held = [] ∧ s'.created = [] ∧
        s'.pools.map (·.pool.asleep) = [[⟨true, .host (ascii "node:6379")⟩]] := by
  refine ⟨fun h => ?_, _, _, rfl, rfl, by decide, by decide, by decide⟩
  exact absurd (h (by decide)).1 (by decide)

end AsioCoroFrame.ThreadedPool
