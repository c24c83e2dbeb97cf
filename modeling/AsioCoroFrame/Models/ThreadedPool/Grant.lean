import AsioCoroFrame.Models.ThreadedPool.Conservation

/-!
# What one atomic section hands out

A call for a connection appends the pair it obtains to the held ones, or leaves
them as they are; a release takes one pair away and every other section touches
none. A pair of a known host comes from the front of its queue.
-/

namespace AsioCoroFrame.ThreadedPool

variable {τ : Type} [DecidableEq τ] {s s' : State τ}

/-- The thread whose own call an atomic section is. -/
def Action.caller : Action τ → Option τ
  | .getConnection t _ => some t
  | .insert t _ _ _ => some t
  | .recheck _ c => some c.thread
  | .release l => some l.thread
  | .insertSlots .. | .spurious .. | .notify .. | .fail _ => none

/-- The pair that an atomic section has handed out, if it has. -/
def granted (s s' : State τ) : Option (Lease τ) := s'.held[s.held.length]?

/-- The connection at the front of a pool's queue. -/
def State.frontAt (s : State τ) (p : Ptr) : Option Conn := s.pools[p]?.bind (·.pool.queue.head?)

/-- The connection at the front of the queue that a redirection takes from. -/
def State.front (s : State τ) : Action τ → Option Conn
  | .insert _ host port _ => (s.lookup (.host (hostKey host port))).bind s.frontAt
  | .recheck p _ => s.frontAt p
  | _ => none

omit [DecidableEq τ] in
theorem granted_of_held_eq (h : s'.held = s.held) : granted s s' = none := by
  simp [granted, h]

omit [DecidableEq τ] in
theorem granted_of_held_append {l : Lease τ} (h : s'.held = s.held ++ [l]) :
    granted s s' = some l := by
  simp [granted, h]

omit [DecidableEq τ] in
/-- The call obtains the front connection of a pool, or finds the pool empty. -/
theorem State.pullConnection_held (t : τ) (p : Ptr) (key : PoolKey) :
    ((s.pullConnection t p key).held = s.held ∧ s.frontAt p = none) ∨
      ∃ l, l.thread = t ∧ (s.pullConnection t p key).held = s.held ++ [l] ∧
        s.frontAt p = some l.conn := by
  cases hP : s.pools[p]? with
  | none => exact .inl (by simp [pullConnection, frontAt, hP])
  | some P =>
    cases hq : P.pool.queue with
    | nil => exact .inl (by simp [pullConnection, frontAt, hP, ConPool.pull, hq])
    | cons c q =>
      refine .inr ⟨⟨t, key, c⟩, rfl, ?_, ?_⟩
      · simp [pullConnection, hP, ConPool.pull, hq]
      · simp [frontAt, hP, hq]

omit [DecidableEq τ] in
theorem State.pullConnection_broken (t : τ) (p : Ptr) (key : PoolKey) :
    (s.pullConnection t p key).broken = s.broken := by
  cases hP : s.pools[p]? with
  | none => simp [pullConnection, hP]
  | some P =>
    cases hq : P.pool.queue with
    | nil => simp [pullConnection, hP, ConPool.pull, hq]
    | cons c q => simp [pullConnection, hP, ConPool.pull, hq]

omit [DecidableEq τ] in
@[simp] theorem State.opened_broken (s : State τ) (key : PoolKey) (k : Nat) :
    (s.opened key k).broken = s.broken := by
  cases key <;> rfl

omit [DecidableEq τ] in
@[simp] theorem State.opened_held (s : State τ) (key : PoolKey) (k : Nat) :
    (s.opened key k).held = s.held := by
  cases key <;> rfl

omit [DecidableEq τ] in
/-- The front of a pool that was just filled is the first connection made for it. -/
theorem State.frontAt_opened {key : PoolKey} {k : Nat} {c : Conn}
    (h : (s.opened key k).frontAt s.pools.length = some c) : c = s.next := by
  have hpools : (s.opened key k).pools = s.pools ++ [⟨key, .stocked (List.range' s.next k)⟩] := rfl
  cases k with
  | zero => simp [frontAt, hpools, ConPool.stocked] at h
  | succ k =>
    simp only [frontAt, hpools, List.getElem?_concat_length, Option.bind_some, ConPool.stocked,
      List.range'_succ, List.head?_cons, Option.some.injEq] at h
    exact h.symm

/-- What a call for a connection does to the held pairs. -/
def Grants (s s' : State τ) (t : τ) (P : Conn → Prop) (none : Prop) : Prop :=
  (s'.held = s.held ∧ none) ∨ ∃ l, l.thread = t ∧ s'.held = s.held ++ [l] ∧ P l.conn

/-- A redirection obtains the front connection of the host's queue, or one just made when the
host was unknown. -/
def Redirects (s s' : State τ) (t : τ) (a : Action τ) : Prop :=
  Grants s s' t (fun c => s.front a = some c ∨ s.front a = none ∧ c = s.next) (s.front a = none)

omit [DecidableEq τ] in
theorem State.insert_redirects (t : τ) (host port : Bytes) (connect : Nat → ConnectResult) :
    (s.insert t host port connect).broken = s.broken ∧
      Redirects s (s.insert t host port connect) t (.insert t host port connect) := by
  cases hf : s.connections.find? fun n => n.1 = hostKey host port with
  | some n =>
    have hfront : s.front (.insert t host port connect) = s.frontAt n.2 := by
      simp [front, lookup, hf]
    have hinsert : s.insert t host port connect =
        s.pullConnection t n.2 (.host (hostKey host port)) := by
      simp [insert, hf]
    rw [hinsert, Redirects, hfront]
    refine ⟨pullConnection_broken .., ?_⟩
    rcases s.pullConnection_held t n.2 (.host (hostKey host port)) with h | ⟨l, ht, hl, hc⟩
    · exact .inl h
    · exact .inr ⟨l, ht, hl, .inl hc⟩
  | none =>
    have hfront : s.front (.insert t host port connect) = none := by
      simp [front, lookup, hf]
    rw [Redirects, hfront]
    cases hport : stoi port with
    | error e =>
      have hinsert : s.insert t host port connect = s.opened (.host (hostKey host port)) 0 := by
        simp [insert, hf, hport, opened_zero]
      rw [hinsert]
      exact ⟨opened_broken .., .inl ⟨opened_held .., rfl⟩⟩
    | ok v =>
      simp only [insert, hf, hport, fillPool_register]
      by_cases hfull : filled connect poolSize = poolSize
      · simp only [hfull, decide_true]
        have hheld := opened_held s (.host (hostKey host port)) poolSize
        refine ⟨by rw [pullConnection_broken, opened_broken], ?_⟩
        rcases (s.opened (.host (hostKey host port)) poolSize).pullConnection_held t
          s.pools.length (.host (hostKey host port)) with ⟨h, _⟩ | ⟨l, ht, hl, hc⟩
        · exact .inl ⟨h.trans hheld, trivial⟩
        · exact .inr ⟨l, ht, hheld ▸ hl, .inr ⟨trivial, frontAt_opened hc⟩⟩
      · simp only [hfull, decide_false]
        exact ⟨opened_broken .., .inl ⟨opened_held .., trivial⟩⟩

/-- The second look at the queue, after a thread was awakened. -/
theorem recheck_redirects {p : Ptr} {c : Call τ} (h : step s (.recheck p c) = some s') :
    s'.broken = s.broken ∧ Redirects s s' c.thread (.recheck p c) := by
  simp only [step, Option.bind_eq_bind, Option.bind_eq_some_iff, Option.ite_none_right_eq_some,
    Option.pure_def, Option.some.injEq] at h
  obtain ⟨P, hP, _, rfl⟩ := h
  have hfront : (s.thinned p P (P.pool.awake.erase c)).frontAt p = s.front (.recheck p c) := by
    have hp := (List.getElem?_eq_some_iff.mp hP).1
    simp only [State.thinned, State.front, State.frontAt, List.getElem?_set_self hp, hP,
      Option.bind_some]
  refine ⟨State.pullConnection_broken .., ?_⟩
  rcases (s.thinned p P (P.pool.awake.erase c)).pullConnection_held c.thread p c.key with
    ⟨hh, hn⟩ | ⟨l, ht, hl, hc⟩
  · exact .inl ⟨hh, hfront ▸ hn⟩
  · exact .inr ⟨l, ht, hl, .inl (hfront ▸ hc)⟩

omit [DecidableEq τ] in
/-- A call for the connection of a slot obtains one or leaves the held pairs alone. -/
theorem State.getConnection_grants (t : τ) (index : Nat) :
    Grants s (s.getConnection t index) t (fun _ => True) True := by
  unfold getConnection
  split
  · exact .inl ⟨rfl, trivial⟩
  · rename_i n _
    rcases s.pullConnection_held t n.2 (.slots n.1) with h | ⟨l, ht, hl, _⟩
    · exact .inl ⟨h.1, trivial⟩
    · exact .inr ⟨l, ht, hl, trivial⟩

/-- A section that is no thread's own call hands out nothing. -/
theorem held_of_caller_none {a : Action τ} (ha : a.caller = none) (h : step s a = some s') :
    s'.held = s.held := by
  have honPool {p : Ptr} {f : ConPool (Call τ) → Option (ConPool (Call τ))}
      (h : s.onPool p f = some s') : s'.held = s.held := by
    obtain ⟨_, _, _, _, rfl⟩ := State.onPool_spec h
    rfl
  cases a with
  | insertSlots r connect =>
    cases h
    simp only [State.insertSlots, State.fillPool_register, State.opened_held]
  | spurious p c => exact honPool (f := (·.spurious c)) h
  | notify p c woken => exact honPool (f := (·.notify c woken)) h
  | fail c =>
    simp only [step, Option.ite_none_right_eq_some, Option.some.injEq] at h
    obtain ⟨_, rfl⟩ := h
    rfl
  | getConnection | insert | recheck | release => cases ha

/-- A release takes its own pair away from the held ones. -/
theorem release_held {l : Lease τ} (h : step s (.release l) = some s') :
    l ∈ s.held ∧ s'.held = s.held.erase l := by
  obtain ⟨hl, _, _, _, _, _, rfl⟩ := State.release_spec h
  exact ⟨hl, rfl⟩

end AsioCoroFrame.ThreadedPool
