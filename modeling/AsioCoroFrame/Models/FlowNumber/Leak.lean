import AsioCoroFrame.Models.FlowNumber.Service
import AsioCoroFrame.Models.ThreadedPool.Exclusivity
import AsioCoroFrame.Models.ThreadedPool.Health

/-!
# When flow-number requests give back what they take

The ledger of a run assigns every held pair either to the request that still
owns it or to the ones forgotten so far. A step forgets a pair exactly when it
raises out of a redirection, so a quiet server has all connections back in
their queues exactly when no step of its run did.
-/

namespace AsioCoroFrame.FlowNumber

open Cluster
open ThreadedPool (Lease Sound Typed Idle granted)

variable {τ : Type} [DecidableEq τ] {s s' : Server τ}

/-! ## The pairs of one thread -/

/-- The pairs that belong to one thread. -/
def pairsOf (t : τ) (ls : List (Lease τ)) : List Pair :=
  (ls.filter (·.thread = t)).map fun l => (l.key, l.conn)

theorem pairsOf_append (t : τ) (ls ls' : List (Lease τ)) :
    pairsOf t (ls ++ ls') = pairsOf t ls ++ pairsOf t ls' := by
  simp [pairsOf]

theorem pairsOf_self (l : Lease τ) : pairsOf l.thread [l] = [(l.key, l.conn)] := by
  simp [pairsOf]

theorem pairsOf_of_ne {l : Lease τ} {u : τ} (h : u ≠ l.thread) : pairsOf u [l] = [] := by
  simp [pairsOf, h.symm]

theorem pairsOf_perm {ls ls' : List (Lease τ)} (h : ls.Perm ls') (t : τ) :
    (pairsOf t ls).Perm (pairsOf t ls') := (h.filter _).map _

theorem pairsOf_erase_self {l : Lease τ} {ls : List (Lease τ)} (hl : l ∈ ls) :
    (pairsOf l.thread (ls.erase l)).Perm ((pairsOf l.thread ls).erase (l.key, l.conn)) := by
  have h := pairsOf_perm (List.perm_cons_erase hl) l.thread
  rw [← List.singleton_append, pairsOf_append, pairsOf_self, List.singleton_append] at h
  simpa using (h.erase (l.key, l.conn)).symm

theorem pairsOf_erase_of_ne {l : Lease τ} {ls : List (Lease τ)} (hl : l ∈ ls) {u : τ}
    (h : u ≠ l.thread) : (pairsOf u (ls.erase l)).Perm (pairsOf u ls) := by
  have hp := pairsOf_perm (List.perm_cons_erase hl) u
  rw [← List.singleton_append, pairsOf_append, pairsOf_of_ne h, List.nil_append] at hp
  exact hp.symm

/-- Every lease belongs to its thread. -/
theorem eq_nil_of_pairsOf {ls : List (Lease τ)} (h : ∀ t, pairsOf t ls = []) : ls = [] := by
  refine List.eq_nil_iff_forall_not_mem.mpr fun l hl => ?_
  have hmem : (l.key, l.conn) ∈ pairsOf l.thread ls :=
    List.mem_map.mpr ⟨l, by simp [hl], rfl⟩
  simp [h] at hmem

/-! ## The ledger -/

/-- A thread owns nothing between requests, and gives back what it owns by the end of one. -/
def Owns (owned : List Pair) : Option (Routine (Option Bytes)) → Prop
  | none => owned = []
  | some p => p.Obeys ownership (· = []) owned

/-- Every held pair is owned by its thread's request or was forgotten by an earlier one. -/
structure Ledger (lost : List (Lease τ)) (s : Server τ) : Prop where
  sound : Sound s.pool
  accounts : ∀ t, ∃ owned, Owns owned (s.threads t) ∧
    (pairsOf t s.pool.held).Perm (owned ++ pairsOf t lost)

variable {lost lost' : List (Lease τ)} {t : τ} {p : Option (Routine (Option Bytes))}
  {owned : List Pair} {pool : ThreadedPool.State τ}

/-- Only the account of the moving thread changes. -/
theorem Ledger.update (h : Ledger lost s) (hsound : Sound pool)
    (hother : ∀ u, u ≠ t → (pairsOf u pool.held).Perm (pairsOf u s.pool.held) ∧
      pairsOf u lost' = pairsOf u lost)
    (howns : Owns owned p) (hself : (pairsOf t pool.held).Perm (owned ++ pairsOf t lost')) :
    Ledger lost' ⟨pool, Function.update s.threads t p⟩ := by
  refine ⟨hsound, fun u => ?_⟩
  by_cases hu : u = t
  · subst hu
    exact ⟨owned, by simpa using howns, hself⟩
  · obtain ⟨o, ho, hacc⟩ := h.accounts u
    obtain ⟨hheld, hlost⟩ := hother u hu
    exact ⟨o, by simpa [hu] using ho, hlost ▸ hheld.trans hacc⟩

theorem Ledger.keep (h : Ledger lost s) (hsound : Sound pool) (hheld : pool.held = s.pool.held)
    (howns : Owns owned p) (hacc : (pairsOf t s.pool.held).Perm (owned ++ pairsOf t lost)) :
    Ledger lost ⟨pool, Function.update s.threads t p⟩ :=
  h.update hsound (fun _ _ => ⟨hheld ▸ .refl _, rfl⟩) howns (hheld ▸ hacc)

theorem Ledger.take (h : Ledger lost s) (hsound : Sound pool) {l : Lease τ}
    (hheld : pool.held = s.pool.held ++ [l]) (howns : Owns ((l.key, l.conn) :: owned) p)
    (hacc : (pairsOf l.thread s.pool.held).Perm (owned ++ pairsOf l.thread lost)) :
    Ledger lost ⟨pool, Function.update s.threads l.thread p⟩ := by
  refine h.update hsound (fun u hu => ⟨?_, rfl⟩) howns ?_
  · rw [hheld, pairsOf_append, pairsOf_of_ne hu, List.append_nil]
  · rw [hheld, pairsOf_append, pairsOf_self]
    exact (List.perm_append_singleton _ _).trans (hacc.cons _)

theorem Ledger.takeLost (h : Ledger lost s) (hsound : Sound pool) {l : Lease τ}
    (hheld : pool.held = s.pool.held ++ [l]) (howns : Owns owned p)
    (hacc : (pairsOf l.thread s.pool.held).Perm (owned ++ pairsOf l.thread lost)) :
    Ledger (lost ++ [l]) ⟨pool, Function.update s.threads l.thread p⟩ := by
  refine h.update hsound (fun u hu => ⟨?_, ?_⟩) howns ?_
  · rw [hheld, pairsOf_append, pairsOf_of_ne hu, List.append_nil]
  · rw [pairsOf_append, pairsOf_of_ne hu, List.append_nil]
  · rw [hheld, pairsOf_append, pairsOf_append, ← List.append_assoc]
    exact hacc.append_right _

theorem Ledger.put (h : Ledger lost s) (hsound : Sound pool) {l : Lease τ}
    (hl : l ∈ s.pool.held) (hheld : pool.held = s.pool.held.erase l)
    (hmem : (l.key, l.conn) ∈ owned) (howns : Owns (owned.erase (l.key, l.conn)) p)
    (hacc : (pairsOf l.thread s.pool.held).Perm (owned ++ pairsOf l.thread lost)) :
    Ledger lost ⟨pool, Function.update s.threads l.thread p⟩ := by
  refine h.update hsound (fun u hu => ⟨hheld ▸ pairsOf_erase_of_ne hl hu, rfl⟩) howns ?_
  rw [hheld, ← List.erase_append_left _ hmem]
  exact (pairsOf_erase_self hl).trans (hacc.erase _)

theorem Ledger.forget (h : Ledger lost s) (hsound : Sound pool) {con : Pair}
    (hheld : pool.held = s.pool.held) (hmem : con ∈ owned) (howns : Owns (owned.erase con) p)
    (hacc : (pairsOf t s.pool.held).Perm (owned ++ pairsOf t lost)) :
    Ledger (lost ++ [⟨t, con.1, con.2⟩]) ⟨pool, Function.update s.threads t p⟩ := by
  refine h.update hsound (fun u hu => ⟨hheld ▸ .refl _, ?_⟩) howns ?_
  · rw [pairsOf_append, pairsOf_of_ne hu, List.append_nil]
  · have hlost : pairsOf t [(⟨t, con.1, con.2⟩ : Lease τ)] = [con] := pairsOf_self _
    rw [hheld, pairsOf_append, hlost]
    refine hacc.trans (((List.perm_cons_erase hmem).append_right _).trans ?_)
    rw [← List.append_assoc]
    exact (List.perm_append_singleton _ _).symm

/-! ## One step of the server -/

/-- A step either remembers and leaves the forgotten pairs as they are, or forgets one more. -/
def Advances (lost : List (Lease τ)) (s' : Server τ) (remembers : Prop) : Prop :=
  (Ledger lost s' ∧ remembers) ∨ ∃ l, Ledger (lost ++ [l]) s' ∧ ¬ remembers

theorem sound_step {s s' : ThreadedPool.State τ} {a : ThreadedPool.Action τ} (h : Sound s)
    (hstep : ThreadedPool.step s a = some s') : Sound s' :=
  ThreadedPool.step_invariant (O := fun _ _ _ => True) (R := fun _ _ => True)
    (fun _ _ => Sound.effect) (fun _ _ _ => trivial) (fun _ _ => trivial) hstep h

theorem readReply_spec {s s' : ThreadedPool.State τ} {con : Pair} {r : Option RedisReply}
    (h : readReply s con r = some s') (hs : Sound s) : Sound s' ∧ s'.held = s.held := by
  unfold readReply at h
  split at h
  · exact ⟨sound_step hs h, ThreadedPool.held_of_caller_none rfl h⟩
  · cases h
    exact ⟨hs, rfl⟩

/-- A thread reads the reply to what it has sent on a connection of its own. -/
theorem Ledger.reply (h : Ledger lost s) {q : Request} {con : Pair} {r : Option RedisReply}
    {k : q.Answer → Routine (Option Bytes)} (hq : s.threads t = some (.call q k))
    (hpool : readReply s.pool con r = some pool) (hmem : con ∈ owned)
    (howns : Owns (if forgets q r then owned.erase con else owned) p)
    (hacc : (pairsOf t s.pool.held).Perm (owned ++ pairsOf t lost)) :
    Advances lost ⟨pool, Function.update s.threads t p⟩ (Remembers s (.reply t r)) := by
  obtain ⟨hsound, hheld⟩ := readReply_spec hpool h.sound
  cases hf : forgets q r with
  | false =>
    refine .inl ⟨h.keep hsound hheld (by simpa [hf] using howns) hacc, fun q' k' hq' => ?_⟩
    rw [hq] at hq'
    cases hq'
    exact hf
  | true =>
    refine .inr ⟨_, h.forget hsound hheld hmem (by simpa [hf] using howns) hacc, fun hrem => ?_⟩
    simp [hrem q k hq] at hf

/-- A call for the connection of a slot. -/
theorem Ledger.getConnection (h : Ledger lost s) {key text : Bytes}
    {k : (Request.getConnection key).Answer → Routine (Option Bytes)} (hsound : Sound pool)
    (hg : ThreadedPool.Grants s.pool pool t (fun _ => True) True)
    (howns : Owns owned (some (.call (.getConnection key) k)))
    (hacc : (pairsOf t s.pool.held).Perm (owned ++ pairsOf t lost)) :
    Ledger lost ⟨pool, Function.update s.threads t
      (some (resume s.pool pool t text (.getConnection key) k))⟩ := by
  rcases hg with ⟨hheld, _⟩ | ⟨l, rfl, hheld, _⟩
  · refine h.keep hsound hheld ?_ hacc
    rw [resume, ThreadedPool.granted_of_held_eq hheld]
    cases pool.busy t with
    | false => exact howns.2 (.error .nodeSearch)
    | true => exact howns
  · refine h.take hsound hheld ?_ hacc
    rw [resume, ThreadedPool.granted_of_held_append hheld]
    exact howns.2 (.ok (l.key, l.conn))

/-- A call for the connection of a redirection. -/
theorem Ledger.createNewConnection (h : Ledger lost s) {host port text : Bytes}
    {k : (Request.createNewConnection host port).Answer → Routine (Option Bytes)}
    {a : ThreadedPool.Action τ} (hsound : Sound pool) (hbroken : pool.broken = s.pool.broken)
    (ht : a.caller = some t) (hg : ThreadedPool.Redirects s.pool pool t a)
    (hq : s.threads t = some (.call (.createNewConnection host port) k))
    (howns : Owns owned (some (.call (.createNewConnection host port) k)))
    (hacc : (pairsOf t s.pool.held).Perm (owned ++ pairsOf t lost)) :
    Advances lost ⟨pool, Function.update s.threads t
      (some (resume s.pool pool t text (.createNewConnection host port) k))⟩
      (Remembers s (.pool a text)) := by
  rcases hg with ⟨hheld, hfront⟩ | ⟨l, rfl, hheld, hfront⟩
  · refine .inl ⟨h.keep hsound hheld ?_ hacc, fun u _ _ _ c hu _ hc => ?_⟩
    · rw [resume, ThreadedPool.granted_of_held_eq hheld]
      cases pool.busy t with
      | false => exact howns.2 (.error (insertException port text))
      | true => exact howns
    · rw [hfront] at hc
      cases hc
  · by_cases hmem : l.conn ∈ pool.broken
    · refine .inr ⟨l, h.takeLost hsound hheld ?_ hacc, fun hrem => ?_⟩
      · rw [resume, ThreadedPool.granted_of_held_append hheld]
        simp only [hmem, if_true]
        exact howns.2 (.ok ((l.key, l.conn), some text))
      · rw [hbroken] at hmem
        rcases hfront with hfront | ⟨_, hnext⟩
        · exact hrem _ host port k _ ht hq hfront hmem
        · exact absurd (h.sound.known _ hmem) (hnext ▸ Nat.lt_irrefl _)
    · refine .inl ⟨h.take hsound hheld ?_ hacc, fun u _ _ _ c hu _ hc => ?_⟩
      · rw [resume, ThreadedPool.granted_of_held_append hheld]
        simp only [hmem, if_false]
        exact howns.2 (.ok ((l.key, l.conn), none))
      · rcases hfront with hfront | ⟨hfront, _⟩
        · obtain rfl : l.conn = c := Option.some.inj (hfront.symm.trans hc)
          exact hbroken ▸ hmem
        · rw [hfront] at hc
          cases hc

omit [DecidableEq τ] in
/-- Only a call for the connection of a redirection can forget one in the pool. -/
theorem remembers_pool {a : ThreadedPool.Action τ} {q : Request}
    {k : q.Answer → Routine (Option Bytes)} (text : Bytes) (ht : a.caller = some t)
    (hq : s.threads t = some (.call q k))
    (hne : ∀ host port, q ≠ .createNewConnection host port) : Remembers s (.pool a text) := by
  intro u host port k' c hu hq'
  rw [ht] at hu
  cases hu
  rw [hq] at hq'
  cases hq'
  exact absurd rfl (hne host port)

/-- The atomic sections of a call for the connection of a slot. -/
theorem grants_of_demands {a : ThreadedPool.Action τ} {pool₀ : ThreadedPool.State τ} {key : Bytes}
    (hstep : ThreadedPool.step pool₀ a = some pool) (ht : a.caller = some t)
    (hd : demands (.getConnection key) a = true) :
    ThreadedPool.Grants pool₀ pool t (fun _ => True) True := by
  cases a with
  | getConnection u i =>
    cases ht
    simp only [ThreadedPool.step, Option.ite_none_left_eq_some, Option.some.injEq] at hstep
    exact hstep.2 ▸ ThreadedPool.State.getConnection_grants ..
  | recheck p c =>
    cases ht
    rcases (ThreadedPool.recheck_redirects hstep).2 with ⟨hh, _⟩ | ⟨l, hl, hh, _⟩
    · exact .inl ⟨hh, trivial⟩
    · exact .inr ⟨l, hl, hh, trivial⟩
  | _ => cases hd

/-- The atomic sections of a call for the connection of a redirection. -/
theorem redirects_of_demands {a : ThreadedPool.Action τ} {pool₀ : ThreadedPool.State τ}
    {host port : Bytes} (hstep : ThreadedPool.step pool₀ a = some pool) (ht : a.caller = some t)
    (hd : demands (.createNewConnection host port) a = true) :
    pool.broken = pool₀.broken ∧ ThreadedPool.Redirects pool₀ pool t a := by
  cases a with
  | insert u host' port' connect =>
    cases ht
    simp only [ThreadedPool.step, Option.ite_none_left_eq_some, Option.some.injEq] at hstep
    exact hstep.2 ▸ ThreadedPool.State.insert_redirects ..
  | recheck p c =>
    cases ht
    exact ThreadedPool.recheck_redirects hstep
  | _ => cases hd

/-- A thread goes through an atomic section of the pool. -/
theorem Ledger.poolStep (h : Ledger lost s) {a : ThreadedPool.Action τ} {q : Request}
    {k : q.Answer → Routine (Option Bytes)} (text : Bytes)
    (hstep : ThreadedPool.step s.pool a = some pool) (ht : a.caller = some t)
    (hq : s.threads t = some (.call q k)) (hd : demands q a = true) :
    Advances lost ⟨pool, Function.update s.threads t (some (resume s.pool pool t text q k))⟩
      (Remembers s (.pool a text)) := by
  obtain ⟨owned, howns, hacc⟩ := h.accounts t
  rw [hq] at howns
  have hsound := sound_step h.sound hstep
  cases q with
  | getConnection key =>
    have hgrants := grants_of_demands hstep ht hd
    exact .inl ⟨h.getConnection hsound hgrants howns hacc, remembers_pool text ht hq (by simp)⟩
  | createNewConnection host port =>
    obtain ⟨hbroken, hg⟩ := redirects_of_demands hstep ht hd
    exact h.createNewConnection hsound hbroken ht hg hq howns hacc
  | releaseConnection con =>
    have hrem : Remembers s (.pool a text) := remembers_pool text ht hq (by simp)
    cases a with
    | release l =>
      cases ht
      obtain rfl : con = (l.key, l.conn) := by simpa [demands] using hd
      obtain ⟨hl, hheld⟩ := ThreadedPool.release_held hstep
      exact .inl ⟨h.put hsound hl hheld howns.1 (howns.2 ()) hacc, hrem⟩
    | _ => cases hd
  | processHiredisCommand site con format => cases a <;> cases hd
  | asking con => cases a <;> cases hd

/-- Every step of the server keeps the ledger, and forgets a pair exactly when it does not
remember it. -/
theorem Ledger.step (h : Ledger lost s) {e : Event τ} (hstep : serverStep s e = some s') :
    Advances lost s' (Remembers s e) := by
  cases serverStep_cases hstep with
  | @request t now path hq =>
    obtain ⟨owned, howns, hacc⟩ := h.accounts t
    rw [hq] at howns
    cases howns
    exact .inl ⟨h.keep h.sound rfl (Prog.Obeys.interpret (process_obeys · []) _) hacc, trivial⟩
  | signal hpool ht =>
    have hheld := ThreadedPool.held_of_caller_none ht hpool
    refine .inl ⟨⟨sound_step h.sound hpool, fun u => ?_⟩, fun u _ _ _ _ hu => ?_⟩
    · rw [hheld]
      exact h.accounts u
    · rw [ht] at hu
      cases hu
  | call hpool ht hq hd => exact h.poolStep _ hpool ht hq hd
  | @reply t r _ _ _ _ _ hq hpool =>
    obtain ⟨owned, howns, hacc⟩ := h.accounts t
    rw [hq] at howns
    exact h.reply hq hpool howns.1 (howns.2 r) hacc
  | @asked t r _ _ _ hq hpool =>
    obtain ⟨owned, howns, hacc⟩ := h.accounts t
    rw [hq] at howns
    exact h.reply hq hpool howns.1 (howns.2 r) hacc
  | @finish t _ hq =>
    obtain ⟨owned, howns, hacc⟩ := h.accounts t
    rw [hq] at howns
    exact .inl ⟨h.keep h.sound rfl howns hacc, trivial⟩

/-! ## Runs of the server -/

theorem ledger_initial : Ledger [] (serverInitial : Server τ) :=
  ⟨ThreadedPool.sound_initial, fun _ => ⟨[], rfl, .refl _⟩⟩

/-- A run has forgotten nothing exactly when every one of its steps remembered. -/
theorem ledger_of_run {es : List (Event τ)} (h : runFrom serverStep es serverInitial = some s) :
    ∃ lost, Ledger lost s ∧ (lost = [] ↔ Run serverStep Remembers serverInitial es s) := by
  induction es using List.reverseRecOn generalizing s with
  | nil =>
    cases h
    exact ⟨[], ledger_initial, iff_of_true rfl .nil⟩
  | append_singleton es e ih =>
    rw [runFrom_append, Option.bind_eq_some_iff] at h
    obtain ⟨m, hm, he⟩ := h
    simp only [runFrom, Option.bind_eq_some_iff, Option.some.injEq, exists_eq_right] at he
    obtain ⟨lost, hledger, hiff⟩ := ih hm
    have hsame : ∀ m', Run serverStep Remembers serverInitial es m' → m' = m := fun m' hm' =>
      Option.some.inj (hm'.runFrom_eq.symm.trans hm)
    rcases hledger.step he with ⟨hnext, hrem⟩ | ⟨l, hnext, hrem⟩
    · refine ⟨lost, hnext, ?_⟩
      rw [Run.snoc_iff, hiff]
      constructor
      · exact fun hrun => ⟨m, hrun, hrem, he⟩
      · rintro ⟨m', hrun, _, _⟩
        exact hsame m' hrun ▸ hrun
    · refine ⟨lost ++ [l], hnext, iff_of_false (by simp) fun hrun => ?_⟩
      obtain ⟨m', hrun, hrem', _⟩ := Run.snoc_iff.mp hrun
      exact hrem (hsame m' hrun ▸ hrem')

/-- The pool under the server moves by its own atomic sections only. -/
theorem serverStep_pool {e : Event τ} (h : serverStep s e = some s') :
    s'.pool = s.pool ∨ ∃ a, ThreadedPool.step s.pool a = some s'.pool ∧
      ((∃ text, e = .pool a text) ∨ ∃ c, a = .fail c) := by
  have hread {con : Pair} {r : Option RedisReply} {pool : ThreadedPool.State τ}
      (h : readReply s.pool con r = some pool) :
      pool = s.pool ∨ ∃ a, ThreadedPool.step s.pool a = some pool ∧
        ((∃ text, e = .pool a text) ∨ ∃ c, a = .fail c) := by
    unfold readReply at h
    split at h
    · exact .inr ⟨_, h, .inr ⟨_, rfl⟩⟩
    · cases h
      exact .inl rfl
  cases serverStep_cases h with
  | request | finish => exact .inl rfl
  | signal hpool | call hpool => exact .inr ⟨_, hpool, .inl ⟨_, rfl⟩⟩
  | reply _ hpool | asked _ hpool => exact hread hpool

/-- With distinct first slots every connection has a pool of its own to return to. -/
theorem typed_of_distinct {es : List (Event τ)}
    (h : Run serverStep DistinctSlots serverInitial es s) : Typed s.pool := by
  refine h.invariant (P := fun s => Typed s.pool) ThreadedPool.typed_initial
    fun s e s' hs hok hstep => ?_
  rcases serverStep_pool hstep with hsame | ⟨a, ha, hcase⟩
  · exact hsame ▸ hs
  · refine ThreadedPool.step_invariant (O := fun s key _ => s.lookup key = none)
      (R := fun _ _ => True) (fun _ _ => Typed.effect fun _ _ ho => ho) (fun key k ho => ?_)
      (fun _ _ => trivial) ha hs
    cases a with
    | insertSlots r connect =>
      obtain ⟨rfl, _⟩ := ho
      rcases hcase with ⟨text, rfl⟩ | ⟨c, hc⟩
      · simpa [ThreadedPool.State.lookup, List.find?_eq_none, DistinctSlots] using hok
      · cases hc
    | insert t host port connect => exact ho.2.1
    | getConnection | spurious | recheck | release | notify | fail => exact ho.elim

/-- Whenever no request is in progress, every connection that requests have taken is back in its
queue, exactly when no step of the run has forgotten the connection of a redirection. -/
theorem connections_returned_iff {es : List (Event τ)}
    (h : runFrom serverStep es serverInitial = some s) (hquiet : s.Quiet) :
    (s.pool.held = [] ∧
      (s.pool.pools.flatMap (·.pool.queue)).Perm (s.pool.created.map (·.2)) ∧
      (Run serverStep DistinctSlots serverInitial es s →
        ∀ e ∈ s.pool.created, Idle s.pool e.1 e.2)) ↔
      Run serverStep Remembers serverInitial es s := by
  obtain ⟨lost, hledger, hiff⟩ := ledger_of_run h
  have hpairs : ∀ t, (pairsOf t s.pool.held).Perm (pairsOf t lost) := by
    intro t
    obtain ⟨owned, howns, hacc⟩ := hledger.accounts t
    rw [hquiet t] at howns
    cases howns
    exact hacc
  rw [← hiff]
  constructor
  · rintro ⟨hheld, _, _⟩
    refine eq_nil_of_pairsOf fun t => ?_
    simpa [hheld, pairsOf] using hpairs t
  · rintro rfl
    have hheld : s.pool.held = [] := eq_nil_of_pairsOf fun t => by simpa [pairsOf] using hpairs t
    refine ⟨hheld, ?_, fun hrun e he => ?_⟩
    · simpa [hheld] using hledger.sound.perm
    · exact (typed_of_distinct hrun).idle hledger.sound.toConserved he (by simp [hheld])

/-- The slot of the key that the path below allocates from. -/
def sampleSlot : Nat := slotByKey (idName (ascii "us") (ascii "so"))

/-- A request whose first command is redirected, up to the connection to the other node. -/
def redirected (error : String) : List (Event Unit) :=
  [.pool (.insertSlots ⟨0, 16383⟩ fun _ => .ok) [], .request () [] (ascii "/flowNo/us/so"),
    .pool (.getConnection () sampleSlot) [], .reply () (some (.error (ascii error))),
    .pool (.release ⟨(), .slots ⟨0, 16383⟩, 0⟩) [],
    .pool (.notify 0 ⟨(), .slots ⟨0, 16383⟩⟩ none) [],
    .pool (.insert () (ascii "h") (ascii "6379") fun _ => .ok) []]

/-- A permanent redirection is followed, and the counter is read from the first node. -/
def movedRun : List (Event Unit) :=
  redirected "MOVED 5 h:6379" ++
    [.reply () (some (.integer 1)), .pool (.release ⟨(), .host (ascii "h:6379"), 10⟩) [],
      .pool (.notify 1 ⟨(), .host (ascii "h:6379")⟩ none) [],
      .pool (.getConnection () sampleSlot) [], .reply () (some (.string (ascii "1"))),
      .pool (.release ⟨(), .slots ⟨0, 16383⟩, 1⟩) [],
      .pool (.notify 0 ⟨(), .slots ⟨0, 16383⟩⟩ none) [], .finish ()]

/-- The criterion applied to that run. -/
theorem connections_returned_iff_moved :
    ∃ s : Server Unit, runFrom serverStep movedRun serverInitial = some s ∧ s.Quiet ∧
      ((s.pool.held = [] ∧
        (s.pool.pools.flatMap (·.pool.queue)).Perm (s.pool.created.map (·.2)) ∧
        (Run serverStep DistinctSlots serverInitial movedRun s →
          ∀ e ∈ s.pool.created, Idle s.pool e.1 e.2)) ↔
        Run serverStep Remembers serverInitial movedRun s) :=
  ⟨_, rfl, fun _ => rfl, connections_returned_iff rfl fun _ => rfl⟩

/-- A dropped connection at `ASKING` leaves the redirect connection out of its queue for ever. -/
theorem connection_leaked :
    ∃ s : Server Unit,
      runFrom serverStep (redirected "ASK 5 h:6379" ++ [.reply () none, .finish ()])
        serverInitial = some s ∧ s.Quiet ∧ s.pool.held = [⟨(), .host (ascii "h:6379"), 10⟩] := by
  exact ⟨_, rfl, fun _ => rfl, rfl⟩

end AsioCoroFrame.FlowNumber
