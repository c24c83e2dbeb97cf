import AsioCoroFrame.Core.Run
import AsioCoroFrame.Models.Cluster.Process

/-!
# An asynchronous command on the cluster

An `AsyncHiredisCommand` lives from its call until the callback of its user. In between
the event loop calls one of its two own callbacks for each reply, and each of these
sends something more or finishes the command. What the connections, the container and
the handler of the user answer is part of the event.
-/

namespace AsioCoroFrame.Cluster

/-! ## The code -/

/-- `Action`. -/
inductive AsyncAction where
  | redirect
  | finish
  | ask
  | retry
  deriving DecidableEq, Repr

/-- The exceptions that are raised in a callback. -/
inductive AsyncException where
  | cluster (e : ClusterException)
  | askingFailed
  | movedFailed
  deriving DecidableEq, Repr

/-- The callbacks registered with a connection. -/
inductive AsyncCallback where
  | processCommandReply
  | askingCallback
  deriving DecidableEq, Repr

/-- What the callback of the user is called with; `checkCritical` may have freed it. -/
structure Delivered where
  reply : Option RedisReply
  freed : Bool
  deriving DecidableEq, Repr

/-- What is answered during one event. -/
structure Surroundings (κ : Type) where
  /-- The result of `createNewConnection`. -/
  create : Except ClusterException κ
  /-- The command that follows a redirection is accepted by its connection. -/
  send : Bool
  /-- So is the command that `retry` sends. -/
  resend : Bool
  /-- What `userErrorCb_` returns, if it is set. -/
  userError : Option AsyncAction
  /-- The connection is in subscribed mode and keeps the callback registered. -/
  subscribed : Bool

/-- An `AsyncHiredisCommand` and what has happened to it. -/
structure AsyncCommand (κ : Type) where
  /-- `con_`. -/
  con : Option κ
  /-- The callbacks that are registered, with their connections. -/
  pending : List (AsyncCallback × κ)
  /-- The connections on which the command or `ASKING` has been sent. -/
  sent : List κ
  /-- The calls of `cluster_p_->moved()`. -/
  moved : Nat
  /-- The exceptions raised in callbacks, and the state they are reported with. -/
  raised : List (AsyncException × ProcessState)
  /-- The calls of `userCallback_p_`. -/
  userCalls : List Delivered
  /-- The connections disconnected by the destructor. -/
  disconnected : List κ
  deleted : Bool
  /-- An exception that is none of the library leaves the callback. -/
  escaped : Option StdException
  /-- A null connection or handler, or a deleted command, has been used. -/
  crashed : Bool

variable {κ : Type}

/-- `redisAsyncCommand` or `redisAsyncFormattedCommand`, which registers the callback if the
connection accepts the command. -/
def AsyncCommand.register (s : AsyncCommand κ) (callback : AsyncCallback) (ok : Bool) :
    Option κ → AsyncCommand κ × Bool
  | none => ({ s with crashed := true }, false)
  | some k =>
    if ok then ({ s with pending := s.pending ++ [(callback, k)], sent := s.sent ++ [k] }, true)
    else (s, false)

/-- The destructor. -/
def AsyncCommand.delete (s : AsyncCommand κ) : AsyncCommand κ :=
  { s with deleted := true, disconnected := s.disconnected ++ s.con.toList }

/-- The end of both callbacks for `FINISH`. -/
def AsyncCommand.finish (s : AsyncCommand κ) (subscribed : Bool) (r : Delivered) :
    AsyncCommand κ :=
  let s := { s with userCalls := s.userCalls ++ [r] }
  if subscribed then s else s.delete

/-- `retry`, which uses the handler of the user without a test. -/
def AsyncCommand.retry (s : AsyncCommand κ) (con : κ) (r : Delivered) (env : Surroundings κ) :
    AsyncCommand κ :=
  match s.register .processCommandReply env.resend (some con) with
  | (s, true) => s
  | (s, false) =>
    ({ s with
      raised := s.raised ++ [(.cluster .disconnected, .failed)]
      crashed := s.crashed || env.userError.isNone
      userCalls := s.userCalls ++ [r] } : AsyncCommand κ).delete

/-- `checkCritical` frees a reply that it takes for critical. -/
def criticalFreed (r : Option RedisReply) : Bool :=
  match r with
  | some (.error str) => (findSub (ascii "CLUSTERDOWN") (cString str)).isSome
  | _ => false

/-- The `catch` clause of both callbacks and what follows it. -/
def AsyncCommand.caught (s : AsyncCommand κ) (con : κ) (r : Option RedisReply)
    (env : Surroundings κ) (state : ProcessState) : AsyncException → AsyncCommand κ
  | .cluster (.std e) => { s with escaped := some e }
  | e =>
    let s := { s with raised := s.raised ++ [(e, state)] }
    if env.userError = some .retry then s.retry con ⟨r, criticalFreed r⟩ env
    else s.finish env.subscribed ⟨r, criticalFreed r⟩

/-- `con_`, which is created for the first redirection only. -/
def AsyncCommand.redirectConnection (s : AsyncCommand κ) (env : Surroundings κ) :
    Except ClusterException (AsyncCommand κ) :=
  match s.con with
  | some _ => .ok s
  | none => env.create.map fun k => { s with con := some k }

/-- `processCommandReply`. -/
def AsyncCommand.processCommandReply (s : AsyncCommand κ) (con : κ) (r : Option RedisReply)
    (env : Surroundings κ) : AsyncCommand κ :=
  match checkCritical r false [] with
  | .error e => s.caught con r env .failed (.cluster e)
  | .ok reply =>
    match processResult reply with
    | .error e => s.caught con r env .failed (.cluster e)
    | .ok (.ask, _, _) =>
      match s.redirectConnection env with
      | .error e => s.caught con r env .ask (.cluster e)
      | .ok s =>
        match s.register .askingCallback env.send s.con with
        | (s, true) => s
        | (s, false) => s.caught con r env .ask .askingFailed
    | .ok (.moved, _, _) =>
      let s := { s with moved := s.moved + 1 }
      match s.redirectConnection env with
      | .error e => s.caught con r env .moved (.cluster e)
      | .ok s =>
        match s.register .processCommandReply env.send s.con with
        | (s, true) => s
        | (s, false) => s.caught con r env .moved .movedFailed
    | .ok (.ready, _, _) => s.finish env.subscribed ⟨r, criticalFreed r⟩
    | .ok (.clusterDown, _, _) => s.caught con r env .clusterDown (.cluster .clusterDown)
    | .ok (.failed, _, _) =>
      s.caught con r env .failed (.cluster (.logicError (ascii "cluster logic error")))

/-- `askingCallback`. -/
def AsyncCommand.askingCallback (s : AsyncCommand κ) (con : κ) (r : Option RedisReply)
    (env : Surroundings κ) : AsyncCommand κ :=
  match checkCritical r false [] with
  | .error e => s.caught con r env .ask (.cluster e)
  | .ok reply =>
    match reply with
    | .status str =>
      if cString str = ascii "OK" then
        match s.register .processCommandReply env.send s.con with
        | (s, true) => s
        | (s, false) => s.caught con r env .ask .askingFailed
      else s.caught con r env .ask .askingFailed
    | _ => s.caught con r env .ask .askingFailed

/-- `Command`: the connection of the key's slot, and whether it accepts the command. An exception of
the cluster object leaves the command behind. -/
def AsyncCommand.command (con : Except ClusterException κ) (ok : Bool) :
    AsyncCommand κ × Except ClusterException Unit :=
  let s : AsyncCommand κ := ⟨none, [], [], 0, [], [], [], false, none, false⟩
  match con with
  | .error e => (s, .error e)
  | .ok k =>
    match s.register .processCommandReply ok (some k) with
    | (s, true) => (s, .ok ())
    | (s, false) => (s.delete, .error .disconnected)

/-- The event loop calls the `i`-th registered callback with a reply. -/
structure AsyncEvent (κ : Type) where
  i : Nat
  reply : Option RedisReply
  env : Surroundings κ

/-- One event. -/
def AsyncCommand.step (s : AsyncCommand κ) (event : AsyncEvent κ) : Option (AsyncCommand κ) :=
  if s.escaped.isSome then none
  else
    (s.pending[event.i]?).map fun (callback, con) =>
      let s := { s with
        pending := if event.env.subscribed then s.pending else s.pending.eraseIdx event.i
        crashed := s.crashed || s.deleted }
      match callback with
      | .processCommandReply => s.processCommandReply con event.reply event.env
      | .askingCallback => s.askingCallback con event.reply event.env

/-! ## The life of a command -/

/-- A reply that is not critical is there. -/
theorem checkCritical_ok {r : Option RedisReply} {errorcritical : Bool} {error : Bytes}
    {reply : RedisReply} (h : checkCritical r errorcritical error = .ok reply) :
    r = some reply := by
  unfold checkCritical at h
  split at h
  · cases h
  · split at h
    · cases h
    · split at h
      · cases h
      · cases h
        rfl
  · cases h
    rfl

/-- The reply is a final answer. -/
def RedisReply.Final (r : RedisReply) : Prop :=
  ∃ host port, processResult r = .ok (.ready, host, port)

/-- A command in the hands of one of its callbacks: it is not registered, and it has used no
connections but the first one and its own. -/
structure AsyncCommand.Held (first : κ) (s : AsyncCommand κ) : Prop where
  pending : s.pending = []
  userCalls : s.userCalls = []
  disconnected : s.disconnected = []
  deleted : s.deleted = false
  escaped : s.escaped = none
  crashed : s.crashed = false
  sent : ∀ k ∈ s.sent, k = first ∨ s.con = some k

/-- A command that waits: one callback is registered. -/
structure AsyncCommand.Waiting (first : κ) (s : AsyncCommand κ) : Prop where
  held : ({ s with pending := [] } : AsyncCommand κ).Held first
  pending : ∃ callback k, s.pending = [(callback, k)] ∧ (k = first ∨ s.con = some k) ∧
    (callback = .askingCallback → s.con ≠ none)

/-- A command that is done: the user has been called once and the command is deleted, its own
connection with it. -/
structure AsyncCommand.Done (first : κ) (s : AsyncCommand κ) : Prop where
  pending : s.pending = []
  userCalls : ∃ r, s.userCalls = [⟨r, criticalFreed r⟩] ∧
    (s.raised = [] → ∃ reply, r = some reply ∧ reply.Final)
  disconnected : s.disconnected = s.con.toList
  deleted : s.deleted = true
  escaped : s.escaped = none
  crashed : s.crashed = false
  sent : ∀ k ∈ s.sent, k = first ∨ s.con = some k

/-- A command that an exception has stopped for good. -/
structure AsyncCommand.Escaped (first : κ) (s : AsyncCommand κ) : Prop where
  escaped : s.escaped ≠ none
  held : ({ s with escaped := none } : AsyncCommand κ).Held first

/-- What every state of a command satisfies. -/
def AsyncCommand.Inv (first : κ) (s : AsyncCommand κ) : Prop :=
  s.Waiting first ∨ s.Done first ∨ s.Escaped first

variable {first con : κ} {s s' : AsyncCommand κ} {env : Surroundings κ} {r : Option RedisReply}

theorem AsyncCommand.Held.register (h : s.Held first) {callback : AsyncCallback} {k : κ}
    (hk : k = first ∨ s.con = some k) (hcon : callback = .askingCallback → s.con ≠ none) :
    (s.register callback true (some k)).1.Waiting first where
  held := by
    refine ⟨rfl, h.userCalls, h.disconnected, h.deleted, h.escaped, h.crashed, fun k' hk' => ?_⟩
    rcases List.mem_append.mp hk' with hk' | hk'
    · exact h.sent k' hk'
    · obtain rfl := List.mem_singleton.mp hk'
      exact hk
  pending := by
    refine ⟨callback, k, ?_, hk, hcon⟩
    change s.pending ++ [(callback, k)] = _
    rw [h.pending]
    rfl

theorem AsyncCommand.Held.finish (h : s.Held first)
    (hr : s.raised = [] → ∃ reply, r = some reply ∧ reply.Final) :
    (s.finish false ⟨r, criticalFreed r⟩).Done first where
  pending := h.pending
  userCalls := by
    refine ⟨r, ?_, hr⟩
    change s.userCalls ++ [_] = _
    rw [h.userCalls]
    rfl
  disconnected := by
    change s.disconnected ++ s.con.toList = s.con.toList
    rw [h.disconnected]
    rfl
  deleted := rfl
  escaped := h.escaped
  crashed := h.crashed
  sent := h.sent

theorem AsyncCommand.Held.retry (h : s.Held first) (hcon : con = first ∨ s.con = some con)
    (henv : env.userError ≠ none) :
    (s.retry con ⟨r, criticalFreed r⟩ env).Inv first := by
  rw [AsyncCommand.retry]
  cases env.resend with
  | true => exact .inl (h.register hcon (by simp))
  | false =>
    refine .inr (.inl ⟨h.pending, ⟨r, ?_, fun hnil => ?_⟩, ?_, rfl, h.escaped, ?_, h.sent⟩)
    · change s.userCalls ++ [_] = _
      rw [h.userCalls]
      rfl
    · change s.raised ++ [_] = [] at hnil
      simp at hnil
    · change s.disconnected ++ s.con.toList = s.con.toList
      rw [h.disconnected]
      rfl
    · change (s.crashed || env.userError.isNone) = false
      simpa [h.crashed, Option.isSome_iff_ne_none] using henv

theorem AsyncCommand.Held.caught (h : s.Held first) (hcon : con = first ∨ s.con = some con)
    (hsub : env.subscribed = false) (state : ProcessState) (e : AsyncException) :
    (s.caught con r env state e).Inv first := by
  have hheld (e : AsyncException) :
      ({ s with raised := s.raised ++ [(e, state)] } : AsyncCommand κ).Held first :=
    ⟨h.pending, h.userCalls, h.disconnected, h.deleted, h.escaped, h.crashed, h.sent⟩
  unfold AsyncCommand.caught
  split
  · rename_i e
    refine .inr (.inr ⟨by simp, ?_⟩)
    exact ⟨h.pending, h.userCalls, h.disconnected, h.deleted, rfl, h.crashed, h.sent⟩
  · dsimp only
    split
    · rename_i henv
      exact (hheld _).retry hcon (by simp [henv])
    · rw [hsub]
      exact .inr (.inl ((hheld _).finish (by simp)))

/-- The redirect connection is there afterwards, and it never changes. -/
theorem AsyncCommand.Held.redirectConnection (h : s.Held first)
    (hs : s.redirectConnection env = .ok s') :
    s'.Held first ∧ s'.con ≠ none ∧ ∀ k, s.con = some k → s'.con = some k := by
  unfold AsyncCommand.redirectConnection at hs
  split at hs
  · rename_i k hk
    cases hs
    exact ⟨h, by simp [hk], fun _ hk => hk⟩
  · rename_i hnone
    cases hcreate : env.create with
    | error e =>
      rw [hcreate] at hs
      cases hs
    | ok k =>
      rw [hcreate] at hs
      cases hs
      refine ⟨⟨h.pending, h.userCalls, h.disconnected, h.deleted, h.escaped, h.crashed, ?_⟩,
        by simp, fun _ hk => by simp [hnone] at hk⟩
      intro k' hk'
      exact (h.sent k' hk').imp_right fun hk' => by simp [hnone] at hk'

theorem AsyncCommand.Held.processCommandReply (h : s.Held first)
    (hcon : con = first ∨ s.con = some con) (hsub : env.subscribed = false) :
    (s.processCommandReply con r env).Inv first := by
  have hmoved : ({ s with moved := s.moved + 1 } : AsyncCommand κ).Held first :=
    ⟨h.pending, h.userCalls, h.disconnected, h.deleted, h.escaped, h.crashed, h.sent⟩
  unfold AsyncCommand.processCommandReply
  split
  · exact h.caught hcon hsub _ _
  · rename_i reply hcheck
    split
    · exact h.caught hcon hsub _ _
    · split
      · exact h.caught hcon hsub _ _
      · rename_i s' hs'
        obtain ⟨h', hown, hkeep⟩ := h.redirectConnection hs'
        obtain ⟨k, hk⟩ := Option.ne_none_iff_exists'.mp hown
        rw [hk]
        cases env.send with
        | true => exact .inl (h'.register (.inr hk) fun _ => hown)
        | false => exact h'.caught (hcon.imp_right (hkeep con)) hsub _ _
    · dsimp only
      split
      · exact hmoved.caught hcon hsub _ _
      · rename_i s' hs'
        obtain ⟨h', hown, hkeep⟩ := hmoved.redirectConnection hs'
        obtain ⟨k, hk⟩ := Option.ne_none_iff_exists'.mp hown
        rw [hk]
        cases env.send with
        | true => exact .inl (h'.register (.inr hk) (by simp))
        | false => exact h'.caught (hcon.imp_right (hkeep con)) hsub _ _
    · rename_i host port hready
      rw [hsub]
      refine .inr (.inl (h.finish fun _ => ⟨reply, checkCritical_ok hcheck, host, port, hready⟩))
    · exact h.caught hcon hsub _ _
    · exact h.caught hcon hsub _ _

theorem AsyncCommand.Held.askingCallback (h : s.Held first)
    (hcon : con = first ∨ s.con = some con) (hown : s.con ≠ none)
    (hsub : env.subscribed = false) : (s.askingCallback con r env).Inv first := by
  have hask : (match s.register .processCommandReply env.send s.con with
      | (s, true) => s
      | (s, false) => s.caught con r env .ask .askingFailed).Inv first := by
    obtain ⟨k, hk⟩ := Option.ne_none_iff_exists'.mp hown
    rw [hk]
    cases env.send with
    | true => exact .inl (h.register (.inr hk) (by simp))
    | false => exact h.caught hcon hsub _ _
  unfold AsyncCommand.askingCallback
  split
  · exact h.caught hcon hsub _ _
  · split
    · split
      · exact hask
      · exact h.caught hcon hsub _ _
    · exact h.caught hcon hsub _ _

theorem AsyncCommand.Inv.step {event : AsyncEvent κ} (h : s.Inv first)
    (hsub : event.env.subscribed = false) (hs : s.step event = some s') : s'.Inv first := by
  unfold AsyncCommand.step at hs
  split at hs
  · cases hs
  · rename_i hescaped
    obtain ⟨⟨callback, con⟩, hget, rfl⟩ := Option.map_eq_some_iff.mp hs
    rcases h with h | h | h
    · obtain ⟨cb, k, hpending, hk, hcon⟩ := h.pending
      have hi : event.i = 0 := by
        have := (List.getElem?_eq_some_iff.mp hget).1
        rw [hpending, List.length_singleton] at this
        omega
      rw [hi, hpending] at hget
      obtain ⟨rfl, rfl⟩ := Prod.mk.inj (Option.some.inj hget)
      have hheld : ({ s with
          pending := if event.env.subscribed then s.pending else s.pending.eraseIdx event.i
          crashed := s.crashed || s.deleted } : AsyncCommand κ).Held first := by
        have hcrashed : s.crashed = false := h.held.crashed
        have hdeleted : s.deleted = false := h.held.deleted
        refine ⟨?_, h.held.userCalls, h.held.disconnected, hdeleted, h.held.escaped, ?_,
          h.held.sent⟩
        · simp [hsub, hi, hpending]
        · simp [hcrashed, hdeleted]
      cases cb with
      | processCommandReply => exact hheld.processCommandReply hk hsub
      | askingCallback => exact hheld.askingCallback hk (hcon rfl) hsub
    · rw [h.pending] at hget
      cases hget
    · exact absurd (Option.isSome_iff_ne_none.mpr h.escaped) hescaped

/-- A command that its connection has accepted waits for the reply. -/
theorem AsyncCommand.command_waiting {k : κ} {ok : Bool}
    (h : command (.ok k) ok = (s, .ok ())) : s.Waiting k := by
  have hheld : (⟨none, [], [], 0, [], [], [], false, none, false⟩ : AsyncCommand κ).Held k :=
    ⟨rfl, rfl, rfl, rfl, rfl, rfl, by simp⟩
  cases ok with
  | true =>
    cases h
    exact hheld.register (.inl rfl) (by simp)
  | false => cases h

/-- A reply that moves the command, and the answer of the node it has been moved to. -/
def movedEvents : List (AsyncEvent Nat) :=
  [⟨0, some (.error (ascii "MOVED 7 h:1")), ⟨.ok 5, true, true, none, false⟩⟩,
    ⟨0, some (.string (ascii "v")), ⟨.ok 6, true, true, none, false⟩⟩]

end AsioCoroFrame.Cluster
