import AsioCoroFrame.Core.Run
import AsioCoroFrame.Models.Cluster.Process
import AsioCoroFrame.Models.FlowNumber.Handler
import AsioCoroFrame.Models.ThreadedPool.Grant
import Mathlib.Logic.Function.Basic

/-!
# Flow-number requests on the shared connection pool

Every thread of the server runs the handler of one request at a time, and each
command of the handler runs `HiredisCommand::process` on the one pool. A step
is an atomic section of the pool, a reply of Redis, or the beginning or end of
a request, so a run is any interleaving of any number of requests with any
behaviour of Redis. A `NULL` reply sets `err` on the connection it was read
from.
-/

namespace AsioCoroFrame.FlowNumber

open Cluster
open ThreadedPool (granted)

/-- `deal_with_flow_number` down to the pool and the connections. -/
def serve (now path : Bytes) : Routine (Option Bytes) :=
  (dealWithFlowNumber now path).interpret process

/-- The pool and the request each thread is working on. -/
structure Server (τ : Type) where
  pool : ThreadedPool.State τ
  threads : τ → Option (Routine (Option Bytes))

variable {τ : Type} [DecidableEq τ]

/-- Whether an atomic section belongs to the call a thread is in. -/
def demands : Request → ThreadedPool.Action τ → Bool
  | .getConnection key, .getConnection _ index => index = slotByKey key
  | .createNewConnection host port, .insert _ host' port' _ => host = host' ∧ port = port'
  | .getConnection _, .recheck .. => true
  | .createNewConnection .., .recheck .. => true
  | .releaseConnection con, .release l => con = (l.key, l.conn)
  | _, _ => false

/-- The exception of `insert(host, port)`, with the text of the failed connect. -/
def insertException (port text : Bytes) : ClusterException :=
  match stoi port with
  | .error e => .std e
  | .ok _ => .connectionFailed text

/-- The caller after its atomic section: it has its connection, waits for one, or the call has
raised. The text is the one of `strerror` or `errstr`. -/
def resume (s s' : ThreadedPool.State τ) (t : τ) (text : Bytes) :
    (q : Request) → (q.Answer → Routine (Option Bytes)) → Routine (Option Bytes)
  | .getConnection key, k =>
    match granted s s' with
    | some l => k (.ok (l.key, l.conn))
    | none => if s'.busy t then .call (.getConnection key) k else k (.error .nodeSearch)
  | .createNewConnection host port, k =>
    match granted s s' with
    | some l => k (.ok ((l.key, l.conn), if l.conn ∈ s'.broken then some text else none))
    | none =>
      if s'.busy t then .call (.createNewConnection host port) k
      else k (.error (insertException port text))
  | .releaseConnection _, k => k ()
  | q, k => .call q k

/-- What can happen on the server. -/
inductive Event (τ : Type) where
  /-- A thread accepts a flow-number request. -/
  | request (t : τ) (now path : Bytes)
  /-- An atomic section of the pool. -/
  | pool (a : ThreadedPool.Action τ) (text : Bytes)
  /-- The reply to the command a thread has sent. -/
  | reply (t : τ) (r : Option RedisReply)
  /-- A thread has answered its request. -/
  | finish (t : τ)

/-- Reading a reply from a connection. -/
def readReply (s : ThreadedPool.State τ) (con : Pair) (r : Option RedisReply) :
    Option (ThreadedPool.State τ) :=
  if r.isNone then ThreadedPool.step s (.fail con.2) else some s

/-- The server takes one step. A thread whose answer is undefined never finishes. -/
def serverStep (s : Server τ) : Event τ → Option (Server τ)
  | .request t now path =>
    match s.threads t with
    | none => some { s with threads := Function.update s.threads t (some (serve now path)) }
    | some _ => none
  | .pool a text => do
    let pool ← ThreadedPool.step s.pool a
    match a.caller with
    | none => return { s with pool := pool }
    | some t =>
      match s.threads t with
      | some (.call q k) =>
        if demands q a then
          return ⟨pool, Function.update s.threads t (some (resume s.pool pool t text q k))⟩
        else none
      | _ => none
  | .reply t r =>
    if s.pool.busy t then none
    else
      match s.threads t with
      | some (.call (.processHiredisCommand _ con _) k) =>
        (readReply s.pool con r).map (⟨·, Function.update s.threads t (some (k r))⟩)
      | some (.call (.asking con) k) =>
        (readReply s.pool con r).map (⟨·, Function.update s.threads t (some (k r))⟩)
      | _ => none
  | .finish t =>
    if s.pool.busy t then none
    else
      match s.threads t with
      | some (.done (some _)) => some { s with threads := Function.update s.threads t none }
      | _ => none

/-- What a step of the server can be, with the guards it has passed. -/
inductive ServerStep (s : Server τ) : Event τ → Server τ → Prop
  | request {t : τ} {now path : Bytes} (hidle : s.threads t = none) :
      ServerStep s (.request t now path)
        ⟨s.pool, Function.update s.threads t (some (serve now path))⟩
  | signal {a : ThreadedPool.Action τ} {text : Bytes} {pool : ThreadedPool.State τ}
      (hpool : ThreadedPool.step s.pool a = some pool) (hcaller : a.caller = none) :
      ServerStep s (.pool a text) ⟨pool, s.threads⟩
  | call {a : ThreadedPool.Action τ} {text : Bytes} {pool : ThreadedPool.State τ} {t : τ}
      {q : Request} {k : q.Answer → Routine (Option Bytes)}
      (hpool : ThreadedPool.step s.pool a = some pool) (hcaller : a.caller = some t)
      (hq : s.threads t = some (.call q k)) (hdemands : demands q a = true) :
      ServerStep s (.pool a text)
        ⟨pool, Function.update s.threads t (some (resume s.pool pool t text q k))⟩
  | reply {t : τ} {r : Option RedisReply} {pool : ThreadedPool.State τ} {site : Site} {con : Pair}
      {format : Bytes} {k : Option RedisReply → Routine (Option Bytes)}
      (hq : s.threads t = some (.call (.processHiredisCommand site con format) k))
      (hpool : readReply s.pool con r = some pool) :
      ServerStep s (.reply t r) ⟨pool, Function.update s.threads t (some (k r))⟩
  | asked {t : τ} {r : Option RedisReply} {pool : ThreadedPool.State τ} {con : Pair}
      {k : Option RedisReply → Routine (Option Bytes)}
      (hq : s.threads t = some (.call (.asking con) k))
      (hpool : readReply s.pool con r = some pool) :
      ServerStep s (.reply t r) ⟨pool, Function.update s.threads t (some (k r))⟩
  | finish {t : τ} {response : Bytes} (hq : s.threads t = some (.done (some response))) :
      ServerStep s (.finish t) ⟨s.pool, Function.update s.threads t none⟩

/-- Every step is one of these. -/
theorem serverStep_cases {s s' : Server τ} {e : Event τ} (h : serverStep s e = some s') :
    ServerStep s e s' := by
  cases e with
  | request t now path =>
    cases hq : s.threads t with
    | some p => simp [serverStep, hq] at h
    | none =>
      simp only [serverStep, hq, Option.some.injEq] at h
      exact h ▸ .request hq
  | pool a text =>
    simp only [serverStep, Option.bind_eq_bind, Option.bind_eq_some_iff] at h
    obtain ⟨pool, hpool, h⟩ := h
    cases ht : a.caller with
    | none =>
      simp only [ht, Option.pure_def, Option.some.injEq] at h
      exact h ▸ .signal hpool ht
    | some t =>
      simp only [ht] at h
      split at h
      · rename_i q k hq
        simp only [Option.ite_none_right_eq_some, Option.pure_def, Option.some.injEq] at h
        exact h.2 ▸ .call hpool ht hq h.1
      · cases h
  | reply t r =>
    simp only [serverStep, Option.ite_none_left_eq_some] at h
    obtain ⟨_, h⟩ := h
    split at h
    · rename_i site con format k hq
      obtain ⟨pool, hpool, rfl⟩ := Option.map_eq_some_iff.mp h
      exact .reply hq hpool
    · rename_i con k hq
      obtain ⟨pool, hpool, rfl⟩ := Option.map_eq_some_iff.mp h
      exact .asked hq hpool
    · cases h
  | finish t =>
    simp only [serverStep, Option.ite_none_left_eq_some] at h
    obtain ⟨_, h⟩ := h
    split at h
    · rename_i response hq
      cases h
      exact .finish hq
    · cases h

/-- The server before the pool is initialised. -/
def serverInitial : Server τ := ⟨ThreadedPool.initial, fun _ => none⟩

/-- No connection of a redirection is forgotten: the connection next in its queue has `err`
clear, `ASKING` gets a reply that is no error, and the command sent after it gets a reply that
reports no `CLUSTERDOWN`. -/
def Remembers (s : Server τ) : Event τ → Prop
  | .pool a _ => ∀ t host port k c, a.caller = some t →
    s.threads t = some (.call (.createNewConnection host port) k) → s.pool.front a = some c →
      c ∉ s.pool.broken
  | .reply t r => ∀ q k, s.threads t = some (.call q k) → forgets q r = false
  | _ => True

/-- The slot ranges of the cluster have distinct first slots. -/
def DistinctSlots (s : Server τ) : Event τ → Prop
  | .pool (.insertSlots r _) _ => ∀ n ∈ s.pool.nodes, n.1.first ≠ r.first
  | _ => True

/-- No request is in progress. -/
def Server.Quiet (s : Server τ) : Prop := ∀ t, s.threads t = none

end AsioCoroFrame.FlowNumber
