import AsioCoroFrame.Core.Prog
import AsioCoroFrame.Models.Cluster.SlotHash
import AsioCoroFrame.Models.ThreadedPool.State

/-!
# One command on the cluster

`HiredisCommand::process` takes the connection of the key's slot, sends the
command, and follows at most one redirection on a connection of its own. It is
a program over the pool and the connections, so that each answer of Redis and
each wait for a connection is a question to the environment. The connections a
command owns are the ones it has taken and will still give back; an exception
raised while the redirect connection is out forgets it.
-/

namespace AsioCoroFrame.Cluster

open ThreadedPool (PoolKey Conn)

/-- A `SlotConnection` or a `HostConnection`. -/
abbrev Pair := PoolKey × Conn

/-- The three places where `process` sends the command. -/
inductive Site where
  | initial
  | asked
  | moved
  deriving DecidableEq, Repr

/-- What a command asks of the cluster object and of its connections. -/
inductive Request where
  | getConnection (key : Bytes)
  | createNewConnection (host port : Bytes)
  | releaseConnection (con : Pair)
  | processHiredisCommand (site : Site) (con : Pair) (format : Bytes)
  | asking (con : Pair)

/-- The answers. A connection for a redirect comes with `errstr` when its `err` is set; the pool
holds no `NULL` connection. A `NULL` reply is `none`. -/
@[reducible] def Request.Answer : Request → Type
  | .getConnection _ => Except ClusterException Pair
  | .createNewConnection .. => Except ClusterException (Pair × Option Bytes)
  | .releaseConnection _ => Unit
  | .processHiredisCommand .. => Option RedisReply
  | .asking _ => Option RedisReply

/-- A program over the pool and the connections. -/
abbrev Routine (R : Type) := Prog Request Request.Answer R

/-- `HiredisProcess::processState`. -/
inductive ProcessState where
  | moved
  | ask
  | clusterDown
  | ready
  | failed
  deriving DecidableEq, Repr

/-- `HiredisProcess::parsehostport`: the position after a missing separator wraps to zero, so the
test against `npos` never fails. -/
def parsehostport (error : Bytes) : Except ClusterException (Bytes × Bytes) :=
  let hostPosition := posAfter (findFrom sp (posAfter (findFrom sp 0 error)) error)
  let portPosition := posAfter (findFrom colon hostPosition error)
  match substr error hostPosition (sizeSub (sizeSub portPosition hostPosition) 1),
    substr error portPosition error.length with
  | .ok host, .ok port => .ok (host, port)
  | .error e, _ | _, .error e => .error (.std e)

/-- `HiredisProcess::processResult`, with the host and port of a redirection. -/
def processResult : RedisReply → Except ClusterException (ProcessState × Bytes × Bytes)
  | .error error =>
    if findSub (ascii "ASK") error = some 0 then (parsehostport error).map (.ask, ·)
    else if findSub (ascii "MOVED") error = some 0 then (parsehostport error).map (.moved, ·)
    else if findSub (ascii "CLUSTERDOWN") error = some 0 then .ok (.clusterDown, [], [])
    else .ok (.ready, [], [])
  | _ => .ok (.ready, [], [])

/-- `HiredisProcess::checkCritical`, which lets a usable reply through. -/
def checkCritical (reply : Option RedisReply) (errorcritical : Bool) (error : Bytes) :
    Except ClusterException RedisReply :=
  match reply with
  | none => .error .disconnected
  | some (.error str) =>
    if errorcritical then .error (.logicError error)
    else if (findSub (ascii "CLUSTERDOWN") (cString str)).isSome then .error .clusterDown
    else .ok (.error str)
  | some r => .ok r

/-- `process` after the `ASK` redirection has its connection. -/
def resolveAsk (format : Bytes) (hcon : Pair) : Option Bytes → Routine CommandResult
  | some errstr => .done (.error (.logicError errstr))
  | none => .call (.asking hcon) fun reply =>
    match checkCritical reply true (ascii "asking error") with
    | .error e => .done (.error e)
    | .ok _ => .call (.processHiredisCommand .asked hcon format) fun reply =>
      match checkCritical reply false [] with
      | .error e => .done (.error e)
      | .ok r => .call (.releaseConnection hcon) fun _ => .done (.ok (some r))

/-- `process` after the `MOVED` redirection has its connection. -/
def resolveMoved (format : Bytes) (hcon : Pair) : Option Bytes → Routine CommandResult
  | some errstr => .done (.error (.logicError errstr))
  | none => .call (.processHiredisCommand .moved hcon format) fun reply =>
    .call (.releaseConnection hcon) fun _ => .done (.ok reply)

/-- `createNewConnection` and what follows it. -/
def redirect (host port : Bytes) (resolve : Pair → Option Bytes → Routine CommandResult) :
    Routine CommandResult :=
  .call (.createNewConnection host port) fun
    | .error e => .done (.error e)
    | .ok (hcon, errstr) => resolve hcon errstr

/-- `process` after the initial connection has answered and has been given back. -/
def processReply (format : Bytes) (reply : Option RedisReply) : Routine CommandResult :=
  match checkCritical reply false [] with
  | .error e => .done (.error e)
  | .ok r =>
    match processResult r with
    | .error e => .done (.error e)
    | .ok (.ask, host, port) => redirect host port (resolveAsk format)
    | .ok (.moved, host, port) => redirect host port (resolveMoved format)
    | .ok (.ready, _) => .done (.ok (some r))
    | .ok (.clusterDown, _) | .ok (.failed, _) =>
      .done (.error (.logicError (ascii "error in state processing")))

/-- `HiredisCommand::process`. -/
def process (cmd : Command) : Routine CommandResult :=
  .call (.getConnection cmd.key) fun
    | .error e => .done (.error e)
    | .ok con => .call (.processHiredisCommand .initial con cmd.format) fun reply =>
      .call (.releaseConnection con) fun _ => processReply cmd.format reply

/-! ## The connections a command owns -/

/-- The replies on which `checkCritical` raises. -/
def critical (reply : Option RedisReply) (errorcritical : Bool) : Bool :=
  match reply with
  | none => true
  | some (.error str) => errorcritical || (findSub (ascii "CLUSTERDOWN") (cString str)).isSome
  | some _ => false

theorem checkCritical_of_critical {reply : Option RedisReply} {errorcritical : Bool}
    (h : critical reply errorcritical = true) (error : Bytes) :
    ∃ e, checkCritical reply errorcritical error = .error e := by
  rcases reply with _ | ⟨_ | _ | _ | _ | str | _⟩
  · exact ⟨_, rfl⟩
  all_goals simp_all [critical, checkCritical]
  cases errorcritical <;> simp_all

theorem checkCritical_of_not_critical {reply : Option RedisReply} {errorcritical : Bool}
    (h : critical reply errorcritical = false) (error : Bytes) :
    ∃ r, reply = some r ∧ checkCritical reply errorcritical error = .ok r := by
  rcases reply with _ | ⟨_ | _ | _ | _ | str | _⟩ <;> simp_all [critical, checkCritical]

/-- The replies after which the redirect connection is forgotten. -/
def forgets : Request → Option RedisReply → Bool
  | .asking _, reply => critical reply true
  | .processHiredisCommand .asked _ _, reply => critical reply false
  | _, _ => false

/-- Connections are owned from the moment they are handed out until they are given back or
forgotten; a redirect connection with `err` set is forgotten at once. -/
def ownership : Discipline Request Request.Answer (List Pair) where
  allowed
    | .releaseConnection con, owned => con ∈ owned
    | .processHiredisCommand _ con _, owned => con ∈ owned
    | .asking con, owned => con ∈ owned
    | _, _ => True
  after
    | .getConnection _, .ok con, owned => con :: owned
    | .createNewConnection .., .ok (con, none), owned => con :: owned
    | .releaseConnection con, _, owned => owned.erase con
    | .processHiredisCommand site con format, reply, owned =>
      if forgets (.processHiredisCommand site con format) reply then owned.erase con else owned
    | .asking con, reply, owned => if forgets (.asking con) reply then owned.erase con else owned
    | _, _, owned => owned

/-- A connection taken at the front of the owned ones is gone once it is given back. -/
theorem release_obeys {R : Type} {con : Pair} {owned : List Pair} {k : Unit → Routine R}
    {fin : List Pair → Prop} (hk : (k ()).Obeys ownership fin owned) :
    Prog.Obeys ownership fin (con :: owned) (.call (.releaseConnection con) k) := by
  refine ⟨List.mem_cons_self, fun _ => ?_⟩
  simpa [ownership] using hk

theorem resolveAsk_obeys (format : Bytes) (hcon : Pair) (owned : List Pair) :
    (resolveAsk format hcon none).Obeys ownership (· = owned) (hcon :: owned) := by
  refine ⟨List.mem_cons_self, fun reply => ?_⟩
  cases hask : critical reply true with
  | true =>
    obtain ⟨e, he⟩ := checkCritical_of_critical hask (ascii "asking error")
    simp [he, Prog.Obeys, ownership, forgets, hask]
  | false =>
    obtain ⟨_, _, hr⟩ := checkCritical_of_not_critical hask (ascii "asking error")
    simp only [hr, ownership, forgets, hask, Bool.false_eq_true, if_false]
    refine ⟨List.mem_cons_self, fun reply => ?_⟩
    cases hcrit : critical reply false with
    | true =>
      obtain ⟨e, he⟩ := checkCritical_of_critical hcrit []
      simp [he, Prog.Obeys, hcrit]
    | false =>
      obtain ⟨_, _, hr⟩ := checkCritical_of_not_critical hcrit []
      simp only [hr, hcrit, Bool.false_eq_true, if_false]
      exact release_obeys rfl

theorem resolveMoved_obeys (format : Bytes) (hcon : Pair) (owned : List Pair) :
    (resolveMoved format hcon none).Obeys ownership (· = owned) (hcon :: owned) := by
  refine ⟨List.mem_cons_self, fun reply => ?_⟩
  simp only [ownership, forgets, Bool.false_eq_true, if_false]
  exact release_obeys rfl

theorem redirect_obeys (host port : Bytes) {resolve : Pair → Option Bytes → Routine CommandResult}
    {owned : List Pair}
    (hbroken : ∀ hcon errstr, (resolve hcon (some errstr)).Obeys ownership (· = owned) owned)
    (hhealthy : ∀ hcon, (resolve hcon none).Obeys ownership (· = owned) (hcon :: owned)) :
    (redirect host port resolve).Obeys ownership (· = owned) owned := by
  refine ⟨trivial, fun answer => ?_⟩
  rcases answer with e | ⟨hcon, _ | errstr⟩
  · exact rfl
  · exact hhealthy hcon
  · exact hbroken hcon errstr

theorem processReply_obeys (format : Bytes) (reply : Option RedisReply) (owned : List Pair) :
    (processReply format reply).Obeys ownership (· = owned) owned := by
  unfold processReply
  split
  · exact rfl
  · split
    · exact rfl
    · exact redirect_obeys _ _ (fun _ _ => rfl) fun hcon => resolveAsk_obeys format hcon owned
    · exact redirect_obeys _ _ (fun _ _ => rfl) fun hcon => resolveMoved_obeys format hcon owned
    · exact rfl
    · exact rfl
    · exact rfl

/-- A command ends owning what it owned before, whatever it is answered. -/
theorem process_obeys (cmd : Command) (owned : List Pair) :
    (process cmd).Obeys ownership (· = owned) owned := by
  refine ⟨trivial, fun answer => ?_⟩
  rcases answer with e | con
  · exact rfl
  · refine ⟨List.mem_cons_self, fun reply => ?_⟩
    simp only [ownership, forgets, Bool.false_eq_true, if_false]
    exact release_obeys (processReply_obeys cmd.format reply owned)

end AsioCoroFrame.Cluster
