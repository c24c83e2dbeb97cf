import AsioCoroFrame.Core.Lists
import AsioCoroFrame.Core.Numeral
import AsioCoroFrame.Models.Cluster.Reply
import AsioCoroFrame.Models.ThreadedPool.ConPool

/-!
# The threaded connection pool

`ThreadedPool` keeps two maps of pools, by slot range and by `host:port`, under
one mutex. A step of the model is one atomic section between taking the mutex
and giving it up, so a run is any interleaving of any number of threads. The
pairs handed out and not yet released, and the log of connections that
`fillPool` has pushed, are kept beside the program's own data.
-/

namespace AsioCoroFrame.ThreadedPool

open Cluster

/-- `poolSize_`. -/
def poolSize : Nat := 10

/-- `Cluster::SlotRange`. -/
structure SlotRange where
  first : Nat
  second : Nat
  deriving DecidableEq, Repr

/-- `Cluster::Host`, in this container the text `host:port`. -/
abbrev Host := Bytes

/-- A `ConPool*`: the position of the pool in order of allocation. -/
abbrev Ptr := Nat

/-- What a pool is registered under in one of the two maps. -/
inductive PoolKey where
  | slots (r : SlotRange)
  | host (h : Host)
  deriving DecidableEq, Repr

/-- A thread inside a call, with the key its result will be paired with. -/
structure Call (τ : Type) where
  thread : τ
  key : PoolKey
  deriving DecidableEq, Repr

/-- An allocated pool, with what it was created for. -/
structure Cell (τ : Type) where
  owner : PoolKey
  pool : ConPool (Call τ)
  deriving DecidableEq, Repr

/-- A `SlotConnection` or `HostConnection` given to a thread and not yet released. -/
structure Lease (τ : Type) where
  thread : τ
  key : PoolKey
  conn : Conn
  deriving DecidableEq, Repr

/-- What `connect_` returns: `NULL`, a context with `err` set, or a healthy context. -/
inductive ConnectResult where
  | null
  | broken
  | ok
  deriving DecidableEq, Repr

/-- The pool object and the connections outside of it. -/
structure State (τ : Type) where
  /-- `nodes_`, ordered by the first slot. -/
  nodes : List (SlotRange × Ptr)
  /-- `connections_`, ordered by the key. -/
  connections : List (Host × Ptr)
  /-- Every pool allocated so far. -/
  pools : List (Cell τ)
  /-- The pairs handed out and not yet released. -/
  held : List (Lease τ)
  /-- Every connection pushed by `fillPool`, with the pool's key. -/
  created : List (PoolKey × Conn)
  /-- The identity of the next connection. -/
  next : Conn
  /-- The connections whose `err` is set. -/
  broken : List Conn
  deriving DecidableEq, Repr

variable {τ : Type} [DecidableEq τ]

/-- The constructed container, before any insertion. -/
def initial : State τ := ⟨[], [], [], [], [], 0, []⟩

/-- The key text `host + ":" + port`. -/
def hostKey (host port : Bytes) : Host := host ++ ascii ":" ++ port

/-- `nodes_[slots] = pool`: the comparator only reads the first slot, and an equivalent key
that is present stays in place. -/
def assignNode (r : SlotRange) (p : Ptr) (nodes : List (SlotRange × Ptr)) :
    List (SlotRange × Ptr) :=
  if nodes.any (fun n => n.1.first = r.first) then
    nodes.map fun n => if n.1.first = r.first then (n.1, p) else n
  else insertBefore (fun n => r.first < n.1.first) (r, p) nodes

/-- `connections_[key] = pool` for a key that is absent. -/
def assignHost (key : Host) (p : Ptr) (connections : List (Host × Ptr)) : List (Host × Ptr) :=
  insertBefore (fun n => key < n.1) (key, p) connections

/-- `searchBySlots`: the node before the lower bound of `index + 1`, if it covers the slot. -/
def searchBySlots (index : Nat) (nodes : List (SlotRange × Ptr)) :
    Except ClusterException (SlotRange × Ptr) :=
  match (nodes.takeWhile fun n => n.1.first < (index + 1) % 2 ^ 32).getLast? with
  | none => .error .nodeSearch
  | some n => if index < n.1.first ∨ n.1.second < index then .error .nodeSearch else .ok n

/-- The pool registered under a key, as `nodes_[..]` and `connections_[..]` find it. -/
def State.lookup (s : State τ) : PoolKey → Option Ptr
  | .slots r => (s.nodes.find? fun n => n.1.first = r.first).map (·.2)
  | .host h => (s.connections.find? fun n => n.1 = h).map (·.2)

/-- Register a new, empty pool. -/
def State.register (s : State τ) (key : PoolKey) : State τ :=
  let s' := { s with pools := s.pools ++ [(⟨key, .empty⟩ : Cell τ)] }
  match key with
  | .slots r => { s' with nodes := assignNode r s.pools.length s.nodes }
  | .host h => { s' with connections := assignHost h s.pools.length s.connections }

/-- Push one freshly connected context to a pool. -/
def State.stock (s : State τ) (p : Ptr) (key : PoolKey) : State τ :=
  { s with
    pools := s.pools.modify p fun P => ⟨P.owner, { P.pool with queue := P.pool.queue ++ [s.next] }⟩
    created := s.created ++ [(key, s.next)]
    next := s.next + 1 }

/-- `fillPool` with `n` connections still to make; the flag tells whether it returned. -/
def State.fillPool (s : State τ) (p : Ptr) (key : PoolKey) (connect : Nat → ConnectResult) :
    Nat → State τ × Bool
  | 0 => (s, true)
  | n + 1 =>
    match connect (poolSize - (n + 1)) with
    | .null | .broken => (s, false)
    | .ok => (s.stock p key).fillPool p key connect n

/-- `pullConnection` for a caller that will return the pair of `key` and the connection. -/
def State.pullConnection (s : State τ) (t : τ) (p : Ptr) (key : PoolKey) : State τ :=
  match s.pools[p]? with
  | none => s
  | some P =>
    match P.pool.pull ⟨t, key⟩ with
    | (pool, some c) =>
      { s with pools := s.pools.set p ⟨P.owner, pool⟩, held := s.held ++ [⟨t, key, c⟩] }
    | (pool, none) => { s with pools := s.pools.set p ⟨P.owner, pool⟩ }

/-- `insert(slots, host, port)`; an exception leaves what was done. -/
def State.insertSlots (s : State τ) (r : SlotRange) (connect : Nat → ConnectResult) : State τ :=
  ((s.register (.slots r)).fillPool s.pools.length (.slots r) connect poolSize).1

/-- `insert(host, port)`: a known node's pool is pulled from, a new one is filled first. -/
def State.insert (s : State τ) (t : τ) (host port : Bytes) (connect : Nat → ConnectResult) :
    State τ :=
  let key := hostKey host port
  match s.connections.find? fun n => n.1 = key with
  | some n => s.pullConnection t n.2 (.host key)
  | none =>
    match stoi port with
    | .error _ => s.register (.host key)
    | .ok _ =>
      match (s.register (.host key)).fillPool s.pools.length (.host key) connect poolSize with
      | (s', true) => s'.pullConnection t s.pools.length (.host key)
      | (s', false) => s'

/-- `getConnection(index)`; an exception leaves the pool unchanged. -/
def State.getConnection (s : State τ) (t : τ) (index : Nat) : State τ :=
  match searchBySlots index s.nodes with
  | .error _ => s
  | .ok n => s.pullConnection t n.2 (.slots n.1)

/-- `releaseConnection` of a pair, up to the unlock; a missing pool is undefined behaviour. -/
def State.releaseConnection (s : State τ) (l : Lease τ) : Option (State τ) := do
  let p ← s.lookup l.key
  let P ← s.pools[p]?
  return { s with
    pools := s.pools.set p ⟨P.owner, P.pool.push ⟨l.thread, l.key⟩ l.conn⟩
    held := s.held.erase l }

/-- A thread is inside a call: waiting, awakened or about to notify. -/
def State.busy (s : State τ) (t : τ) : Bool :=
  s.pools.any fun P => (P.pool.asleep ++ P.pool.awake ++ P.pool.notifying).any (·.thread = t)

/-- One atomic section, labelled by what the thread does. -/
inductive Action (τ : Type) where
  /-- `insert(slots, host, port)` during initialisation. -/
  | insertSlots (r : SlotRange) (connect : Nat → ConnectResult)
  | getConnection (t : τ) (index : Nat)
  | insert (t : τ) (host port : Bytes) (connect : Nat → ConnectResult)
  | spurious (p : Ptr) (c : Call τ)
  | recheck (p : Ptr) (c : Call τ)
  | release (l : Lease τ)
  | notify (p : Ptr) (c : Call τ) (woken : Option (Call τ))
  /-- A connection fails while a thread holds it. -/
  | fail (c : Conn)

/-- Change the pool behind a pointer. -/
def State.onPool (s : State τ) (p : Ptr) (f : ConPool (Call τ) → Option (ConPool (Call τ))) :
    Option (State τ) := do
  let P ← s.pools[p]?
  let pool ← f P.pool
  return { s with pools := s.pools.set p ⟨P.owner, pool⟩ }

/-- The atomic sections of all threads; a thread releases only pairs it was given. -/
def step (s : State τ) : Action τ → Option (State τ)
  | .insertSlots r connect => some (s.insertSlots r connect)
  | .getConnection t index => if s.busy t then none else some (s.getConnection t index)
  | .insert t host port connect => if s.busy t then none else some (s.insert t host port connect)
  | .spurious p c => s.onPool p (·.spurious c)
  | .recheck p c => do
    let P ← s.pools[p]?
    if c ∈ P.pool.awake then
      let s' := { s with
        pools := s.pools.set p ⟨P.owner, { P.pool with awake := P.pool.awake.erase c }⟩ }
      return s'.pullConnection c.thread p c.key
    else none
  | .release l => if l ∈ s.held ∧ ¬ s.busy l.thread then s.releaseConnection l else none
  | .notify p c woken => s.onPool p (·.notify c woken)
  | .fail c => if s.held.any (·.conn = c) then some { s with broken := s.broken ++ [c] } else none

end AsioCoroFrame.ThreadedPool
