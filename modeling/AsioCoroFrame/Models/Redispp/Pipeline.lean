import AsioCoroFrame.Models.Redispp.Command
import Mathlib.Logic.Function.Basic
import Mathlib.Tactic.SplitIfs

/-!
# Reply objects and the list of outstanding replies

A command returns an object that stands for its reply. The objects of one
connection form an intrusive list in the order of their commands; asking one
for its result first reads every reply in front of it. An object is named by
the order of its construction.
-/

namespace AsioCoroFrame.Redispp

/-! ## Reply objects -/

/-- The reply classes with one stored result. -/
inductive Kind where
  /-- `VoidReply`. -/
  | void
  /-- `BoolReply`. -/
  | bool
  /-- `IntReply`. -/
  | int
  /-- `StringReply`. -/
  | string
  deriving DecidableEq, Repr

/-- A `storedResult`. -/
inductive Value where
  | bool (b : Bool)
  | int (i : Int)
  | string (s : Option Bytes)
  deriving DecidableEq, Repr

/-- The `storedResult` of an object that has read nothing. -/
def Kind.default : Kind → Value
  | .void | .bool => .bool false
  | .int => .int 0
  | .string => .string none

/-- The read inside of `result()`. -/
def Kind.read (k : Kind) (s : Stream) : Outcome Value :=
  match k with
  | .void =>
    match readStatusCodeReply s with
    | (.error e, s) => (.error e, s)
    | (.ok _, s) => (.ok (.bool true), s)
  | .bool =>
    match readIntegerReply s with
    | (.error e, s) => (.error e, s)
    | (.ok i, s) => (.ok (.bool (0 < i)), s)
  | .int =>
    match readIntegerReply s with
    | (.error e, s) => (.error e, s)
    | (.ok i, s) => (.ok (.int i), s)
  | .string =>
    match readBulkReply s with
    | (.error e, s) => (.error e, s)
    | (.ok b, s) => (.ok (.string b), s)

/-- `enum TransactionState`. -/
inductive TransactionState where
  | blank
  | dirty
  | aborted
  | committed
  deriving DecidableEq, Repr

/-- The members of the reply classes besides `conn`. -/
inductive Body where
  /-- A destroyed object, or one that is not constructed yet. -/
  | gone
  | single (kind : Kind) (storedResult : Value)
  /-- `MultiBulkEnumerator`. -/
  | multi (headerDone : Bool) (count : Int) (pending : List (Option Bytes))
  /-- `QueuedReply`. -/
  | queued (count : Nat) (state : TransactionState)
  deriving DecidableEq, Repr

/-- `BaseReply`: whether `conn` is set, and the members of the derived class. -/
structure BaseReply where
  conn : Bool
  body : Body
  deriving DecidableEq, Repr

/-- `Connection`, with the objects constructed on it and the bytes it has sent. -/
structure Connection where
  /-- `*ioStream`. -/
  stream : Stream
  buffer : Buffer
  outstandingReplies : List Nat
  /-- Every reply object, by the order of construction. -/
  objects : Nat → BaseReply
  /-- The number of objects constructed. -/
  constructed : Nat
  /-- The `replies` member of the open transaction. -/
  transaction : Option Nat
  /-- What went out over the socket. -/
  sent : Bytes

/-- A connection after its construction without a password. -/
def Connection.new (bufferSize : Nat) : Connection :=
  ⟨⟨[], false⟩, .new bufferSize, [], fun _ => ⟨false, .gone⟩, 0, none, []⟩

/-- Assign to the members of an object. -/
def Connection.put (c : Connection) (id : Nat) (o : BaseReply) : Connection :=
  { c with objects := Function.update c.objects id o }

/-- `unlink()`. -/
def Connection.unlink (c : Connection) (id : Nat) : Connection :=
  { c with outstandingReplies := c.outstandingReplies.filter (· ≠ id) }

/-- The stream after a read. -/
def Connection.withStream (c : Connection) (s : Stream) : Connection := { c with stream := s }

section Fields

variable (c : Connection) (id : Nat) (o : BaseReply) (s : Stream)

@[simp] theorem Connection.put_objects :
    (c.put id o).objects = Function.update c.objects id o := rfl

@[simp] theorem Connection.put_stream : (c.put id o).stream = c.stream := rfl

@[simp] theorem Connection.put_outstandingReplies :
    (c.put id o).outstandingReplies = c.outstandingReplies := rfl

@[simp] theorem Connection.put_constructed : (c.put id o).constructed = c.constructed := rfl

@[simp] theorem Connection.put_transaction : (c.put id o).transaction = c.transaction := rfl

@[simp] theorem Connection.unlink_objects : (c.unlink id).objects = c.objects := rfl

@[simp] theorem Connection.unlink_stream : (c.unlink id).stream = c.stream := rfl

@[simp] theorem Connection.unlink_outstandingReplies :
    (c.unlink id).outstandingReplies = c.outstandingReplies.filter (· ≠ id) := rfl

@[simp] theorem Connection.unlink_constructed :
    (c.unlink id).constructed = c.constructed := rfl

@[simp] theorem Connection.unlink_transaction :
    (c.unlink id).transaction = c.transaction := rfl

@[simp] theorem Connection.withStream_objects : (c.withStream s).objects = c.objects := rfl

@[simp] theorem Connection.withStream_stream : (c.withStream s).stream = s := rfl

@[simp] theorem Connection.withStream_outstandingReplies :
    (c.withStream s).outstandingReplies = c.outstandingReplies := rfl

@[simp] theorem Connection.withStream_constructed :
    (c.withStream s).constructed = c.constructed := rfl

@[simp] theorem Connection.withStream_transaction :
    (c.withStream s).transaction = c.transaction := rfl

end Fields

/-! ## Reading one object -/

/-- `result()` after `clearPendingResults()`: `conn` is given up before the read, the link only
after it. -/
def Connection.readSingle (c : Connection) (id : Nat) (k : Kind) (stored : Value) :
    Except Exception Unit × Connection :=
  match k.read c.stream with
  | (.error e, s) => (.error e, (c.withStream s).put id ⟨false, .single k stored⟩)
  | (.ok v, s) => (.ok (), ((c.withStream s).put id ⟨false, .single k v⟩).unlink id)

/-- The end of `nextOptional`, where the header has been read. -/
def Connection.nextElement (c : Connection) (id : Nat) (count : Int) :
    Except Exception (Option (Option Bytes)) × Connection :=
  if count ≤ 0 then (.ok none, (c.put id ⟨false, .multi true count []⟩).unlink id)
  else
    match readBulkReply c.stream with
    | (.error e, s) => (.error e, (c.withStream s).put id ⟨true, .multi true (count - 1) []⟩)
    | (.ok out, s) => (.ok (some out), (c.withStream s).put id ⟨true, .multi true (count - 1) []⟩)

/-- The header of an enumerator and its first element. -/
def Connection.readHeader (c : Connection) (id : Nat) (old : Int) :
    Except Exception (Option (Option Bytes)) × Connection :=
  match readBulkHeader 42 old c.stream with
  | (.error e, count, s) => (.error e, (c.withStream s).put id ⟨true, .multi true count []⟩)
  | (.ok (), count, s) =>
    if count < 0 then
      (.error (.runtime (ascii "multi bulk reply: -1")),
        (c.withStream s).put id ⟨true, .multi true count []⟩)
    else ((c.withStream s).put id ⟨true, .multi true count []⟩).nextElement id count

/-- `MultiBulkEnumerator::nextOptional`, given its `clearPendingResults()`. -/
def Connection.nextOptional (clear : Connection → Except Exception Unit × Connection) (id : Nat)
    (c : Connection) : Except Exception (Option (Option Bytes)) × Connection :=
  match c.objects id with
  | ⟨conn, .multi headerDone count (x :: pending)⟩ =>
    (.ok (some x), c.put id ⟨conn, .multi headerDone count pending⟩)
  | ⟨true, .multi true count []⟩ => c.nextElement id count
  | ⟨true, .multi false old []⟩ =>
    match clear c with
    | (.error e, c) => (.error e, c)
    | (.ok (), c) => c.readHeader id old
  | _ => (.ok none, c)

/-- `while(next(..))`: the elements up to the first `false`. Each of them takes at least one byte
or comes from `pending`, which bounds the rounds. -/
def untilEnd {α : Type} (next : Connection → Except Exception (Option α) × Connection) :
    Nat → Connection → Except Exception (List α) × Connection
  | 0, c => (.ok [], c)
  | fuel + 1, c =>
    match next c with
    | (.error e, c) => (.error e, c)
    | (.ok none, c) => (.ok [], c)
    | (.ok (some x), c) =>
      match untilEnd next fuel c with
      | (.error e, c) => (.error e, c)
      | (.ok xs, c) => (.ok (x :: xs), c)

/-- A bound on the rounds of a loop that reads an enumerator to its end. -/
def Connection.rounds (c : Connection) (pending : List (Option Bytes)) : Nat :=
  pending.length + c.stream.input.length + 1

/-- `pending.splice(pending.end(), readPending)`. -/
def Connection.splicePending (c : Connection) (id : Nat) (xs : List (Option Bytes)) : Connection :=
  match c.objects id with
  | ⟨conn, .multi headerDone count pending⟩ =>
    c.put id ⟨conn, .multi headerDone count (pending ++ xs)⟩
  | _ => c

/-- `n` status replies in a row. -/
def readStatuses : Nat → Stream → Outcome Unit
  | 0, s => (.ok (), s)
  | n + 1, s =>
    match readStatusCodeReply s with
    | (.error e, s) => (.error e, s)
    | (.ok _, s) => readStatuses n s

/-- `QueuedReply::readResult` on the stream: one status for `MULTI`, one for every queued request,
and what ends the transaction. -/
def readQueued (count : Nat) (state : TransactionState) (s : Stream) : Outcome Unit :=
  match readStatuses (count + 1) s with
  | (.error e, s) => (.error e, s)
  | (.ok (), s) =>
    match state with
    | .committed =>
      match readIntegerReply s with
      | (.error e, s) => (.error e, s)
      | (.ok expectedCount, s) =>
        if (count : Int) = expectedCount then (.ok (), s)
        else (.error (.runtime (ascii "transaction item count did not match")), s)
    | .aborted =>
      match readStatusCodeReply s with
      | (.error e, s) => (.error e, s)
      | (.ok _, s) => (.ok (), s)
    | .blank | .dirty => (.ok (), s)

/-- `readResult()` of any object, given its `clearPendingResults()`. -/
def Connection.readResult (clear : Connection → Except Exception Unit × Connection) (id : Nat)
    (c : Connection) : Except Exception Unit × Connection :=
  match c.objects id with
  | ⟨true, .single k stored⟩ =>
    match clear c with
    | (.error e, c) => (.error e, c)
    | (.ok (), c) => c.readSingle id k stored
  | ⟨true, .multi headerDone count pending⟩ =>
    if headerDone = false ∨ 0 < count then
      match untilEnd (Connection.nextOptional clear id) (c.rounds pending) c with
      | (.error e, c) => (.error e, c)
      | (.ok readPending, c) => (.ok (), c.splicePending id readPending)
    else (.ok (), c)
  | ⟨true, .queued count state⟩ =>
    match readQueued count state c.stream with
    | (.error e, s) => (.error e, (c.withStream s).put id ⟨false, .queued count state⟩)
    | (.ok (), s) => (.ok (), (c.withStream s).put id ⟨false, .queued count state⟩)
  | _ => (.ok (), c)

/-- The loop of `clearPendingResults` over the objects in front of one, the nearest first. An
object that has been read meanwhile has given its `conn` up and is passed over. -/
def Connection.clearBefore : List Nat → Connection → Except Exception Unit × Connection
  | [], c => (.ok (), c)
  | id :: before, c =>
    match clearBefore before c with
    | (.error e, c) => (.error e, c)
    | (.ok (), c) => c.readResult (clearBefore before) id

/-- The objects in front of one, in order. -/
def Connection.inFront (c : Connection) (id : Nat) : List Nat :=
  c.outstandingReplies.takeWhile (· ≠ id)

/-- `BaseReply::clearPendingResults`. -/
def Connection.clearPendingResults (id : Nat) (c : Connection) :
    Except Exception Unit × Connection := c.clearBefore (c.inFront id).reverse

/-! ## What a program does with an object -/

/-- `result()`. -/
def Connection.result (c : Connection) (id : Nat) : Except Exception Value × Connection :=
  match c.readResult (Connection.clearPendingResults id) id with
  | (.error e, c) => (.error e, c)
  | (.ok (), c) =>
    match (c.objects id).body with
    | .single _ v => (.ok v, c)
    | _ => (.ok (.bool false), c)

/-- `nextOptional(out)`. -/
def Connection.next (c : Connection) (id : Nat) :
    Except Exception (Option (Option Bytes)) × Connection :=
  c.nextOptional (Connection.clearPendingResults id) id

/-- `next(out)`, which raises on a null element it has taken. -/
def Connection.nextString (id : Nat) (c : Connection) :
    Except Exception (Option Bytes) × Connection :=
  match c.next id with
  | (.error e, c) => (.error e, c)
  | (.ok none, c) => (.ok none, c)
  | (.ok (some none), c) => (.error .nullReply, c)
  | (.ok (some (some out)), c) => (.ok (some out), c)

/-- Take an object's place in the list, or leave the list where it has given up its `conn`. -/
def Connection.takePlace (c : Connection) (src dst : Nat) : Connection :=
  if (c.objects src).conn then
    { c with outstandingReplies := c.outstandingReplies.map fun j => if j = src then dst else j }
  else c.unlink src

section TakePlace

variable (c : Connection) (src dst : Nat)

@[simp] theorem Connection.takePlace_objects : (c.takePlace src dst).objects = c.objects := by
  unfold takePlace
  split_ifs <;> rfl

@[simp] theorem Connection.takePlace_stream : (c.takePlace src dst).stream = c.stream := by
  unfold takePlace
  split_ifs <;> rfl

@[simp] theorem Connection.takePlace_constructed :
    (c.takePlace src dst).constructed = c.constructed := by
  unfold takePlace
  split_ifs <;> rfl

@[simp] theorem Connection.takePlace_transaction :
    (c.takePlace src dst).transaction = c.transaction := by
  unfold takePlace
  split_ifs <;> rfl

theorem Connection.takePlace_outstandingReplies :
    (c.takePlace src dst).outstandingReplies = if (c.objects src).conn then
      c.outstandingReplies.map (fun j => if j = src then dst else j) else
        c.outstandingReplies.filter (· ≠ src) := by
  unfold takePlace
  split_ifs <;> rfl

end TakePlace

/-- What the source of a copy keeps. -/
def Body.copied : Body → Body
  | .multi headerDone count _ => .multi headerDone count []
  | b => b

/-- The copy constructor: the new object takes the place of the old one, and its pending
elements. -/
def Connection.copy (c : Connection) (src : Nat) : Connection :=
  let o := c.objects src
  let dst := c.constructed
  let c := (c.takePlace src dst).put src ⟨false, o.body.copied⟩
  { c.put dst o with constructed := dst + 1 }

/-- What an assignment takes over from its source; the pending elements stay behind. -/
def Body.assigned : Body → Body
  | .multi headerDone count _ => .multi headerDone count []
  | b => b

/-- `BaseReply::operator=` and the members of the derived class. -/
def Connection.moveInto (c : Connection) (dst src : Nat) : Connection :=
  let o := c.objects src
  let c := ((c.unlink dst).takePlace src dst).put src ⟨false, o.body⟩
  c.put dst ⟨o.conn, o.body.assigned⟩

/-- The copy assignment of two objects of one class. -/
def Connection.assign (c : Connection) (dst src : Nat) : Except Exception Unit × Connection :=
  match c.objects dst with
  | ⟨_, .single _ _⟩ =>
    match c.result dst with
    | (.error e, c) => (.error e, c)
    | (.ok _, c) => (.ok (), c.moveInto dst src)
  | ⟨conn, .multi _ count pending⟩ =>
    if conn = true ∧ 0 < count then
      match untilEnd (Connection.nextString dst) (c.rounds pending) c with
      | (.error e, c) => (.error e, c)
      | (.ok _, c) => (.ok (), c.moveInto dst src)
    else (.ok (), c.moveInto dst src)
  | _ => (.ok (), c)

/-- What a destructor reads; its exceptions are swallowed. -/
def Connection.finish (c : Connection) (id : Nat) : Connection :=
  match c.objects id with
  | ⟨_, .single _ _⟩ => (c.result id).2
  | ⟨conn, .multi _ count pending⟩ =>
    if conn = true ∧ 0 < count then
      (untilEnd (Connection.nextString id) (c.rounds pending) c).2
    else c
  | _ => c

/-- The destructor: the object leaves the list whatever it has read. -/
def Connection.destroy (c : Connection) (id : Nat) : Connection :=
  ((c.finish id).unlink id).put id ⟨false, .gone⟩

/-! ## Commands -/

/-- `EXECUTE_COMMAND_SYNC`: a stream in a bad state takes no bytes. -/
def Connection.executeCommand (c : Connection) (r : Request) :
    Except Exception Unit × Connection :=
  match r.execute c.buffer.resetToMark with
  | (.error e, b) => (.error e, { c with buffer := b })
  | (.ok (), b) =>
    if c.stream.failed then (.ok (), { c with buffer := b })
    else (.ok (), { c with buffer := b, sent := c.sent ++ b.data })

/-- `BaseReply::BaseReply(conn)`: the object joins the list, and the open transaction counts
it. -/
def Connection.construct (c : Connection) (b : Body) : Connection :=
  let id := c.constructed
  let c := match c.transaction with
    | none => c
    | some q =>
      match c.objects q with
      | ⟨conn, .queued count state⟩ => c.put q ⟨conn, .queued (count + 1) state⟩
      | _ => c
  { c.put id ⟨true, b⟩ with
      outstandingReplies := c.outstandingReplies ++ [id], constructed := id + 1 }

/-- Bytes arrive from the server; a stream in a bad state never shows them. -/
def Connection.arrive (c : Connection) (bs : Bytes) : Connection :=
  c.withStream ⟨c.stream.input ++ bs, c.stream.failed⟩

end AsioCoroFrame.Redispp
