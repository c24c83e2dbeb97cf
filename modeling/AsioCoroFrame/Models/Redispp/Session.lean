import AsioCoroFrame.Core.Run
import AsioCoroFrame.Models.Redispp.Pipeline

/-!
# Sessions of a program and a server over one connection

A session records beside the connection what the server has answered to the
command of every object and how many elements an enumerator has given away. A
run is any order of commands, reads, copies, assignments and destructions.
-/

namespace AsioCoroFrame.Redispp

/-! ## What an object may be answered -/

/-- The class of reply object a method returns. -/
inductive ReplyClass where
  | single (k : Kind)
  | multi
  deriving DecidableEq, Repr

/-- The members of a fresh object. -/
def ReplyClass.fresh : ReplyClass → Body
  | .single k => .single k k.default
  | .multi => .multi false 0 []

/-- What an object of the kind makes of a reply. -/
def Kind.value : Kind → Resp → Option Value
  | .void, .status _ => some (.bool true)
  | .bool, .integer i => some (.bool (0 < i))
  | .int, .integer i => some (.int i)
  | .string, .bulk s => some (.string s)
  | _, _ => none

/-- The replies a command of the kind is answered with. -/
def Kind.Accepts (k : Kind) (r : Resp) : Prop := (k.value r).isSome = true ∨ ∃ s, r = .error s

/-- The replies a command with an enumerator is answered with. -/
def MultiAccepts (r : Resp) : Prop := (∃ es, r = .multi es) ∨ ∃ s, r = .error s

/-- The replies the class is answered with. -/
def ReplyClass.Accepts : ReplyClass → Resp → Prop
  | .single k => k.Accepts
  | .multi => MultiAccepts

/-- The replies that are read without an exception. -/
def Resp.Good : Resp → Prop
  | .error _ | .multi none => False
  | _ => True

/-! ## Sessions -/

/-- A connection with what happened on it. -/
structure Session where
  conn : Connection
  /-- The reply to the command of an object. -/
  answer : Nat → Option Resp
  /-- The number of elements an enumerator has given away. -/
  taken : Nat → Nat
  /-- The commands that went out. -/
  accepted : List Request

/-- A session on a fresh connection. -/
def Session.new (bufferSize : Nat) : Session :=
  ⟨.new bufferSize, fun _ => none, fun _ => 0, []⟩

/-- What a program and its server do. -/
inductive Action where
  /-- A method of the connection, and the reply of the server. -/
  | issue (cls : ReplyClass) (r : Request) (answer : Resp)
  | result (id : Nat)
  | next (id : Nat)
  | copy (src : Nat)
  | assign (dst src : Nat)
  | destroy (id : Nat)
  deriving DecidableEq, Repr

/-- The class of an object that exists. -/
def Body.cls : Body → Option ReplyClass
  | .single k _ => some (.single k)
  | .multi .. => some .multi
  | .gone | .queued .. => none

/-- The member `count` of an enumerator. -/
def Body.count : Body → Int
  | .multi _ count _ => count
  | _ => 0

/-- The member `pending` of an enumerator. -/
def Body.pending : Body → List (Option Bytes)
  | .multi _ _ pending => pending
  | _ => []

/-- What the source of a copy or of an assignment is still answered. -/
def Body.keeps (b : Body) (a : Option Resp) : Option Resp :=
  match b with
  | .single .. => a
  | _ => none

/-- The objects a copy or an assignment hands over from `src` to `dst`. -/
def Session.handOver (s : Session) (c : Connection) (dst src : Nat) : Session :=
  { s with
    conn := c
    answer := Function.update (Function.update s.answer src
      ((s.conn.objects src).body.keeps (s.answer src))) dst (s.answer src)
    taken := Function.update s.taken dst (s.taken src) }

/-- One step; what the types of the program exclude is no step. -/
def step (s : Session) : Action → Option Session
  | .issue cls r answer =>
    match s.conn.executeCommand r with
    | (.error _, c) => some { s with conn := c }
    | (.ok (), c) =>
      if c.stream.failed then some { s with conn := c.construct cls.fresh }
      else some { s with
        conn := (c.construct cls.fresh).arrive answer.text
        answer := Function.update s.answer c.constructed (some answer)
        accepted := s.accepted ++ [r] }
  | .result id =>
    match (s.conn.objects id).body with
    | .single _ _ => some { s with conn := (s.conn.result id).2 }
    | _ => none
  | .next id =>
    match (s.conn.objects id).body with
    | .multi _ _ _ =>
      match s.conn.next id with
      | (.ok (some _), c) =>
        some { s with conn := c, taken := Function.update s.taken id (s.taken id + 1) }
      | (_, c) => some { s with conn := c }
    | _ => none
  | .copy src =>
    if (s.conn.objects src).body.cls = none then none
    else some (s.handOver (s.conn.copy src) s.conn.constructed src)
  | .assign dst src =>
    if dst = src ∨ (s.conn.objects src).body.cls = none ∨
        (s.conn.objects dst).body.cls ≠ (s.conn.objects src).body.cls then none
    else
      match s.conn.assign dst src with
      | (.ok (), c) => some (s.handOver c dst src)
      | (.error _, c) =>
        some { s with
          conn := c
          taken := Function.update s.taken dst (s.taken dst +
            ((s.conn.objects dst).body.count - (c.objects dst).body.count).toNat) }
  | .destroy id =>
    if (s.conn.objects id).body.cls = none then none
    else some { s with
      conn := s.conn.destroy id
      answer := Function.update s.answer id none }

/-! ## What a program has to keep to -/

/-- An object that reads nothing when it is asked to. -/
def BaseReply.Idle (o : BaseReply) : Prop :=
  o.conn = true → ∃ n p, o.body = .multi true n p ∧ n ≤ 0

/-- The objects still to be read in front of one are all answered without an exception. -/
def Session.FrontGood (s : Session) (id : Nat) : Prop :=
  ∀ j ∈ s.conn.inFront id, (s.conn.objects j).Idle ∨ ∃ r, s.answer j = some r ∧ r.Good

/-- An enumerator whose header has not been read. -/
def BaseReply.Untouched (o : BaseReply) : Prop := ∃ n p, o = ⟨true, .multi false n p⟩

/-- When a destructor leaves nothing of its reply unread: a single result behind replies without
an exception, an enumerator that was touched and has no null element but for the last one. -/
def Session.Leaves (s : Session) (id : Nat) : Prop :=
  s.conn.stream.failed = false → match s.conn.objects id with
  | ⟨true, .single _ _⟩ => s.FrontGood id
  | ⟨true, .multi false _ _⟩ => False
  | ⟨true, .multi true _ _⟩ =>
    ∀ es, s.answer id = some (.multi (some es)) → ∀ x ∈ (es.drop (s.taken id)).dropLast, x ≠ none
  | _ => True

/-- The server answers what the protocol allows, no enumerator is dropped or overwritten before
its header was read, and no assignment takes from an enumerator that was read ahead. -/
def Keeps (s : Session) : Action → Prop
  | .issue cls _ answer => cls.Accepts answer ∧ answer.WellFormed
  | .result _ | .next _ | .copy _ => True
  | .assign dst src =>
    (s.conn.stream.failed = false → ¬ (s.conn.objects dst).Untouched) ∧
      (s.conn.objects src).body.pending = []
  | .destroy id => s.Leaves id

end AsioCoroFrame.Redispp
