import AsioCoroFrame.Core.Numeral
import AsioCoroFrame.Core.Prog
import AsioCoroFrame.Models.Cluster.Reply

/-!
# The flow-number handler

`deal_with_flow_number` takes the company and the type from the request path,
increments their counter and then reads it back by a second command. The
handler is a resumable program: each `HiredisCommand::Command` is a question
to the cluster, so nothing is assumed here about how commands are executed or
interleaved.
-/

namespace AsioCoroFrame.FlowNumber

open Cluster

/-- How the `try` block of the handler is left. -/
inductive Outcome where
  /-- The value placed in the `flowNo` member. -/
  | value (v : Bytes)
  /-- An exception caught by the handler. -/
  | raised (e : ClusterException)
  /-- A missing segment is read or a `NULL` reply is dereferenced. -/
  | undefined
  deriving DecidableEq, Repr

/-- The Redis key of a company and a type. -/
def idName (company type : Bytes) : Bytes :=
  ascii "\x7b" ++ company ++ ascii "_" ++ type ++ ascii "_" ++ ascii "flow_number\x7d:id"

/-- The segments of the path after `/flowNo/`. -/
def segments (path : Bytes) : Except StdException (List Bytes) :=
  (substr path (ascii "/flowNo/").length path.length).map (List.splitOn slash)

/-- The handler after the reply of the second command. -/
def finish : CommandResult → Outcome
  | .error e => .raised e
  | .ok none => .undefined
  | .ok (some r) => .value (match r.str with
    | some s => cString s
    | none => [])

/-- A program that has commands executed on the cluster. -/
abbrev Script (R : Type) := Prog Command (fun _ => CommandResult) R

/-- The second command: read the counter back. -/
def readBack (id : Bytes) : Script Outcome :=
  .call ⟨cString id, cString (ascii "get " ++ id)⟩ fun r => .done (finish r)

/-- The two commands on one key; the reply of the increment is freed unread. -/
def allocate (id : Bytes) : Script Outcome :=
  .call ⟨cString id, cString (ascii "incr " ++ id)⟩ fun
    | .error e => .done (.raised e)
    | .ok _ => readBack id

/-- The body of the `try` block of `deal_with_flow_number`. -/
def flowNumber (path : Bytes) : Script Outcome :=
  match segments path with
  | .error e => .done (.raised (.std e))
  | .ok (company :: type :: _) => allocate (idName company type)
  | .ok _ => .done .undefined

/-- The successful response, with the time text of the moment it is written. -/
def okResponse (now value : Bytes) : Bytes :=
  let temp := ascii "\x7b\"flowNo\":\"" ++ value ++ ascii "\",\"replyTime\" : \"" ++ now ++
    ascii "\"\x7d"
  ascii "HTTP/1.1 200 OK\r\nContent-Length: " ++ decimal temp.length ++ crlfcrlf ++ temp

/-- The response of the `catch` clauses. -/
def badRequest (what : Bytes) : Bytes :=
  ascii "HTTP/1.1 400 Bad Request\r\nContent-Length: " ++ decimal (cString what).length ++
    crlfcrlf ++ cString what

/-- The bytes the handler puts on the response; none when its behaviour is undefined. -/
def respond (now : Bytes) : Outcome → Option Bytes
  | .value v => some (okResponse now v)
  | .raised e => some (badRequest e.what)
  | .undefined => none

/-- `deal_with_flow_number`, up to the cluster's answers. -/
def dealWithFlowNumber (now path : Bytes) : Script (Option Bytes) :=
  (flowNumber path).map (respond now)

end AsioCoroFrame.FlowNumber
