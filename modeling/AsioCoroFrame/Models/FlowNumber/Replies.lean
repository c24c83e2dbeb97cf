import AsioCoroFrame.Models.Cluster.Process
import AsioCoroFrame.Models.FlowNumber.Commands
import AsioCoroFrame.Models.FlowNumber.Counter
import AsioCoroFrame.Models.Http.ClientResponse

/-!
# What the handler reports for the replies it gets

The reply of the increment is freed unread, and of the reply of the read only
the text is looked at. Errors other than redirections and a cluster that is
down are ordinary replies for the command layer, so the handler answers 400
only for exceptions.
-/

namespace AsioCoroFrame.FlowNumber

open Cluster

/-- A number was allocated: the increment gave an integer, and the value read is the text of an
integer that is not below it. -/
def Allocated (incr get : CommandResult) (v : Bytes) : Prop :=
  ∃ i j : Int, incr = .ok (some (.integer i)) ∧ get = .ok (some (.string v)) ∧ v = intText j ∧ i ≤ j

/-- A flow number is reported only when it was allocated, and otherwise the answer is 400. -/
def ReportsAllocated (now : Bytes) (incr get : CommandResult) (response : Option Bytes) : Prop :=
  (∀ v, response = some (okResponse now v) → Allocated incr get v) ∧
    ((∀ v, ¬ Allocated incr get v) → ∃ what, response = some (badRequest what))

/-! ## The two responses -/

theorem okResponse_injective (now : Bytes) : Function.Injective (okResponse now) := by
  intro v w h
  rw [Http.okResponse_eq, Http.okResponse_eq] at h
  have hbody := (Http.serverResponse_inj (by decide) (by decide) h).2
  simpa using hbody

theorem okResponse_ne_badRequest (now v what : Bytes) : okResponse now v ≠ badRequest what := by
  intro h
  rw [Http.okResponse_eq, Http.badRequest_eq] at h
  have hstatus := (Http.serverResponse_inj (by decide) (by decide) h).1
  exact absurd hstatus (by decide)

/-! ## Replies and exceptions of the command layer -/

/-- A reply that is no redirection and no report of a cluster that is down. -/
def Plain (r : RedisReply) : Prop :=
  ∀ s, r = .error s → findSub (ascii "ASK") s ≠ some 0 ∧ findSub (ascii "MOVED") s ≠ some 0 ∧
    findSub (ascii "CLUSTERDOWN") (cString s) = none

/-- A plain error is returned like any other reply. -/
theorem processReply_plain (format : Bytes) {r : RedisReply} (h : Plain r) :
    processReply format (some r) = .done (.ok (some r)) := by
  cases r with
  | error s =>
    obtain ⟨hask, hmoved, hdown⟩ := h s rfl
    have hfirst : findSub (ascii "CLUSTERDOWN") s ≠ some 0 := by
      intro hzero
      obtain ⟨t, rfl⟩ : ascii "CLUSTERDOWN" <+: s := (findSub_some hzero).1
      rw [cString_append t (by decide), findSub_of_prefix (List.prefix_append ..)] at hdown
      cases hdown
    simp [processReply, checkCritical, processResult, hask, hmoved, hdown, hfirst]
  | integer | string | status | nil | array => rfl

/-- A command whose node gives a plain reply returns it. -/
theorem process_run_plain {answer : (q : Request) → q.Answer} {cmd : Command} {con : Pair}
    {r : RedisReply} (hcon : answer (.getConnection cmd.key) = .ok con)
    (hreply : answer (.processHiredisCommand .initial con cmd.format) = some r) (hr : Plain r) :
    ((process cmd).run answer).2 = .ok (some r) := by
  simp only [process, Prog.run, hcon, hreply, processReply_plain _ hr]

/-! ## What is reported -/

/-- An exception of either command is answered 400. -/
theorem reportsAllocated_raised (now : Bytes) (incr get : CommandResult) (e : ClusterException) :
    ReportsAllocated now incr get (some (badRequest e.what)) := by
  refine ⟨fun v hv => ?_, fun _ => ⟨_, rfl⟩⟩
  exact absurd (Option.some.inj hv).symm (okResponse_ne_badRequest now v e.what)

/-- A handler that does not answer should have reported a number. -/
theorem reportsAllocated_undefined (now : Bytes) (incr get : CommandResult) :
    ReportsAllocated now incr get none ↔ ∃ v, Allocated incr get v := by
  constructor
  · intro h
    by_contra hno
    obtain ⟨what, hwhat⟩ := h.2 (not_exists.mp hno)
    cases hwhat
  · rintro ⟨v, hv⟩
    exact ⟨fun _ hresponse => (nomatch hresponse), fun hno => absurd hv (hno v)⟩

/-- A reported text has to be the allocated one. -/
theorem reportsAllocated_value (now : Bytes) {incr get : CommandResult} {x : Bytes}
    (hx : ∀ v, Allocated incr get v → v = x) :
    ReportsAllocated now incr get (some (okResponse now x)) ↔ ∃ v, Allocated incr get v := by
  constructor
  · intro h
    exact ⟨x, h.1 x rfl⟩
  · rintro ⟨v, hv⟩
    obtain rfl := hx v hv
    refine ⟨fun w hw => ?_, fun hno => absurd hv (hno v)⟩
    rwa [← okResponse_injective now (Option.some.inj hw)]

/-- Whatever the commands are answered, only the replies of the two on the key matter. -/
theorem reportsAllocated_run_iff {path company type : Bytes} {rest : List Bytes}
    (h : segments path = .ok (company :: type :: rest)) (now : Bytes)
    (answer : Command → CommandResult) :
    let incr := answer (incrCommand (idName company type))
    let get := answer (getCommand (idName company type))
    ReportsAllocated now incr get ((dealWithFlowNumber now path).run answer).2 ↔
      (∃ e, incr = .error e) ∨ (∃ e, get = .error e) ∨ ∃ v, Allocated incr get v := by
  rw [dealWithFlowNumber_run h, allocate_run]
  generalize answer (incrCommand (idName company type)) = incr
  generalize answer (getCommand (idName company type)) = get
  cases incr with
  | error e => exact iff_of_true (reportsAllocated_raised now _ _ e) (.inl ⟨e, rfl⟩)
  | ok r =>
    rcases get with e | _ | r'
    · exact iff_of_true (reportsAllocated_raised now _ _ e) (.inr (.inl ⟨e, rfl⟩))
    · simpa [finish, respond] using reportsAllocated_undefined now (.ok r) (.ok none)
    · obtain ⟨x, hfinish, hx⟩ : ∃ x, finish (.ok (some r')) = .value x ∧
          ∀ s, r' = .string s → x = cString s :=
        ⟨_, rfl, fun s hs => hs ▸ rfl⟩
      have hread : ∀ v, Allocated (.ok r) (.ok (some r')) v → v = x := by
        rintro v ⟨i, j, _, hget, rfl, _⟩
        cases hget
        rw [hx _ rfl, cString_intText]
      simpa [hfinish, respond] using reportsAllocated_value now hread

/-- The same over the command layer, whatever the nodes answer. -/
theorem reportsAllocated_process_iff {path company type : Bytes} {rest : List Bytes}
    (h : segments path = .ok (company :: type :: rest)) (now : Bytes)
    (answer : (q : Request) → q.Answer) :
    let incr := ((process (incrCommand (idName company type))).run answer).2
    let get := ((process (getCommand (idName company type))).run answer).2
    ReportsAllocated now incr get
        (((dealWithFlowNumber now path).interpret process).run answer).2 ↔
      (∃ e, incr = .error e) ∨ (∃ e, get = .error e) ∨ ∃ v, Allocated incr get v := by
  rw [Prog.run_interpret]
  exact reportsAllocated_run_iff h now _

/-- A pair of replies to the two commands on a key. -/
def replies (id : Bytes) (incr get : CommandResult) (c : Command) : CommandResult :=
  if c = incrCommand id then incr else get

theorem getCommand_ne_incrCommand (id : Bytes) : getCommand id ≠ incrCommand id := by
  intro h
  have hget : ascii "get " = 103 :: ascii "et " := by decide
  have hincr : ascii "incr " = 105 :: ascii "ncr " := by decide
  have hhead := congrArg (fun c => c.format.head?) h
  simp [getCommand, incrCommand, hget, hincr, cString] at hhead

/-- The number reported is really allocated, and everything else answered 400, exactly when one of
the two commands raises or the replies are an integer and the text of an integer not below it. -/
theorem reportsAllocated_iff {path company type : Bytes} {rest : List Bytes}
    (h : segments path = .ok (company :: type :: rest)) (now : Bytes) (incr get : CommandResult) :
    ReportsAllocated now incr get
        ((dealWithFlowNumber now path).run (replies (idName company type) incr get)).2 ↔
      (∃ e, incr = .error e) ∨ (∃ e, get = .error e) ∨ ∃ v, Allocated incr get v := by
  have hrun := reportsAllocated_run_iff h now (replies (idName company type) incr get)
  simpa only [replies, if_true, getCommand_ne_incrCommand, if_false] using hrun

/-- The documented call, whose counter another request increments before the read. -/
theorem reportsAllocated_iff_concurrent :
    ReportsAllocated [] (.ok (some (.integer 1))) (.ok (some (.string (ascii "2"))))
        ((dealWithFlowNumber [] (ascii "/flowNo/test/tt")).run
          (replies (idName (ascii "test") (ascii "tt")) (.ok (some (.integer 1)))
            (.ok (some (.string (ascii "2")))))).2 ↔
      (∃ e, (.ok (some (.integer 1)) : CommandResult) = .error e) ∨
        (∃ e, (.ok (some (.string (ascii "2"))) : CommandResult) = .error e) ∨
        ∃ v, Allocated (.ok (some (.integer 1))) (.ok (some (.string (ascii "2")))) v :=
  reportsAllocated_iff (show segments (ascii "/flowNo/test/tt") = .ok [ascii "test", ascii "tt"]
    from rfl) [] _ _

/-- The refusal of a node that only lets itself be read. -/
def readOnlyError : RedisReply :=
  .error (ascii "READONLY You can't write against a read only slave.")

/-- What a node that only lets itself be read answers: the increment is refused, the counter stands
at 41. -/
def readOnlyNode (key : Bytes) : (q : Request) → q.Answer
  | .getConnection _ => .ok (.slots ⟨0, 16383⟩, 0)
  | .createNewConnection .. => .error .nodeSearch
  | .releaseConnection _ => ()
  | .processHiredisCommand _ _ format =>
    if format = cString (ascii "incr " ++ key) then some readOnlyError
    else some (.string (ascii "41"))
  | .asking _ => none

/-- A refused increment is answered with the old number. -/
theorem reports_unallocated :
    let id := idName (ascii "test") (ascii "tt")
    let command := fun c => ((process c).run (readOnlyNode id)).2
    let response := (((dealWithFlowNumber [] (ascii "/flowNo/test/tt")).interpret process).run
      (readOnlyNode id)).2
    command (incrCommand id) = .ok (some readOnlyError) ∧
      response = some (okResponse [] (ascii "41")) ∧
      ¬ ReportsAllocated [] (command (incrCommand id)) (command (getCommand id)) response := by
  intro id command response
  have hplain : Plain readOnlyError := by
    rintro s ⟨rfl⟩
    decide
  have hincr : command (incrCommand id) = .ok (some readOnlyError) :=
    process_run_plain rfl rfl hplain
  have hresponse : response = some (okResponse [] (ascii "41")) := rfl
  refine ⟨hincr, hresponse, fun h => ?_⟩
  obtain ⟨i, _, hi, _⟩ := h.1 _ hresponse
  rw [hincr] at hi
  cases hi

end AsioCoroFrame.FlowNumber
