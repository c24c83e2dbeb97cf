import AsioCoroFrame.Models.Redispp.Orphans
import AsioCoroFrame.Models.Redispp.Wire

/-!
# Transactions

A transaction keeps one more object on the list, the only one that is read at
the end of the transaction: one status for `MULTI`, one for every object
constructed meanwhile, and the number of results for `EXEC`. The objects of the
commands stay behind it and find their replies right after that number.
-/

namespace AsioCoroFrame.Redispp

/-! ## The code -/

/-- The command `MULTI`. -/
def multi : Request := ⟨ascii "Multi", []⟩

/-- The command `EXEC`. -/
def exec : Request := ⟨ascii "Exec", []⟩

/-- The command `DISCARD`. -/
def discard : Request := ⟨ascii "Discard", []⟩

/-- Assign to the member `state` of a `QueuedReply`. -/
def Connection.setState (c : Connection) (q : Nat) (state : TransactionState) : Connection :=
  match c.objects q with
  | ⟨conn, .queued count _⟩ => c.put q ⟨conn, .queued count state⟩
  | _ => c

/-- `Transaction::Transaction(conn)`: the member `replies` is constructed before the check, and
destroyed again where the constructor raises. `reply` is what the server sends for `MULTI`. -/
def Connection.beginTransaction (c : Connection) (reply : Bytes) :
    Except Exception Unit × Connection :=
  let q := c.constructed
  let c := c.construct (.queued 0 .blank)
  if c.transaction.isSome then
    (.error (.runtime
      (ascii "cannot start a transaction while the connection is already in one")), c.drop q)
  else
    match c.executeCommand multi with
    | (.error e, c) => (.error e, c.drop q)
    | (.ok (), c) =>
      (.ok (), ({ c with transaction := some q }.setState q .dirty).arrive reply)

/-- The common part of `commit` and `abort`; `reply` is what the server sends for the command. -/
def Connection.finishTransaction (state : TransactionState) (r : Request) (c : Connection)
    (q : Nat) (reply : Bytes) : Except Exception Unit × Connection :=
  match (c.objects q).body with
  | .queued _ .dirty =>
    match (c.setState q state).executeCommand r with
    | (.error e, c) => (.error e, c)
    | (.ok (), c) => (c.arrive reply).readResult (Connection.clearPendingResults q) q
  | _ => (.ok (), c)

/-- `Transaction::commit`. -/
def Connection.commit : Connection → Nat → Bytes → Except Exception Unit × Connection :=
  Connection.finishTransaction .committed exec

/-- `Transaction::abort`. -/
def Connection.abort : Connection → Nat → Bytes → Except Exception Unit × Connection :=
  Connection.finishTransaction .aborted discard

/-- `Transaction::~Transaction`, and the destructor of the member `replies`. -/
def Connection.closeTransaction (c : Connection) (q : Nat) (reply : Bytes) : Connection :=
  { (c.abort q reply).2 with transaction := none }.drop q

/-! ## A server in a transaction -/

/-- A command queued by the server: the class of its object, the words and the reply in the
array that answers `EXEC`. -/
structure Queued where
  cls : ReplyClass
  request : Request
  answer : Resp
  deriving DecidableEq, Repr

/-- What the server answers to `MULTI` and to `DISCARD`. -/
def okText : Bytes := (Resp.status (ascii "OK")).text

/-- What the server answers to a queued command. -/
def queuedText : Bytes := (Resp.status (ascii "QUEUED")).text

/-- What the server answers to `EXEC`. -/
def execText (cmds : List Queued) : Bytes :=
  42 :: (intText cmds.length ++ crlf ++ cmds.flatMap fun m => m.answer.text)

/-- The methods called in a transaction. -/
def Connection.enqueue : List Queued → Connection → Except Exception Unit × Connection
  | [], c => (.ok (), c)
  | m :: cmds, c =>
    match c.executeCommand m.request with
    | (.error e, c) => (.error e, c)
    | (.ok (), c) => enqueue cmds ((c.construct m.cls.fresh).arrive queuedText)

/-- A block with a transaction in it: the methods called in it and what ends it. -/
def Connection.inTransaction (finish : Connection → Nat → Except Exception Unit × Connection)
    (c : Connection) (cmds : List Queued) : Except Exception Unit × Connection :=
  let q := c.constructed
  match c.beginTransaction okText with
  | (.error e, c) => (.error e, c)
  | (.ok (), c) =>
    match c.enqueue cmds with
    | (.error e, c) => (.error e, c.closeTransaction q okText)
    | (.ok (), c) =>
      match finish c q with
      | (.error e, c) => (.error e, c.closeTransaction q okText)
      | (.ok (), c) => (.ok (), c.closeTransaction q okText)

/-- A whole transaction that is committed at its end. -/
def Connection.transact (c : Connection) (cmds : List Queued) :
    Except Exception Unit × Connection :=
  c.inTransaction (fun c q => c.commit q (execText cmds)) cmds

/-- A whole transaction that is aborted at its end. -/
def Connection.giveUp (c : Connection) (cmds : List Queued) : Except Exception Unit × Connection :=
  c.inTransaction (fun c q => c.abort q okText) cmds

/-- The replies to objects constructed one after the other. -/
def answers (a : Nat → Option Resp) : Nat → List Queued → Nat → Option Resp
  | _, [] => a
  | id, m :: cmds => answers (Function.update a id (some m.answer)) (id + 1) cmds

/-- The session after a transaction. -/
def Session.transact (s : Session) (cmds : List Queued) : Session :=
  { s with
    conn := (s.conn.transact cmds).2
    answer := answers s.answer (s.conn.constructed + 1) cmds
    accepted := s.accepted ++ multi :: cmds.map Queued.request ++ [exec] }

/-! ## Reading the statuses -/

theorem readStatusCodeReply_queued {g : Bytes} (hg : Gap g) (rest : Bytes) :
    readStatusCodeReply ⟨g ++ queuedText ++ rest, false⟩ =
      (.ok (ascii "QUEUED"), ⟨lf :: rest, false⟩) :=
  readStatusCodeReply_status hg rest (by decide)

/-- One status for each queued command. -/
theorem readStatuses_queued {g : Bytes} (hg : Gap g) (n : Nat) (rest : Bytes) :
    ∃ gap, Gap gap ∧ readStatuses n ⟨g ++ (List.replicate n queuedText).flatten ++ rest, false⟩ =
      (.ok (), ⟨gap ++ rest, false⟩) := by
  induction n generalizing g with
  | zero => exact ⟨g, hg, by simp [readStatuses]⟩
  | succ n ih =>
    obtain ⟨gap, hgap, hread⟩ := ih gap_lf
    refine ⟨gap, hgap, ?_⟩
    have hone := readStatusCodeReply_queued hg ((List.replicate n queuedText).flatten ++ rest)
    rw [List.replicate_succ, List.flatten_cons, ← List.append_assoc, List.append_assoc _ _ rest]
    simp only [readStatuses, hone]
    exact hread

/-- The statuses of a whole transaction. -/
theorem readStatuses_transaction {g : Bytes} (hg : Gap g) (n : Nat) (rest : Bytes) :
    ∃ gap, Gap gap ∧ readStatuses (n + 1)
      ⟨g ++ okText ++ (List.replicate n queuedText).flatten ++ rest, false⟩ =
        (.ok (), ⟨gap ++ rest, false⟩) := by
  obtain ⟨gap, hgap, hread⟩ := readStatuses_queued gap_lf n rest
  refine ⟨gap, hgap, ?_⟩
  have hone := readStatusCodeReply_status (s := ascii "OK") hg
    ((List.replicate n queuedText).flatten ++ rest) (by decide)
  rw [List.append_assoc _ _ rest]
  simp only [readStatuses, okText, hone]
  exact hread

/-- A committed transaction is read up to its replies. -/
theorem readQueued_committed {g : Bytes} (hg : Gap g) (cmds : List Queued)
    (hlen : (cmds.length : Int) ≤ maxValue 64) :
    readQueued cmds.length .committed
      ⟨g ++ okText ++ (List.replicate cmds.length queuedText).flatten ++ execText cmds, false⟩ =
        (.ok (), ⟨crlf ++ cmds.flatMap fun m => m.answer.text, false⟩) := by
  obtain ⟨gap, hgap, hread⟩ := readStatuses_transaction hg cmds.length (execText cmds)
  have hcount : readIntegerReply ⟨gap ++ execText cmds, false⟩ =
      (.ok (cmds.length : Int), ⟨crlf ++ cmds.flatMap fun m => m.answer.text, false⟩) :=
    readIntegerReply_code hgap _ (by decide) ⟨minValue_le_natCast 64 _, hlen⟩
  simp only [readQueued, hread, hcount, if_true]

/-- An aborted transaction is read to its end. -/
theorem readQueued_aborted {g : Bytes} (hg : Gap g) (n : Nat) :
    readQueued n .aborted
      ⟨g ++ okText ++ (List.replicate n queuedText).flatten ++ okText, false⟩ =
        (.ok (), ⟨[lf], false⟩) := by
  obtain ⟨gap, hgap, hread⟩ := readStatuses_transaction hg n okText
  have hlast : readStatusCodeReply ⟨gap ++ okText, false⟩ = (.ok (ascii "OK"), ⟨[lf], false⟩) := by
    have hstatus := readStatusCodeReply_status (s := ascii "OK") hgap [] (by decide)
    rwa [List.append_nil] at hstatus
  simp only [readQueued, hread, hlast]

/-! ## Inside of a transaction -/

/-- A buffer without a mark is as good as new for the next command. -/
theorem Buffer.resetToMark_new {b : Buffer} (h : b.marked = 0) :
    b.resetToMark = .new b.capacity := by
  simp [Buffer.resetToMark, Buffer.new, h]

/-- An object constructed outside of a transaction. -/
theorem construct_outside {c : Connection} (h : c.transaction = none) (b : Body) :
    c.construct b = { c.put c.constructed ⟨true, b⟩ with
      outstandingReplies := c.outstandingReplies ++ [c.constructed]
      constructed := c.constructed + 1 } := by
  simp only [Connection.construct, h]

/-- The command fits into the buffer of a connection. -/
def Request.Fits (r : Request) (size : Nat) : Prop := (r.execute (.new size)).1 = .ok ()

/-- A connection inside of a transaction, and the connection as if there were none. -/
structure InBlock (size q n : Nat) (b c : Connection) : Prop where
  objects : b.objects = Function.update c.objects q ⟨true, .queued n .dirty⟩
  links : b.outstandingReplies.filter (· ≠ q) = c.outstandingReplies
  constructed : b.constructed = c.constructed
  transaction : b.transaction = some q
  outside : c.transaction = none
  gone : c.objects q = ⟨false, .gone⟩
  older : q < c.constructed
  capacity : b.buffer.capacity = size
  marked : b.buffer.marked = 0
  stream : ∃ gap, Gap gap ∧
    b.stream = ⟨gap ++ okText ++ (List.replicate n queuedText).flatten, false⟩

/-- A command that fits goes out and changes the buffer only. -/
theorem executeCommand_fits {b : Connection} {r : Request} {size : Nat} (hfit : r.Fits size)
    (hcap : b.buffer.capacity = size) (hmark : b.buffer.marked = 0)
    (hf : b.stream.failed = false) : ∃ buf sent, buf.capacity = size ∧ buf.marked = 0 ∧
      b.executeCommand r = (.ok (), { b with buffer := buf, sent := sent }) := by
  have hnew : b.buffer.resetToMark = .new size := by rw [Buffer.resetToMark_new hmark, hcap]
  have hframe := r.execute_frame (.new size)
  rcases hexec : r.execute (.new size) with ⟨e | ⟨⟩, buf⟩
  · rw [Request.Fits, hexec] at hfit
    cases hfit
  · rw [hexec] at hframe
    refine ⟨buf, b.sent ++ buf.data, hframe.2, hframe.1, ?_⟩
    simp only [Connection.executeCommand, hnew, hexec, hf, Bool.false_eq_true, if_false]

/-- The connection as if the commands had been issued outside of a transaction, where each is
answered at once with the given bytes. -/
def Connection.plain (f : Queued → Bytes) : List Queued → Connection → Connection
  | [], c => c
  | m :: cmds, c => plain f cmds ((c.construct m.cls.fresh).arrive (f m))

/-- One method call in a transaction. -/
theorem InBlock.construct {size q n : Nat} {b c : Connection} (h : InBlock size q n b c)
    (cls : ReplyClass) (bs : Bytes) : InBlock size q (n + 1)
      ((b.construct cls.fresh).arrive queuedText) ((c.construct cls.fresh).arrive bs) := by
  have hq : b.objects q = ⟨true, .queued n .dirty⟩ := by
    rw [h.objects, Function.update_self]
  have hne : c.constructed ≠ q := h.older.ne'
  have hplain := construct_outside h.outside cls.fresh
  have hblock : b.construct cls.fresh =
      { (b.put q ⟨true, .queued (n + 1) .dirty⟩).put b.constructed ⟨true, cls.fresh⟩ with
        outstandingReplies := b.outstandingReplies ++ [b.constructed]
        constructed := b.constructed + 1 } := by
    simp only [Connection.construct, h.transaction, hq, Connection.put_outstandingReplies]
  obtain ⟨gap, hgap, hs⟩ := h.stream
  rw [hplain, hblock]
  refine ⟨?_, ?_, ?_, h.transaction, h.outside, ?_, ?_, h.capacity, h.marked, gap, hgap, ?_⟩
  · simp only [Connection.arrive, Connection.withStream, Connection.put, h.objects,
      Function.update_idem, h.constructed]
    exact Function.update_comm hne.symm ..
  · simp only [Connection.arrive, Connection.withStream, List.filter_append, h.links,
      h.constructed]
    rw [List.filter_cons_of_pos (by simpa using hne), List.filter_nil]
  · simp only [Connection.arrive, Connection.withStream, h.constructed]
  · exact (Function.update_of_ne hne.symm ..).trans h.gone
  · exact Nat.lt_succ_of_lt h.older
  · simp only [Connection.arrive, Connection.withStream, Connection.put, hs]
    rw [List.replicate_succ', List.flatten_concat, ← List.append_assoc]

/-- The method calls in a transaction, one after the other. -/
theorem InBlock.enqueue {size q n : Nat} {b c : Connection} (h : InBlock size q n b c)
    {cmds : List Queued} (hfit : ∀ m ∈ cmds, m.request.Fits size) (f : Queued → Bytes) :
    ∃ b', b.enqueue cmds = (.ok (), b') ∧
      InBlock size q (n + cmds.length) b' (c.plain f cmds) := by
  induction cmds generalizing n b c with
  | nil => exact ⟨b, rfl, h⟩
  | cons m cmds ih =>
    obtain ⟨gap, hgap, hs⟩ := h.stream
    obtain ⟨buf, sent, hcap, hmark, hexec⟩ := executeCommand_fits (hfit m List.mem_cons_self)
      h.capacity h.marked (congrArg Stream.failed hs)
    have hsame : InBlock size q n { b with buffer := buf, sent := sent } c :=
      ⟨h.objects, h.links, h.constructed, h.transaction, h.outside, h.gone, h.older, hcap, hmark,
        h.stream⟩
    obtain ⟨b', hrest, hin⟩ := ih (hsame.construct m.cls (f m)) fun m' hm' =>
      hfit m' (List.mem_cons_of_mem _ hm')
    refine ⟨b', by simp only [Connection.enqueue, hexec, hrest], ?_⟩
    rw [List.length_cons, Nat.add_comm cmds.length 1, ← Nat.add_assoc]
    exact hin

/-- A transaction begins behind objects that have nothing left to read. -/
theorem beginTransaction_inBlock {c : Connection} {a : Nat → Option Resp} {t : Nat → Nat}
    (h : Inv c a t) (hf : c.stream.failed = false)
    (hidle : ∀ j ∈ c.outstandingReplies, (c.objects j).Idle) {size : Nat}
    (hcap : c.buffer.capacity = size) (hmark : c.buffer.marked = 0) (hfit : multi.Fits size)
    (is : Stream) : ∃ b, c.beginTransaction okText = (.ok (), b) ∧ InBlock size c.constructed 0 b
      { c with stream := is, constructed := c.constructed + 1 } := by
  have hgone := (h.absent c.constructed le_rfl).1
  have hfree : c.constructed ∉ c.outstandingReplies := fun hm => absurd (h.bound _ hm) (by simp)
  have hquiet : c.outstandingReplies.flatMap (fun j => unread (c.objects j) (a j)) = [] := by
    simp only [List.flatMap_eq_nil_iff]
    intro j hj
    exact (h.live hf j).unread_of_idle (hidle j hj)
  obtain ⟨gap, hgap, hin⟩ := h.flow hf
  rw [hquiet, List.append_nil] at hin
  have hcon := construct_outside h.outside (.queued 0 .blank)
  obtain ⟨buf, sent, hcap', hmark', hexec⟩ := executeCommand_fits (r := multi)
    (b := c.construct (.queued 0 .blank)) hfit (by rw [hcon]; exact hcap)
    (by rw [hcon]; exact hmark) (by rw [hcon]; exact hf)
  have hopen : (c.construct (.queued 0 .blank)).transaction = none := by
    rw [hcon]
    exact h.outside
  simp only [Connection.beginTransaction, hopen, Option.isSome_none, Bool.false_eq_true, if_false,
    hexec]
  refine ⟨_, rfl, ?_⟩
  simp only [hcon, Connection.setState, Connection.put, Function.update_self,
    Function.update_idem, Connection.arrive, Connection.withStream]
  refine ⟨rfl, ?_, rfl, rfl, h.outside, hgone, Nat.lt_succ_self _, hcap', hmark', gap, hgap, ?_⟩
  · simp only [List.filter_append]
    rw [List.filter_cons_of_neg (by simp), List.filter_nil, List.append_nil]
    exact List.filter_eq_self.mpr fun j hj => by simpa using ne_of_mem_of_not_mem hj hfree
  · simp [hin, hf]

/-- Two connections with the same objects. -/
structure Alike (d c : Connection) : Prop where
  objects : d.objects = c.objects
  links : d.outstandingReplies = c.outstandingReplies
  constructed : d.constructed = c.constructed
  transaction : d.transaction = c.transaction

/-- What ends a transaction reads all of its statuses, and the destructor leaves the objects as
if there had been no transaction. -/
theorem InBlock.finish {size q n : Nat} {b c : Connection} (h : InBlock size q n b c)
    {r : Request} (hfit : r.Fits size) {state : TransactionState} (hstate : state ≠ .dirty)
    {reply : Bytes} {is : Stream} (hread : ∀ gap, Gap gap → readQueued n state
      ⟨gap ++ okText ++ (List.replicate n queuedText).flatten ++ reply, false⟩ = (.ok (), is)) :
    ∃ b', b.finishTransaction state r q reply = (.ok (), b') ∧
      Alike (b'.closeTransaction q okText) c ∧ (b'.closeTransaction q okText).stream = is := by
  have hq : b.objects q = ⟨true, .queued n .dirty⟩ := by
    rw [h.objects, Function.update_self]
  obtain ⟨gap, hgap, hs⟩ := h.stream
  have hset : b.setState q state = b.put q ⟨true, .queued n state⟩ := by
    simp only [Connection.setState, hq]
  obtain ⟨buf, sent, -, -, hexec⟩ := executeCommand_fits (b := b.put q ⟨true, .queued n state⟩)
    hfit h.capacity h.marked (congrArg Stream.failed hs)
  let d : Connection := { b.put q ⟨false, .queued n state⟩ with
    stream := is, buffer := buf, sent := sent }
  have hfinish : b.finishTransaction state r q reply = (.ok (), d) := by
    simp only [Connection.finishTransaction, hq, hset, hexec]
    simp only [Connection.arrive, Connection.withStream, Connection.readResult, Connection.put,
      Function.update_self, hs, hread gap hgap, Function.update_idem, d]
  have hdone : d.abort q okText = (.ok (), d) := by
    have hbody : (d.objects q).body = .queued n state := by
      simp [d]
    cases state with
    | dirty => exact absurd rfl hstate
    | blank | aborted | committed =>
      simp only [Connection.abort, Connection.finishTransaction, hbody]
  have hclose : d.closeTransaction q okText = { d with transaction := none }.drop q := by
    rw [Connection.closeTransaction, hdone]
  refine ⟨d, hfinish, ⟨?_, ?_, by rw [hclose]; exact h.constructed,
    by rw [hclose]; exact h.outside.symm⟩, by rw [hclose]; rfl⟩
  · rw [hclose]
    simp only [Connection.drop, Connection.unlink, Connection.put, Function.update_idem, d,
      h.objects]
    rw [← h.gone, Function.update_eq_self]
  · rw [hclose]
    exact h.links

/-- A transaction behind objects that have nothing left to read ends without an exception and
leaves the objects of its commands as if there had been no transaction. -/
theorem inTransaction_ends {c : Connection} {a : Nat → Option Resp} {t : Nat → Nat}
    (h : Inv c a t) (hf : c.stream.failed = false)
    (hidle : ∀ j ∈ c.outstandingReplies, (c.objects j).Idle) {size : Nat}
    (hcap : c.buffer.capacity = size) (hmark : c.buffer.marked = 0) (hmulti : multi.Fits size)
    {r : Request} (hr : r.Fits size) {cmds : List Queued}
    (hfit : ∀ m ∈ cmds, m.request.Fits size) {state : TransactionState} (hstate : state ≠ .dirty)
    {reply : Bytes} {is : Stream} (hread : ∀ gap, Gap gap → readQueued cmds.length state
      ⟨gap ++ okText ++ (List.replicate cmds.length queuedText).flatten ++ reply, false⟩ =
        (.ok (), is)) (f : Queued → Bytes) (is₀ : Stream) :
    ∃ d, c.inTransaction (fun c q => c.finishTransaction state r q reply) cmds = (.ok (), d) ∧
      Alike d (Connection.plain f cmds
        { c with stream := is₀, constructed := c.constructed + 1 }) ∧ d.stream = is := by
  obtain ⟨b, hbegin, hin⟩ := beginTransaction_inBlock h hf hidle hcap hmark hmulti is₀
  obtain ⟨b', henq, hin'⟩ := hin.enqueue hfit f
  rw [Nat.zero_add] at hin'
  obtain ⟨d, hfinish, halike, hs⟩ := hin'.finish hr hstate hread
  exact ⟨_, by simp only [Connection.inTransaction, hbegin, henq, hfinish], halike, hs⟩

/-! ## Commit -/

/-- Objects with nothing to read do not care what is on the wire. -/
theorem Inv.quiet {c : Connection} {a : Nat → Option Resp} {t : Nat → Nat} (h : Inv c a t)
    (hf : c.stream.failed = false) (hidle : ∀ j ∈ c.outstandingReplies, (c.objects j).Idle)
    {gap : Bytes} (hgap : Gap gap) :
    Inv { c with stream := ⟨gap, false⟩, constructed := c.constructed + 1 } a t := by
  have hquiet : c.outstandingReplies.flatMap (fun j => unread (c.objects j) (a j)) = [] := by
    simp only [List.flatMap_eq_nil_iff]
    intro j hj
    exact (h.live hf j).unread_of_idle (hidle j hj)
  exact ⟨h.nodup, fun j hj => Nat.lt_succ_of_lt (h.bound j hj),
    fun j hj => h.absent j (Nat.le_of_succ_le hj), h.linked, h.owns, fun _ => h.live hf,
    fun _ => ⟨gap, hgap, by simp only [hquiet, List.append_nil]⟩, h.settled, h.outside⟩

/-- Commands outside of a transaction keep the replies apart. -/
theorem plain_inv {c : Connection} {a : Nat → Option Resp} {t : Nat → Nat} (h : Inv c a t)
    {cmds : List Queued} (hans : ∀ m ∈ cmds, m.cls.Accepts m.answer ∧ m.answer.WellFormed) :
    Inv (c.plain (fun m => m.answer.text) cmds) (answers a c.constructed cmds) t ∧
      (c.plain (fun m => m.answer.text) cmds).stream =
        ⟨c.stream.input ++ cmds.flatMap fun m => m.answer.text, c.stream.failed⟩ := by
  induction cmds generalizing c a with
  | nil => exact ⟨h, by simp [Connection.plain]⟩
  | cons m cmds ih =>
    have hm := hans m List.mem_cons_self
    have hone := construct_inv h m.cls m.answer.text (some m.answer)
      fun _ => ⟨m.answer, rfl, rfl, hm⟩
    obtain ⟨hinv, hs⟩ := ih hone fun m' hm' => hans m' (List.mem_cons_of_mem _ hm')
    have hcon : ((c.construct m.cls.fresh).arrive m.answer.text).constructed =
        c.constructed + 1 := by
      simp only [Connection.arrive, Connection.withStream, Connection.construct]
    have hstream : ((c.construct m.cls.fresh).arrive m.answer.text).stream =
        ⟨c.stream.input ++ m.answer.text, c.stream.failed⟩ := by
      simp only [Connection.arrive, Connection.withStream, Connection.construct, h.outside,
        Connection.put]
    rw [hcon] at hinv
    rw [hstream] at hs
    exact ⟨hinv, by simpa [Connection.plain] using hs⟩

/-- The objects of commands issued outside of a transaction. -/
theorem plain_objects (f : Queued → Bytes) (cmds : List Queued) {c : Connection}
    (h : c.transaction = none) :
    (∀ j, j < c.constructed → (c.plain f cmds).objects j = c.objects j) ∧
      (∀ i m, cmds[i]? = some m →
        (c.plain f cmds).objects (c.constructed + i) = ⟨true, m.cls.fresh⟩) ∧
      (c.plain f cmds).outstandingReplies =
        c.outstandingReplies ++ List.range' c.constructed cmds.length ∧
      (c.plain f cmds).constructed = c.constructed + cmds.length ∧
      (c.plain f cmds).transaction = none := by
  induction cmds generalizing c with
  | nil => exact ⟨fun _ _ => rfl, by simp, by simp [Connection.plain], rfl, h⟩
  | cons m cmds ih =>
    have hcon : (c.construct m.cls.fresh).arrive (f m) =
        { c.put c.constructed ⟨true, m.cls.fresh⟩ with
          stream := ⟨c.stream.input ++ f m, c.stream.failed⟩
          outstandingReplies := c.outstandingReplies ++ [c.constructed]
          constructed := c.constructed + 1 } := by
      rw [construct_outside h]
      rfl
    obtain ⟨hold, hnew, hout, hnum, htr⟩ := ih (c := (c.construct m.cls.fresh).arrive (f m))
      (by rw [hcon]; exact h)
    simp only [hcon, Connection.put] at hold hnew hout hnum htr
    simp only [Connection.plain, hcon, Connection.put]
    refine ⟨fun j hj => ?_, fun i m' hm' => ?_, ?_, ?_, htr⟩
    · exact (hold j (Nat.lt_succ_of_lt hj)).trans (Function.update_of_ne hj.ne _ _)
    · cases i with
      | zero =>
        cases hm'
        exact (hold _ (Nat.lt_succ_self _)).trans (Function.update_self ..)
      | succ i =>
        have hid := hnew i m' hm'
        rwa [Nat.add_right_comm, Nat.add_assoc] at hid
    · rw [hout, List.length_cons, List.range'_succ, List.append_assoc, List.singleton_append]
    · rw [hnum, List.length_cons]
      omega

/-- A committed transaction returns and keeps the replies apart. -/
theorem transact_inv {c : Connection} {a : Nat → Option Resp} {t : Nat → Nat}
    (h : Inv c a t) (hf : c.stream.failed = false)
    (hidle : ∀ j ∈ c.outstandingReplies, (c.objects j).Idle) {size : Nat}
    (hcap : c.buffer.capacity = size) (hmark : c.buffer.marked = 0) (hmulti : multi.Fits size)
    (hexec : exec.Fits size) {cmds : List Queued} (hfit : ∀ m ∈ cmds, m.request.Fits size)
    (hans : ∀ m ∈ cmds, m.cls.Accepts m.answer ∧ m.answer.WellFormed)
    (hlen : (cmds.length : Int) ≤ maxValue 64) : (c.transact cmds).1 = .ok () ∧
      Inv (c.transact cmds).2 (answers a (c.constructed + 1) cmds) t := by
  obtain ⟨d, hall, halike, hs⟩ := inTransaction_ends h hf hidle hcap hmark hmulti hexec hfit
    (by decide : TransactionState.committed ≠ .dirty)
    (fun gap hgap => readQueued_committed hgap cmds hlen) (fun m => m.answer.text) ⟨crlf, false⟩
  obtain ⟨hinv, hstream⟩ := plain_inv (h.quiet hf hidle gap_crlf) hans
  have htransact : c.transact cmds = (.ok (), d) := hall
  rw [htransact]
  exact ⟨rfl, hinv.congr (hs.trans hstream.symm) halike.links halike.objects halike.constructed
    halike.transaction⟩

/-- The replies to the commands of a transaction. -/
theorem answers_getElem {a : Nat → Option Resp} {id : Nat} {cmds : List Queued} :
    (∀ j, j < id → answers a id cmds j = a j) ∧
      ∀ i m, cmds[i]? = some m → answers a id cmds (id + i) = some m.answer := by
  induction cmds generalizing a id with
  | nil => exact ⟨fun _ _ => rfl, by simp⟩
  | cons m cmds ih =>
    obtain ⟨hold, hnew⟩ := @ih (Function.update a id (some m.answer)) (id + 1)
    refine ⟨fun j hj => ?_, fun i m' hm' => ?_⟩
    · exact (hold j (Nat.lt_succ_of_lt hj)).trans (Function.update_of_ne hj.ne _ _)
    · cases i with
      | zero =>
        cases hm'
        exact (hold _ (Nat.lt_succ_self _)).trans (Function.update_self ..)
      | succ i =>
        have hid := hnew i m' hm'
        rwa [Nat.add_right_comm, Nat.add_assoc] at hid

/-- A program may start the transaction: nothing is left to read, every command fits into the
buffer, and the server answers what the protocol allows. -/
structure Session.MayTransact (s : Session) (size : Nat) (cmds : List Queued) : Prop where
  sound : s.conn.stream.failed = false
  idle : ∀ j ∈ s.conn.outstandingReplies, (s.conn.objects j).Idle
  fits : ∀ r ∈ multi :: exec :: discard :: cmds.map Queued.request, r.Fits size
  answers : ∀ m ∈ cmds, m.cls.Accepts m.answer ∧ m.answer.WellFormed
  length : (cmds.length : Int) ≤ maxValue 64

section Runs

variable {bufferSize : Nat} {as : List Action} {s : Session}
  (h : Run step Keeps (Session.new bufferSize) as s) {cmds : List Queued}
  (hmay : s.MayTransact bufferSize cmds)

include h

/-- The buffer of a connection keeps its size and has no mark. -/
theorem run_buffer : s.conn.buffer.capacity = bufferSize ∧ s.conn.buffer.marked = 0 := by
  have hwired : Wired bufferSize s :=
    Run.invariant (P := Wired bufferSize) ⟨rfl, by simp [Session.new], rfl, rfl⟩
      (fun _ _ _ hw _ hstep => step_wired hw hstep) h
  exact ⟨hwired.capacity, hwired.marked⟩

include hmay

omit h in
theorem Session.MayTransact.request {m : Queued} (hm : m ∈ cmds) : m.request.Fits bufferSize :=
  hmay.fits _ (by simp only [List.mem_cons, List.mem_map]; exact .inr (.inr (.inr ⟨m, hm, rfl⟩)))

end Runs

/-- A transaction with two commands. -/
def sampleCommands : List Queued :=
  [⟨.single .int, ⟨ascii "Incr", [.string (ascii "a")]⟩, .integer 5⟩,
    ⟨.single .void, ⟨ascii "Set", [.string (ascii "b"), .string (ascii "c")]⟩,
      .status (ascii "OK")⟩]

theorem sampleCommands_may : (Session.new 4096).MayTransact 4096 sampleCommands := by
  refine ⟨rfl, fun j hj => absurd hj List.not_mem_nil, ?_, ?_, by decide⟩
  · have hfits : ∀ r ∈ multi :: exec :: discard :: sampleCommands.map Queued.request,
        ((r.execute (.new 4096)).1.toBool) = true := by decide +kernel
    intro r hr
    have hone := hfits r hr
    rw [Request.Fits]
    generalize (r.execute (.new 4096)).1 = res at hone ⊢
    cases res with
    | error e => cases hone
    | ok => rfl
  · simp only [sampleCommands, List.mem_cons, List.not_mem_nil, or_false]
    rintro m (rfl | rfl)
    · exact ⟨.inl rfl, by decide, by decide⟩
    · exact ⟨.inl rfl, (by decide : cr ∉ ascii "OK")⟩

/-- Executing a command touches the buffer and what went out only. -/
theorem executeCommand_frame (c : Connection) (r : Request) :
    (c.executeCommand r).2.stream = c.stream ∧ Alike (c.executeCommand r).2 c := by
  simp only [Connection.executeCommand]
  rcases r.execute c.buffer.resetToMark with ⟨e | ⟨⟩, b⟩
  · exact ⟨rfl, rfl, rfl, rfl, rfl⟩
  · split_ifs <;> exact ⟨rfl, rfl, rfl, rfl, rfl⟩

end AsioCoroFrame.Redispp
