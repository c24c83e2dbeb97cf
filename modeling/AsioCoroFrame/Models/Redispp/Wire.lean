import AsioCoroFrame.Models.Redispp.Isolation

/-!
# What goes out, and what a failed stream still does

Reading never writes: what has gone out is the text of the accepted commands,
one after the other, whatever the program does with the reply objects. Nothing
ever clears the state of the stream, so a connection that failed once neither
sends a command nor returns a reply again.
-/

namespace AsioCoroFrame.Redispp

/-- A change that sends nothing, and reads nothing from a failed stream. -/
structure Quiet (c c' : Connection) : Prop where
  sent : c'.sent = c.sent
  buffer : c'.buffer = c.buffer
  stream : c.stream.failed = true → c'.stream = c.stream

theorem Quiet.refl (c : Connection) : Quiet c c := ⟨rfl, rfl, fun _ => rfl⟩

theorem Quiet.trans {c c₁ c₂ : Connection} (h : Quiet c c₁) (h' : Quiet c₁ c₂) : Quiet c c₂ := by
  refine ⟨h'.sent.trans h.sent, h'.buffer.trans h.buffer, fun hf => ?_⟩
  have hs := h.stream hf
  rw [h'.stream (by rw [hs]; exact hf), hs]

theorem quiet_put (c : Connection) (id : Nat) (o : BaseReply) : Quiet c (c.put id o) :=
  ⟨rfl, rfl, fun _ => rfl⟩

theorem quiet_unlink (c : Connection) (id : Nat) : Quiet c (c.unlink id) :=
  ⟨rfl, rfl, fun _ => rfl⟩

theorem quiet_withStream {c : Connection} {s : Stream}
    (h : c.stream.failed = true → s = c.stream) : Quiet c (c.withStream s) := ⟨rfl, rfl, h⟩

theorem quiet_readSingle (c : Connection) (id : Nat) (k : Kind) (v : Value) :
    Quiet c (c.readSingle id k v).2 := by
  have hread (hf : c.stream.failed = true) : (k.read c.stream).2 = c.stream := by
    obtain ⟨e, he⟩ := k.read_failed hf
    rw [he]
  simp only [Connection.readSingle]
  rcases hone : k.read c.stream with ⟨e | w, s⟩ <;> rw [hone] at hread
  · exact (quiet_withStream hread).trans (quiet_put ..)
  · exact ((quiet_withStream hread).trans (quiet_put ..)).trans (quiet_unlink ..)

theorem quiet_nextElement (c : Connection) (id : Nat) (n : Int) :
    Quiet c (c.nextElement id n).2 := by
  have hread (hf : c.stream.failed = true) : (readBulkReply c.stream).2 = c.stream := by
    rw [readBulkReply_failed hf]
  simp only [Connection.nextElement]
  split_ifs
  · exact (quiet_put ..).trans (quiet_unlink ..)
  · rcases hone : readBulkReply c.stream with ⟨e | w, s⟩ <;> rw [hone] at hread
    · exact (quiet_withStream hread).trans (quiet_put ..)
    · exact (quiet_withStream hread).trans (quiet_put ..)

theorem quiet_readHeader (c : Connection) (id : Nat) (old : Int) :
    Quiet c (c.readHeader id old).2 := by
  have hread (hf : c.stream.failed = true) : (readBulkHeader 42 old c.stream).2.2 = c.stream := by
    rw [readBulkHeader_failed hf]
  simp only [Connection.readHeader]
  rcases hone : readBulkHeader 42 old c.stream with ⟨e | ⟨⟩, n, s⟩ <;> rw [hone] at hread
  · exact (quiet_withStream hread).trans (quiet_put ..)
  · simp only
    split_ifs
    · exact (quiet_withStream hread).trans (quiet_put ..)
    · exact ((quiet_withStream hread).trans (quiet_put ..)).trans (quiet_nextElement ..)

section Clear

variable {clear : Connection → Except Exception Unit × Connection}
  (hclear : ∀ c, Quiet c (clear c).2)

include hclear

theorem quiet_nextOptional (c : Connection) (id : Nat) : Quiet c (c.nextOptional clear id).2 := by
  rcases hobj : c.objects id with ⟨conn, b⟩
  cases b with
  | gone | single | queued =>
    simp only [Connection.nextOptional, hobj]
    exact .refl c
  | multi hd n p =>
    cases p with
    | cons x p =>
      simp only [Connection.nextOptional, hobj]
      exact quiet_put ..
    | nil =>
      cases conn with
      | false =>
        simp only [Connection.nextOptional, hobj]
        exact .refl c
      | true =>
        cases hd with
        | true =>
          simp only [Connection.nextOptional, hobj]
          exact quiet_nextElement ..
        | false =>
          have hc := hclear c
          simp only [Connection.nextOptional, hobj]
          rcases hone : clear c with ⟨e | ⟨⟩, c₁⟩ <;> rw [hone] at hc
          · exact hc
          · exact hc.trans (quiet_readHeader ..)

omit hclear in
theorem quiet_untilEnd {α : Type} {next : Connection → Except Exception (Option α) × Connection}
    (hnext : ∀ c, Quiet c (next c).2) (fuel : Nat) (c : Connection) :
    Quiet c (untilEnd next fuel c).2 := by
  induction fuel generalizing c with
  | zero => exact .refl c
  | succ fuel ih =>
    have hc := hnext c
    simp only [untilEnd]
    rcases hone : next c with ⟨e | (_ | x), c₁⟩ <;> rw [hone] at hc
    · exact hc
    · exact hc
    · have hrest := ih c₁
      simp only
      rcases hloop : untilEnd next fuel c₁ with ⟨e | xs, c₂⟩ <;> rw [hloop] at hrest
      · exact hc.trans hrest
      · exact hc.trans hrest

omit hclear in
theorem quiet_splicePending (c : Connection) (id : Nat) (xs : List (Option Bytes)) :
    Quiet c (c.splicePending id xs) := by
  unfold Connection.splicePending
  split
  · exact quiet_put ..
  · exact .refl c

omit hclear in
theorem readQueued_failed (n : Nat) (state : TransactionState) {s : Stream}
    (h : s.failed = true) : (readQueued n state s).2 = s := by
  simp only [readQueued, readStatuses, readStatusCodeReply_failed h]

theorem quiet_readResult (c : Connection) (id : Nat) : Quiet c (c.readResult clear id).2 := by
  rcases hobj : c.objects id with ⟨conn, b⟩
  cases conn with
  | false =>
    rw [readResult_idle (by rw [hobj]; exact idle_of_conn)]
    exact .refl c
  | true =>
    cases b with
    | gone =>
      simp only [Connection.readResult, hobj]
      exact .refl c
    | single k v =>
      have hc := hclear c
      simp only [Connection.readResult, hobj]
      rcases hone : clear c with ⟨e | ⟨⟩, c₁⟩ <;> rw [hone] at hc
      · exact hc
      · exact hc.trans (quiet_readSingle ..)
    | multi hd n p =>
      have hloop := quiet_untilEnd (quiet_nextOptional hclear · id) (c.rounds p) c
      simp only [Connection.readResult, hobj]
      split_ifs
      · rcases hone : untilEnd (Connection.nextOptional clear id) (c.rounds p) c with
          ⟨e | xs, c₁⟩ <;> rw [hone] at hloop
        · exact hloop
        · exact hloop.trans (quiet_splicePending ..)
      · exact .refl c
    | queued n state =>
      have hread := readQueued_failed n state (s := c.stream)
      simp only [Connection.readResult, hobj]
      rcases hone : readQueued n state c.stream with ⟨e | ⟨⟩, s⟩ <;> rw [hone] at hread
      · exact (quiet_withStream hread).trans (quiet_put ..)
      · exact (quiet_withStream hread).trans (quiet_put ..)

end Clear

theorem quiet_clearBefore (l : List Nat) (c : Connection) : Quiet c (c.clearBefore l).2 := by
  induction l generalizing c with
  | nil => exact .refl c
  | cons id before ih =>
    have hc := ih c
    simp only [Connection.clearBefore]
    rcases hone : c.clearBefore before with ⟨e | ⟨⟩, c₁⟩ <;> rw [hone] at hc
    · exact hc
    · exact hc.trans (quiet_readResult ih ..)

theorem quiet_clearPendingResults (id : Nat) (c : Connection) :
    Quiet c (c.clearPendingResults id).2 := quiet_clearBefore _ c

theorem quiet_result (c : Connection) (id : Nat) : Quiet c (c.result id).2 := by
  have hc := quiet_readResult (quiet_clearPendingResults id) c id
  simp only [Connection.result]
  rcases hone : c.readResult (Connection.clearPendingResults id) id with ⟨e | ⟨⟩, c₁⟩ <;>
    rw [hone] at hc
  · exact hc
  · simp only
    split <;> exact hc

theorem quiet_next (c : Connection) (id : Nat) : Quiet c (c.next id).2 :=
  quiet_nextOptional (quiet_clearPendingResults id) c id

theorem quiet_nextString (id : Nat) (c : Connection) : Quiet c (c.nextString id).2 := by
  have hc := quiet_next c id
  simp only [Connection.nextString]
  rcases hone : c.next id with ⟨e | (_ | (_ | b)), c₁⟩ <;> rw [hone] at hc <;> exact hc

theorem quiet_takePlace (c : Connection) (src dst : Nat) : Quiet c (c.takePlace src dst) := by
  unfold Connection.takePlace
  split_ifs
  · exact ⟨rfl, rfl, fun _ => rfl⟩
  · exact quiet_unlink ..

theorem quiet_copy (c : Connection) (src : Nat) : Quiet c (c.copy src) :=
  have h := (quiet_takePlace c src c.constructed).trans (quiet_put _ src
    ⟨false, (c.objects src).body.copied⟩)
  ⟨h.sent, h.buffer, h.stream⟩

theorem quiet_moveInto (c : Connection) (dst src : Nat) : Quiet c (c.moveInto dst src) :=
  (((quiet_unlink c dst).trans (quiet_takePlace ..)).trans (quiet_put ..)).trans (quiet_put ..)

theorem quiet_assign (c : Connection) (dst src : Nat) : Quiet c (c.assign dst src).2 := by
  unfold Connection.assign
  split
  · have hc := quiet_result c dst
    rcases hone : c.result dst with ⟨e | v, c₁⟩ <;> rw [hone] at hc
    · exact hc
    · exact hc.trans (quiet_moveInto ..)
  · rename_i p hobj
    split_ifs
    · have hc := quiet_untilEnd (quiet_nextString dst) (c.rounds p) c
      rcases hone : untilEnd (Connection.nextString dst) (c.rounds p) c with ⟨e | xs, c₁⟩ <;>
        rw [hone] at hc
      · exact hc
      · exact hc.trans (quiet_moveInto ..)
    · exact quiet_moveInto ..
  · exact .refl c

theorem quiet_destroy (c : Connection) (id : Nat) : Quiet c (c.destroy id) := by
  have hfinish : Quiet c (c.finish id) := by
    unfold Connection.finish
    split
    · exact quiet_result c id
    · split_ifs
      · exact quiet_untilEnd (quiet_nextString id) _ c
      · exact .refl c
    · exact .refl c
  exact (hfinish.trans (quiet_unlink ..)).trans (quiet_put ..)

/-! ## What has gone out -/

/-- What has gone out is the text of the accepted commands, whose words fit the buffer. -/
structure Wired (size : Nat) (s : Session) : Prop where
  sent : s.conn.sent = s.accepted.flatMap Request.text
  fits : ∀ r ∈ s.accepted, r.cmdName.length < size ∧ ∀ a ∈ r.args, a.bytes.length < size
  capacity : s.conn.buffer.capacity = size
  marked : s.conn.buffer.marked = 0

/-- A step that only reads leaves what has gone out. -/
theorem Wired.quiet {size : Nat} {s s' : Session} (h : Wired size s) (hq : Quiet s.conn s'.conn)
    (ha : s'.accepted = s.accepted) : Wired size s' :=
  ⟨by rw [hq.sent, ha]; exact h.sent, by rw [ha]; exact h.fits, by rw [hq.buffer]; exact h.capacity,
    by rw [hq.buffer]; exact h.marked⟩

/-- Every step but a command only reads. -/
theorem step_quiet {s s' : Session} {act : Action} (hstep : step s act = some s')
    (hissue : ∀ cls r ans, act ≠ .issue cls r ans) :
    Quiet s.conn s'.conn ∧ s'.accepted = s.accepted := by
  cases act with
  | issue cls r ans => exact absurd rfl (hissue cls r ans)
  | result id =>
    simp only [step] at hstep
    split at hstep
    · cases hstep
      exact ⟨quiet_result .., rfl⟩
    · cases hstep
  | next id =>
    have hq := quiet_next s.conn id
    simp only [step] at hstep
    split at hstep
    · rcases hone : s.conn.next id with ⟨e | (_ | x), c⟩ <;> rw [hone] at hstep hq <;>
        cases hstep <;> exact ⟨hq, rfl⟩
    · cases hstep
  | copy src =>
    simp only [step] at hstep
    split_ifs at hstep
    cases hstep
    exact ⟨quiet_copy .., rfl⟩
  | assign dst src =>
    have hq := quiet_assign s.conn dst src
    simp only [step] at hstep
    split_ifs at hstep
    rcases hone : s.conn.assign dst src with ⟨e | ⟨⟩, c⟩ <;> rw [hone] at hstep hq <;>
      cases hstep <;> exact ⟨hq, rfl⟩
  | destroy id =>
    simp only [step] at hstep
    split_ifs at hstep
    cases hstep
    exact ⟨quiet_destroy .., rfl⟩

theorem construct_sent (c : Connection) (b : Body) : (c.construct b).sent = c.sent := by
  simp only [Connection.construct]
  split
  · rfl
  · split <;> rfl

theorem construct_buffer (c : Connection) (b : Body) : (c.construct b).buffer = c.buffer := by
  simp only [Connection.construct]
  split
  · rfl
  · split <;> rfl

theorem construct_stream (c : Connection) (b : Body) : (c.construct b).stream = c.stream := by
  simp only [Connection.construct]
  split
  · rfl
  · split <;> rfl

/-- A command goes out whole or not at all. -/
theorem step_wired {size : Nat} {s s' : Session} {act : Action} (h : Wired size s)
    (hstep : step s act = some s') : Wired size s' := by
  by_cases hissue : ∀ cls r ans, act ≠ .issue cls r ans
  · obtain ⟨hq, ha⟩ := step_quiet hstep hissue
    exact h.quiet hq ha
  · obtain ⟨cls, r, ans, rfl⟩ : ∃ cls r ans, act = .issue cls r ans := by simpa using hissue
    have hframe := r.execute_frame s.conn.buffer.resetToMark
    have hempty : s.conn.buffer.resetToMark.data = [] := by
      simp [Buffer.resetToMark, h.marked]
    simp only [step, Connection.executeCommand] at hstep
    rcases hexec : r.execute s.conn.buffer.resetToMark with ⟨e | ⟨⟩, b⟩
    · rw [hexec] at hstep hframe
      cases hstep
      exact ⟨h.sent, h.fits, hframe.2.trans h.capacity, hframe.1.trans h.marked⟩
    · obtain ⟨hdata, hname, hargs⟩ := Request.execute_ok hexec
      rw [hempty, List.nil_append] at hdata
      have hcap : s.conn.buffer.resetToMark.capacity = size := h.capacity
      rw [hcap] at hname hargs
      rw [hexec] at hstep hframe
      have hcapacity : b.capacity = size := hframe.2.trans h.capacity
      have hmarked : b.marked = 0 := hframe.1.trans h.marked
      by_cases hf : s.conn.stream.failed = true
      · simp only [hf, if_true, Option.some.injEq] at hstep
        subst hstep
        exact ⟨(construct_sent ..).trans h.sent, h.fits,
          (congrArg Buffer.capacity (construct_buffer ..)).trans hcapacity,
          (congrArg Buffer.marked (construct_buffer ..)).trans hmarked⟩
      · simp only [hf, Bool.false_eq_true, if_false, Option.some.injEq] at hstep
        subst hstep
        have hbuffer := construct_buffer { s.conn with buffer := b, sent := s.conn.sent ++ b.data }
          cls.fresh
        have hsent := construct_sent { s.conn with buffer := b, sent := s.conn.sent ++ b.data }
          cls.fresh
        refine ⟨?_, ?_, (congrArg Buffer.capacity hbuffer).trans hcapacity,
          (congrArg Buffer.marked hbuffer).trans hmarked⟩
        · refine hsent.trans ?_
          simp [hdata, h.sent]
        · intro r' hr'
          rcases List.mem_append.mp hr' with hr' | hr'
          · exact h.fits r' hr'
          · rw [List.mem_singleton.mp hr']
            exact ⟨hname, hargs⟩

/-- Nothing is read from a failed stream, and nothing goes out on it. -/
theorem step_failed {s s' : Session} {act : Action} (hf : s.conn.stream.failed = true)
    (hstep : step s act = some s') :
    s'.conn.stream = s.conn.stream ∧ s'.conn.sent = s.conn.sent := by
  by_cases hissue : ∀ cls r ans, act ≠ .issue cls r ans
  · obtain ⟨hq, -⟩ := step_quiet hstep hissue
    exact ⟨hq.stream hf, hq.sent⟩
  · obtain ⟨cls, r, ans, rfl⟩ : ∃ cls r ans, act = .issue cls r ans := by simpa using hissue
    simp only [step, Connection.executeCommand] at hstep
    rcases hexec : r.execute s.conn.buffer.resetToMark with ⟨e | ⟨⟩, b⟩ <;> rw [hexec] at hstep
    · cases hstep
      exact ⟨rfl, rfl⟩
    · simp only [hf, if_true, Option.some.injEq] at hstep
      subst hstep
      exact ⟨construct_stream .., construct_sent ..⟩

/-- A waiting object raises on a failed stream. -/
theorem result_failed {c : Connection} {id : Nat} {k : Kind} {v : Value}
    (hf : c.stream.failed = true) (hobj : c.objects id = ⟨true, .single k v⟩) :
    ∃ e, (c.result id).1 = .error e := by
  have hq := quiet_clearPendingResults id c
  rcases hclear : c.clearPendingResults id with ⟨e | ⟨⟩, c₁⟩
  · exact ⟨e, by simp only [Connection.result, Connection.readResult, hobj, hclear]⟩
  · rw [hclear] at hq
    obtain ⟨e, he⟩ := k.read_failed (s := c₁.stream) (by rw [hq.stream hf]; exact hf)
    exact ⟨e, by simp only [Connection.result, Connection.readResult, hobj, hclear,
      Connection.readSingle, he]⟩

/-- An outstanding enumerator gives no element on a failed stream. -/
theorem next_failed {c : Connection} {id : Nat} {hd : Bool} {n : Int}
    (hf : c.stream.failed = true) (hobj : c.objects id = ⟨true, .multi hd n []⟩)
    (x : Option Bytes) : (c.next id).1 ≠ .ok (some x) := by
  cases hd with
  | true =>
    simp only [next_behind hobj, Connection.nextElement]
    split_ifs
    · simp
    · simp [readBulkReply_failed hf]
  | false =>
    have hq := quiet_clearPendingResults id c
    simp only [Connection.next, Connection.nextOptional, hobj]
    rcases hclear : c.clearPendingResults id with ⟨e | ⟨⟩, c₁⟩
    · simp
    · rw [hclear] at hq
      have hf₁ : c₁.stream.failed = true := by rw [hq.stream hf]; exact hf
      simp [Connection.readHeader, readBulkHeader_failed hf₁]

/-- Reading an error in the place of anything but a status fails the stream. -/
theorem result_error_fails {c : Connection} {a : Nat → Option Resp} {t : Nat → Nat}
    (h : Inv c a t) {id : Nat} {k : Kind} {v : Value} (hk : k ≠ .void)
    (hobj : c.objects id = ⟨true, .single k v⟩) {e : Bytes} (ha : a id = some (.error e))
    (hfront : c.FrontGood a id) : (c.result id).2.stream.failed = true := by
  by_cases hf : c.stream.failed = true
  · rw [(quiet_result c id).stream hf]
    exact hf
  · have hf : c.stream.failed = false := by simpa using hf
    have hclears := clearPendingResults_clears h id
    have hok : (c.clearPendingResults id).1 = .ok () :=
      (hclears.ok_iff hf).mpr fun j hj => hfront j (List.mem_reverse.mp hj)
    rcases hclear : c.clearPendingResults id with ⟨e' | ⟨⟩, c₁⟩
    · rw [hclear] at hok
      cases hok
    · rw [hclear] at hclears
      obtain ⟨hid, pre, post, hout, hidle⟩ := hclears.front h.nodup (h.linked id (by rw [hobj]))
      rw [hobj] at hid
      have hf₁ := hclears.sound rfl hf
      obtain ⟨r, hr, -, hwf⟩ := hclears.inv.answer_of_waiting hf₁ hid
      rw [ha] at hr
      cases hr
      obtain ⟨gap, hgap, hin⟩ := hclears.inv.input_eq hout hidle hf₁
      have hun : unread (c₁.objects id) (a id) = (Resp.error e).text := by
        rw [hid, ha]
        rfl
      rw [hun] at hin
      have hfail := Kind.read_error_fails hk hwf hgap
        (post.flatMap fun j => unread (c₁.objects j) (a j))
      rw [← hin] at hfail
      simp only [Connection.result, Connection.readResult, hobj, hclear, Connection.readSingle]
      rcases hread : k.read c₁.stream with ⟨e | w, s⟩
      · rw [hread] at hfail
        exact hfail
      · rw [hread] at hfail
        simp only [Connection.unlink_objects, Connection.put_objects, Function.update_self]
        exact hfail

/-- A command answered with an error. -/
def refused : Action :=
  .issue (.single .int) ⟨ascii "Incr", [.string (ascii "a")]⟩ (.error (ascii "ERR"))

/-- The error has been read. -/
def refusedRead : Session := ((Session.new 4096).after [refused]).after [.result 0]

end AsioCoroFrame.Redispp
