import AsioCoroFrame.Models.Redispp.Isolation

/-!
# Replies that nobody reads

A destructor takes its object off the list even where it has not read the
reply. Such a reply stays on the wire and is read by the next object as its
own. This happens to an enumerator that was never touched, and to a result that
waits behind an error status.
-/

namespace AsioCoroFrame.Redispp

/-- The object leaves the list and the program. -/
def Connection.drop (c : Connection) (id : Nat) : Connection :=
  (c.unlink id).put id ⟨false, .gone⟩

/-- A computation on connections that does not notice whether an object was dropped before. -/
def Blind {α : Type} (id : Nat) (f : Connection → α × Connection) : Prop :=
  ∀ c, f (c.drop id) = ((f c).1, (f c).2.drop id)

section Drop

variable {id j : Nat} (hne : j ≠ id)

include hne

theorem drop_objects (c : Connection) : (c.drop id).objects j = c.objects j :=
  Function.update_of_ne hne _ _

theorem drop_put (c : Connection) (o : BaseReply) :
    (c.drop id).put j o = (c.put j o).drop id := by
  simp only [Connection.drop, Connection.put, Connection.unlink]
  rw [Function.update_comm hne]

omit hne in
theorem drop_unlink (c : Connection) (j : Nat) :
    (c.drop id).unlink j = (c.unlink j).drop id := by
  simp only [Connection.drop, Connection.put, Connection.unlink, List.filter_filter]
  simp only [Bool.and_comm]

omit hne in
theorem drop_withStream (c : Connection) (s : Stream) :
    (c.drop id).withStream s = (c.withStream s).drop id := rfl

omit hne in
theorem drop_stream (c : Connection) : (c.drop id).stream = c.stream := rfl

theorem readSingle_blind (k : Kind) (v : Value) : Blind id (·.readSingle j k v) := by
  intro c
  simp only [Connection.readSingle, drop_stream]
  rcases k.read c.stream with ⟨e | w, s⟩ <;>
    simp only [drop_withStream, drop_put hne, drop_unlink]

theorem nextElement_blind (n : Int) : Blind id (·.nextElement j n) := by
  intro c
  simp only [Connection.nextElement, drop_stream]
  split_ifs
  · simp only [drop_put hne, drop_unlink]
  · rcases readBulkReply c.stream with ⟨e | w, s⟩ <;>
      simp only [drop_withStream, drop_put hne]

theorem readHeader_blind (n : Int) : Blind id (·.readHeader j n) := by
  intro c
  simp only [Connection.readHeader, drop_stream]
  rcases readBulkHeader 42 n c.stream with ⟨e | ⟨⟩, m, s⟩
  · simp only [drop_withStream, drop_put hne]
  · simp only
    split_ifs
    · simp only [drop_withStream, drop_put hne]
    · simp only [drop_withStream, drop_put hne]
      exact nextElement_blind hne m _

theorem splicePending_drop (c : Connection) (xs : List (Option Bytes)) :
    (c.drop id).splicePending j xs = (c.splicePending j xs).drop id := by
  simp only [Connection.splicePending, drop_objects hne]
  rcases c.objects j with ⟨conn, b⟩
  cases b with
  | multi => exact drop_put hne ..
  | gone | single | queued => rfl

omit hne in
theorem untilEnd_blind {α : Type} {next : Connection → Except Exception (Option α) × Connection}
    (hnext : Blind id next) (fuel : Nat) : Blind id (untilEnd next fuel) := by
  induction fuel with
  | zero => exact fun _ => rfl
  | succ fuel ih =>
    intro c
    simp only [untilEnd, hnext c]
    rcases next c with ⟨e | (_ | x), c₁⟩
    · rfl
    · rfl
    · simp only [ih c₁]
      rcases untilEnd next fuel c₁ with ⟨e | xs, c₂⟩ <;> rfl

section Clear

variable {clear : Connection → Except Exception Unit × Connection} (hclear : Blind id clear)

include hclear

theorem nextOptional_blind : Blind id (Connection.nextOptional clear j) := by
  intro c
  simp only [Connection.nextOptional, drop_objects hne]
  rcases c.objects j with ⟨conn, b⟩
  cases b with
  | gone | single | queued => cases conn <;> rfl
  | multi hd n p =>
    cases p with
    | cons x p => simp only [drop_put hne]
    | nil =>
      cases conn with
      | false => cases hd <;> rfl
      | true =>
        cases hd with
        | true => exact nextElement_blind hne n c
        | false =>
          simp only [hclear c]
          rcases clear c with ⟨e | ⟨⟩, c₁⟩
          · rfl
          · exact readHeader_blind hne n c₁

theorem readResult_blind : Blind id (Connection.readResult clear j) := by
  intro c
  simp only [Connection.readResult, drop_objects hne]
  rcases c.objects j with ⟨_ | _, b⟩
  · cases b <;> rfl
  · cases b with
    | gone => rfl
    | single k v =>
      simp only [hclear c]
      rcases clear c with ⟨e | ⟨⟩, c₁⟩
      · rfl
      · exact readSingle_blind hne k v c₁
    | multi hd n p =>
      simp only
      split_ifs
      · have hloop := untilEnd_blind (nextOptional_blind hne hclear) (c.rounds p) c
        have hrounds : (c.drop id).rounds p = c.rounds p := rfl
        rw [hrounds, hloop]
        rcases untilEnd (Connection.nextOptional clear j) (c.rounds p) c with ⟨e | xs, c₁⟩
        · rfl
        · simp only [splicePending_drop hne]
      · rfl
    | queued n st =>
      simp only [drop_stream]
      rcases readQueued n st c.stream with ⟨e | ⟨⟩, s⟩ <;>
        simp only [drop_withStream, drop_put hne]

end Clear

omit hne in
/-- Clearing other objects does not notice that one was dropped. -/
theorem clearBefore_blind {l : List Nat} (hl : id ∉ l) : Blind id (Connection.clearBefore l) := by
  induction l with
  | nil => exact fun _ => rfl
  | cons x before ih =>
    obtain ⟨hx, hbefore⟩ := List.ne_and_not_mem_of_not_mem_cons hl
    have ih := ih hbefore
    intro c
    simp only [Connection.clearBefore, ih c]
    rcases Connection.clearBefore before c with ⟨e | ⟨⟩, c₁⟩
    · rfl
    · exact readResult_blind hx.symm ih c₁

end Drop

/-- Where an object is dropped, the one behind it reads what was meant for the other. -/
theorem result_after_drop {c : Connection} {a : Nat → Option Resp} {t : Nat → Nat} (h : Inv c a t)
    {id j : Nat} {pre post : List Nat} (hout : c.outstandingReplies = pre ++ id :: j :: post)
    {k : Kind} {v : Value} (hobj : c.objects j = ⟨true, .single k v⟩)
    (hf : c.stream.failed = false)
    (hfront : c.FrontGood a id) {w : Value}
    (hread : ∀ gap rest, Gap gap →
      (k.read ⟨gap ++ unread (c.objects id) (a id) ++ rest, false⟩).1 = .ok w) :
    ((c.drop id).result j).1 = .ok w := by
  have hnodup := h.nodup
  rw [hout, List.nodup_append, List.nodup_cons, List.mem_cons, not_or] at hnodup
  obtain ⟨-, ⟨⟨hne, -⟩, -⟩, hdisj⟩ := hnodup
  have hpre : id ∉ pre := fun hm => hdisj id hm id List.mem_cons_self rfl
  have hprej : j ∉ pre := fun hm => hdisj j hm j (by simp) rfl
  have hin : c.inFront id = pre := by
    rw [Connection.inFront, hout, takeWhile_eq_of_split hpre]
  have hinj : (c.drop id).inFront j = pre := by
    have hlist : (c.drop id).outstandingReplies = (pre ++ id :: j :: post).filter (· ≠ id) :=
      congrArg _ hout
    rw [Connection.inFront, hlist, List.filter_append, List.filter_cons_of_neg (by simp),
      List.filter_cons_of_pos (by simpa using Ne.symm hne),
      List.filter_eq_self.mpr fun x hx => by simpa using ne_of_mem_of_not_mem hx hpre]
    exact takeWhile_eq_of_split hprej
  have hclears := clearPendingResults_clears h id
  have hok : (c.clearPendingResults id).1 = .ok () :=
    (hclears.ok_iff hf).mpr fun x hx => hfront x (List.mem_reverse.mp hx)
  rcases hclear : c.clearPendingResults id with ⟨e | ⟨⟩, c₁⟩
  · rw [hclear] at hok
    cases hok
  · rw [hclear] at hclears
    have hmem : id ∈ c.outstandingReplies := by simp [hout]
    obtain ⟨hid, pre₁, post₁, hout₁, hidle⟩ := hclears.front h.nodup hmem
    obtain ⟨gap, hgap, hs⟩ := hclears.inv.input_eq hout₁ hidle (hclears.sound rfl hf)
    have hsame : (c.drop id).clearPendingResults j = (.ok (), c₁.drop id) := by
      have hblind := clearBefore_blind (show id ∉ pre.reverse by simpa using hpre) c
      have hc₁ : c.clearBefore pre.reverse = (.ok (), c₁) := by
        rw [← hclear, Connection.clearPendingResults, hin]
      rw [Connection.clearPendingResults, hinj, hblind, hc₁]
    have hone := hread gap (post₁.flatMap fun x => unread (c₁.objects x) (a x)) hgap
    rw [hid] at hs
    rw [← hs] at hone
    have hobj' : (c.drop id).objects j = ⟨true, .single k v⟩ :=
      (drop_objects (Ne.symm hne) c).trans hobj
    rcases hval : k.read c₁.stream with ⟨e | w', s⟩
    · rw [hval] at hone
      cases hone
    · rw [hval] at hone
      cases hone
      simp only [Connection.result, Connection.readResult, hobj', hsame, Connection.readSingle,
        drop_stream, hval, Connection.unlink_objects, Connection.put_objects,
        Function.update_self]

/-! ## An enumerator that was never touched -/

/-- An integer reader takes the number of elements for its reply: it does not look at the code. -/
theorem Kind.read_count {k : Kind} {es : List (Option Bytes)} {w : Value}
    (hw : k.value (.integer es.length) = some w) (hes : (Resp.multi (some es)).WellFormed)
    {g : Bytes} (hg : Gap g) (rest : Bytes) :
    (k.read ⟨g ++ (Resp.multi (some es)).text ++ rest, false⟩).1 = .ok w := by
  have hmax : (es.length : Int) ≤ maxValue 64 := le_trans hes.1 (by decide)
  have hcount : minValue 64 ≤ (es.length : Int) ∧ (es.length : Int) ≤ maxValue 64 :=
    ⟨minValue_le_natCast 64 es.length, hmax⟩
  have hstar : isSpace 42 = false := by decide
  have hread : (readIntegerReply ⟨g ++ (Resp.multi (some es)).text ++ rest, false⟩).1 =
      .ok (es.length : Int) := by
    have hcode := readIntegerReply_code hg (elementsText es ++ rest) hstar hcount
    have htext : (Resp.multi (some es)).text ++ rest =
        42 :: (intText (es.length : Int) ++ crlf ++ (elementsText es ++ rest)) := by
      simp [Resp.text, intText]
    rw [List.append_assoc, htext, hcode]
  cases k with
  | void | string => cases hw
  | bool | int =>
    cases hw
    rcases hone : readIntegerReply ⟨g ++ (Resp.multi (some es)).text ++ rest, false⟩ with
      ⟨e | i, s⟩
    · rw [hone] at hread
      cases hread
    · rw [hone] at hread
      cases hread
      simp only [Kind.read, hone]

/-- The keys of a database that nobody looks at, and a counter. -/
def unseenKeys : List Action :=
  [.issue .multi ⟨ascii "Keys", [.string (ascii "*")]⟩ (.multi (some [none, none, none])),
    .issue (.single .int) ⟨ascii "Incr", [.string (ascii "a")]⟩ (.integer 70)]

/-- Clearing what is in front of an object stops at an error status, which has been read. -/
theorem clear_behind_error {c : Connection} {a : Nat → Option Resp} {t : Nat → Nat}
    (h : Inv c a t) (hf : c.stream.failed = false) {x y : Nat} {v : Value}
    (hx : c.objects x = ⟨true, .single .void v⟩) {e : Bytes} (hax : a x = some (.error e))
    (hfront : c.FrontGood a x) (hiny : c.inFront y = c.inFront x ++ [x]) :
    ∃ e' c', c.clearPendingResults y = (.error e', c') ∧ c'.stream.failed = false ∧
      (∀ j ∈ c.inFront y, (c'.objects j).Idle) ∧ Frame (c.inFront y) c c' := by
  have hmem : x ∈ c.outstandingReplies := h.linked x (by rw [hx])
  have hclears := clearPendingResults_clears h x
  have hok : (c.clearPendingResults x).1 = .ok () :=
    (hclears.ok_iff hf).mpr fun j hj => hfront j (List.mem_reverse.mp hj)
  rcases hclear : c.clearPendingResults x with ⟨e' | ⟨⟩, c₁⟩
  · rw [hclear] at hok
    cases hok
  · rw [hclear] at hclears
    obtain ⟨hid, pre, post, hout, hidle⟩ := hclears.front h.nodup hmem
    rw [hx] at hid
    have hf₁ : c₁.stream.failed = false := hclears.sound rfl hf
    obtain ⟨r, hr, -, hwell⟩ := hclears.inv.answer_of_waiting hf₁ hid
    rw [hax] at hr
    cases hr
    obtain ⟨gap, hgap, hs⟩ := hclears.inv.input_eq hout hidle hf₁
    have hun : unread (c₁.objects x) (a x) = (Resp.error e).text := by
      rw [hid, hax]
      rfl
    have hread := readStatusCodeReply_error hgap
      (post.flatMap fun j => unread (c₁.objects j) (a j)) hwell.1
    rw [← hun, ← hs] at hread
    have hidle₁ : ∀ j ∈ c.inFront x, (c₁.objects j).Idle := fun j hj =>
      hclears.idle rfl j (List.mem_reverse.mpr hj)
    have hclear' : c.clearBefore (c.inFront x).reverse = (.ok (), c₁) := hclear
    have hagain : c₁.clearBefore (c.inFront x).reverse = (.ok (), c₁) :=
      clearBefore_idle fun j hj => hidle₁ j (List.mem_reverse.mp hj)
    let is : Stream := ⟨lf :: post.flatMap (fun j => unread (c₁.objects j) (a j)), false⟩
    refine ⟨.runtime (ascii "read error response: " ++ e),
      (c₁.withStream is).put x ⟨false, .single .void v⟩, ?_, rfl, ?_, ?_⟩
    · rw [Connection.clearPendingResults, hiny, List.reverse_append, List.reverse_singleton,
        List.singleton_append, Connection.clearBefore, hclear']
      simp only [Connection.readResult, hid, hagain, Connection.readSingle, Kind.read, hread, is]
    · intro j hj
      rw [hiny, List.mem_append, List.mem_singleton] at hj
      rw [Connection.put_objects, Connection.withStream_objects]
      by_cases hjx : j = x
      · subst hjx
        rw [Function.update_self]
        exact idle_of_conn
      · rw [Function.update_of_ne hjx]
        exact hidle₁ j (hj.resolve_right hjx)
    · refine (hclears.frame.mono fun j hj => ?_).trans ((Moved.put c₁ _ x _).frame ?_)
      · rw [hiny]
        exact List.mem_append_left _ (List.mem_reverse.mp hj)
      · simp [hiny]

/-- A refused command and two values. -/
def refusedSelect : List Action :=
  [.issue (.single .void) ⟨ascii "Select", [.number 99]⟩ (.error (ascii "ERR")),
    .issue (.single .string) ⟨ascii "Get", [.string (ascii "a")]⟩ (.bulk (some (ascii "A"))),
    .issue (.single .string) ⟨ascii "Get", [.string (ascii "b")]⟩ (.bulk (some (ascii "B")))]

end AsioCoroFrame.Redispp
