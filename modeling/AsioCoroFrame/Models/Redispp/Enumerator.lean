import AsioCoroFrame.Models.Redispp.Reading

/-!
# Reading an enumerator element by element

The header of a multi bulk reply is read when the first element is asked for,
and every call of `nextOptional` takes one bulk reply. What an enumerator gives
away is the elements of its own reply, from the first on.
-/

namespace AsioCoroFrame.Redispp

/-! ## Reading an enumerator -/

/-- How many elements a call of `nextOptional` has given. -/
def given : Except Exception (Option (Option Bytes)) → Nat
  | .ok (some _) => 1
  | _ => 0

/-- What a call of `nextOptional` does to a connection: it gives the next element of its own
reply, as long as the stream is in order. -/
structure Takes (c : Connection) (a : Nat → Option Resp) (t : Nat → Nat) (id : Nat)
    (p : Except Exception (Option (Option Bytes)) × Connection) : Prop where
  inv : Inv p.2 a (Function.update t id (t id + given p.1))
  moved : ∃ o, Moved c p.2 id o ∧ o.body.cls = (c.objects id).body.cls
  failed : c.stream.failed = true → p.2.stream.failed = true
  value : c.stream.failed = false → ∀ es, a id = some (.multi (some es)) → p.1 = .ok es[t id]?
  sound : ∀ o, p.1 = .ok o → c.stream.failed = false → p.2.stream.failed = false

section Enumerator

variable {c : Connection} {a : Nat → Option Resp} {t : Nat → Nat} {id : Nat}
  {pre post : List Nat} (h : Inv c a t) (hout : c.outstandingReplies = pre ++ id :: post)
  (hidle : ∀ j ∈ pre, (c.objects j).Idle)

include h hout hidle

/-- An element behind its header. -/
theorem nextElement_takes {count : Int} (hobj : c.objects id = ⟨true, .multi true count []⟩) :
    Takes c a t id (c.nextElement id count) := by
  have hrest (k : Nat) : ∀ j, j ≠ id → Function.update t id (t id + k) j = t j :=
    fun j hj => Function.update_of_ne hj _ _
  by_cases hc : count ≤ 0
  · have heq : c.nextElement id count =
        (.ok none, ((c.withStream c.stream).put id ⟨false, .multi true count []⟩).unlink id) := by
      simp only [Connection.nextElement, hc, if_true]
      rfl
    have hm := Moved.put_unlink c c.stream id (.multi true count [])
    have hend (hf : c.stream.failed = false) : Live ⟨false, .multi true count []⟩ (a id) (t id) ∧
        ∀ es, a id = some (.multi (some es)) → es[t id]? = none := by
      have hlive := h.live hf id
      rw [hobj] at hlive
      generalize a id = ans at hlive
      generalize t id = m at hlive
      cases hlive with
      | @elements n es m hfit hlen =>
        have hdrop : ([] : List (Option Bytes)) = es.drop m :=
          (List.drop_eq_nil_of_le (by omega)).symm
        refine ⟨.spent hdrop, ?_⟩
        rintro es' he
        cases he
        exact List.getElem?_eq_none (by omega)
      | null hn =>
        refine ⟨.ended rfl fun _ es he => (by cases he), ?_⟩
        intro es he
        cases he
    rw [heq]
    refine ⟨?_, ⟨_, hm, by simp [hobj, Body.cls]⟩, fun hf => hf,
      fun hf es ha => by rw [(hend hf).2 es ha], fun _ _ hf => hf⟩
    refine h.advance hm hout hidle (fun hf => hf) ?_ ⟨by simp, .inl rfl⟩ (hrest 0)
      fun _ => idle_of_conn
    intro hf
    obtain ⟨gap, hgap, hin⟩ := h.input_eq hout hidle hf
    have hun : unread (c.objects id) (a id) = [] := by
      refine (h.live hf id).unread_of_idle fun _ => ⟨count, [], ?_, hc⟩
      rw [hobj]
    rw [hun, List.append_nil] at hin
    exact ⟨by simpa [given] using (hend hf).1, gap, hgap, by simp [hin]⟩
  · have hbusy {o : BaseReply} (hi : (c.objects id).Idle) : o.Idle := by
      rw [hobj, idle_multi] at hi
      exact absurd hi.2 hc
    by_cases hf : c.stream.failed = true
    · have heq : c.nextElement id count =
          (.error (.runtime (ascii "error reading bulk response header")),
            (c.withStream c.stream).put id ⟨true, .multi true (count - 1) []⟩) := by
        simp only [Connection.nextElement, hc, if_false, readBulkReply_failed hf]
      have hm := Moved.put c c.stream id ⟨true, .multi true (count - 1) []⟩
      rw [heq]
      refine ⟨?_, ⟨_, hm, by simp [hobj, Body.cls]⟩, fun hf => hf,
        fun hg => absurd hf (by simp [hg]), by simp⟩
      refine h.advance hm hout hidle (fun hf => hf) ?_ ⟨by simp, .inl rfl⟩ (hrest 0) hbusy
      intro hg
      exact absurd hf (by simpa using hg)
    · have hf : c.stream.failed = false := by simpa using hf
      obtain ⟨gap, hgap, hin⟩ := h.input_eq hout hidle hf
      obtain ⟨es, n, ha, rfl, hfit, hlen⟩ : ∃ es, ∃ n : Nat, a id = some (.multi (some es)) ∧
          count = (n : Int) ∧ (∀ s ∈ es, BulkFits s) ∧ t id + n = es.length := by
        have hlive := h.live hf id
        rw [hobj] at hlive
        generalize a id = ans at hlive
        generalize t id = m at hlive
        cases hlive with
        | @elements n es m hfit hlen => exact ⟨es, n, rfl, rfl, hfit, hlen⟩
        | null hn => omega
      have hlt : t id < es.length := by omega
      have hun : unread (c.objects id) (a id) =
          bulkText es[t id] ++ elementsText (es.drop (t id + 1)) := by
        have hk : es.length - n = t id := by omega
        rw [hobj, ha]
        simp only [unread, Int.toNat_natCast, hk, List.drop_eq_getElem_cons hlt, elementsText,
          List.flatMap_cons]
      rw [hun] at hin
      have hread := readBulkReply_bulk hgap (elementsText (es.drop (t id + 1)) ++
        post.flatMap fun j => unread (c.objects j) (a j)) (hfit _ (List.getElem_mem hlt))
      simp only [← List.append_assoc] at hread hin
      rw [← hin] at hread
      have heq : c.nextElement id n = (.ok (some es[t id]), (c.withStream ⟨crlf ++
          elementsText (es.drop (t id + 1)) ++ post.flatMap (fun j => unread (c.objects j) (a j)),
            false⟩).put id ⟨true, .multi true ((n - 1 : Nat) : Int) []⟩) := by
        have hn : (n : Int) - 1 = ((n - 1 : Nat) : Int) := by omega
        simp only [Connection.nextElement, hc, if_false, hread, hn]
      have hm := Moved.put c ⟨crlf ++ elementsText (es.drop (t id + 1)) ++
        post.flatMap (fun j => unread (c.objects j) (a j)), false⟩ id
          ⟨true, .multi true ((n - 1 : Nat) : Int) []⟩
      rw [heq]
      refine ⟨?_, ⟨_, hm, by simp [hobj, Body.cls]⟩, fun hc => absurd hc (by simp [hf]), ?_,
        by simp⟩
      · refine h.advance hm hout hidle (fun hc => absurd hc (by simp [hf])) ?_
          ⟨by simp, .inl rfl⟩ (hrest 1) hbusy
        intro _
        refine ⟨?_, crlf, gap_crlf, ?_⟩
        · rw [ha]
          simp only [given, Function.update_self]
          exact .elements hfit (by omega)
        · have hk : es.length - (n - 1) = t id + 1 := by omega
          rw [ha]
          simp only [Connection.put_stream, Connection.withStream_stream, unread,
            Int.toNat_natCast, hk]
      · intro _ es' ha'
        rw [ha] at ha'
        cases ha'
        rw [List.getElem?_eq_getElem hlt]

/-- The header of a reply with elements leaves the enumerator in front of them. -/
theorem readHeader_eq {old : Int} {es : List (Option Bytes)} (hf : c.stream.failed = false)
    (hobj : c.objects id = ⟨true, .multi false old []⟩) (ha : a id = some (.multi (some es))) :
    ∃ c₁, c₁ = (c.withStream ⟨crlf ++ elementsText es ++
        post.flatMap (fun j => unread (c.objects j) (a j)), false⟩).put id
          ⟨true, .multi true (es.length : Nat) []⟩ ∧
      c.readHeader id old = c₁.nextElement id (es.length : Nat) ∧ Inv c₁ a t ∧ t id = 0 := by
  have hlive := h.live hf id
  rw [hobj, ha] at hlive
  obtain ⟨hlen, hfit, hzero⟩ : (es.length : Int) ≤ maxValue 32 ∧ (∀ s ∈ es, BulkFits s) ∧
      t id = 0 := by
    generalize t id = m at hlive
    cases hlive with
    | header _ hr => exact ⟨hr.1, hr.2, rfl⟩
  obtain ⟨gap, hgap, hin⟩ := h.input_eq hout hidle hf
  have hun : unread (c.objects id) (a id) =
      42 :: (intText (es.length : Nat) ++ crlf ++ elementsText es) := by
    rw [hobj, ha]
    rfl
  have hstar : isSpace 42 = false := by decide
  have hread := readBulkHeader_count hgap (elementsText es ++
    post.flatMap fun j => unread (c.objects j) (a j)) hstar old
      ⟨minValue_le_natCast 32 es.length, hlen⟩
  have hstream : c.stream = ⟨gap ++ 42 :: (intText (es.length : Nat) ++ crlf ++
      (elementsText es ++ post.flatMap fun j => unread (c.objects j) (a j))), false⟩ := by
    rw [hin, hun]
    simp
  have hneg : ¬ ((es.length : Nat) : Int) < 0 := by omega
  have hbusy {o : BaseReply} (hi : (c.objects id).Idle) : o.Idle := by
    rw [hobj, idle_multi] at hi
    cases hi.1
  refine ⟨_, rfl, ?_, ?_, hzero⟩
  · simp only [Connection.readHeader, hstream, hread, hneg, if_false]
    rw [List.append_assoc]
  · have hm := Moved.put c ⟨crlf ++ elementsText es ++
      post.flatMap (fun j => unread (c.objects j) (a j)), false⟩ id
        ⟨true, .multi true (es.length : Nat) []⟩
    refine h.advance hm hout hidle (fun hc => absurd hc (by simp [hf])) ?_ ⟨by simp, .inl rfl⟩
      (fun _ _ => rfl) hbusy
    intro _
    refine ⟨?_, crlf, gap_crlf, ?_⟩
    · rw [ha, hzero]
      exact .elements hfit (Nat.zero_add _)
    · rw [ha]
      simp [unread]

/-- The header and the first element. -/
theorem readHeader_takes {old : Int} (hobj : c.objects id = ⟨true, .multi false old []⟩) :
    Takes c a t id (c.readHeader id old) := by
  have hsame : ∀ j, j ≠ id → Function.update t id (t id + 0) j = t j :=
    fun j hj => Function.update_of_ne hj _ _
  have hbusy {o : BaseReply} (hi : (c.objects id).Idle) : o.Idle := by
    rw [hobj, idle_multi] at hi
    cases hi.1
  by_cases hf : c.stream.failed = true
  · have heq : c.readHeader id old =
        (.error (.runtime (ascii "error reading bulk response header")),
          (c.withStream c.stream).put id ⟨true, .multi true old []⟩) := by
      simp only [Connection.readHeader, readBulkHeader_failed hf]
    have hm := Moved.put c c.stream id ⟨true, .multi true old []⟩
    rw [heq]
    refine ⟨?_, ⟨_, hm, by simp [hobj, Body.cls]⟩, fun hf => hf, fun hg => absurd hf (by simp [hg]),
        by simp⟩
    refine h.advance hm hout hidle (fun hf => hf) ?_ ⟨by simp, .inl rfl⟩ hsame hbusy
    intro hg
    exact absurd hf (by simpa using hg)
  · have hf : c.stream.failed = false := by simpa using hf
    obtain ⟨r, ha, hacc, hr⟩ : ∃ r, a id = some r ∧ MultiAccepts r ∧ r.WellFormed := by
      have hlive := h.live hf id
      rw [hobj] at hlive
      generalize a id = ans at hlive
      generalize t id = m at hlive
      cases hlive with
      | header hacc hr => exact ⟨_, rfl, hacc, hr⟩
    obtain ⟨gap, hgap, hin⟩ := h.input_eq hout hidle hf
    have hun : unread (c.objects id) (a id) = r.text := by
      rw [hobj, ha]
      rfl
    rw [hun] at hin
    rcases hacc with ⟨_ | es, rfl⟩ | ⟨s, rfl⟩
    · have hstar : isSpace 42 = false := by decide
      have hread := readBulkHeader_count hgap
        (post.flatMap fun j => unread (c.objects j) (a j)) hstar old
        (by decide : minValue 32 ≤ -1 ∧ -1 ≤ maxValue 32)
      have htext : (Resp.multi none).text = 42 :: (intText (-1) ++ crlf) := by decide
      have hstream : c.stream = ⟨gap ++ 42 :: (intText (-1) ++ crlf ++
          post.flatMap fun j => unread (c.objects j) (a j)), false⟩ := by
        rw [hin, htext]
        simp
      have heq : c.readHeader id old = (.error (.runtime (ascii "multi bulk reply: -1")),
          (c.withStream ⟨crlf ++ post.flatMap (fun j => unread (c.objects j) (a j)), false⟩).put id
            ⟨true, .multi true (-1) []⟩) := by
        have hneg : (-1 : Int) < 0 := by decide
        simp only [Connection.readHeader, hstream, hread, hneg, if_true]
      have hm := Moved.put c ⟨crlf ++ post.flatMap (fun j => unread (c.objects j) (a j)), false⟩ id
        ⟨true, .multi true (-1) []⟩
      rw [heq]
      refine ⟨?_, ⟨_, hm, by simp [hobj, Body.cls]⟩, fun hc => absurd hc (by simp [hf]), ?_,
        by simp⟩
      · refine h.advance hm hout hidle (fun hc => absurd hc (by simp [hf])) ?_
          ⟨by simp, .inl rfl⟩ hsame hbusy
        intro _
        refine ⟨?_, crlf, gap_crlf, ?_⟩
        · rw [ha]
          exact .null (by decide)
        · rw [ha]
          simp [unread]
      · intro _ es he
        rw [ha] at he
        cases he
    · obtain ⟨c₁, hc₁, heq, hinv, -⟩ := readHeader_eq h hout hidle hf hobj ha
      have hnodup := h.nodup
      rw [hout, List.nodup_append] at hnodup
      have hidle₁ : ∀ j ∈ pre, (c₁.objects j).Idle := by
        intro j hj
        have hne : j ≠ id := hnodup.2.2 j hj id List.mem_cons_self
        rw [hc₁, Connection.put_objects, Function.update_of_ne hne]
        exact hidle j hj
      have htakes := nextElement_takes hinv (by rw [hc₁]; exact hout) hidle₁
        (show c₁.objects id = ⟨true, .multi true (es.length : Nat) []⟩ by rw [hc₁]; simp)
      have hm := Moved.put c ⟨crlf ++ elementsText es ++
        post.flatMap (fun j => unread (c.objects j) (a j)), false⟩ id
          ⟨true, .multi true (es.length : Nat) []⟩
      rw [← hc₁] at hm
      rw [heq]
      obtain ⟨o, hmo, ho⟩ := htakes.moved
      have hcls : o.body.cls = (c.objects id).body.cls := by
        rw [ho, hm.objects, Function.update_self, hobj]
        rfl
      exact ⟨htakes.inv, ⟨o, hm.trans (by rw [hc₁]; rfl) hmo, hcls⟩,
        fun hc => absurd hc (by simp [hf]), fun _ => htakes.value (by rw [hc₁]; rfl),
        fun o ho _ => htakes.sound o ho (by rw [hc₁]; rfl)⟩
    · have hread := readBulkHeader_error hgap
        (post.flatMap fun j => unread (c.objects j) (a j)) hr 42 old
      rw [← hin] at hread
      have heq : c.readHeader id old =
          (.error (.runtime (ascii "error reading bulk response header")), (c.withStream ⟨s ++
            crlf ++ post.flatMap (fun j => unread (c.objects j) (a j)), true⟩).put id
              ⟨true, .multi true 0 []⟩) := by
        simp only [Connection.readHeader, hread]
      have hm := Moved.put c ⟨s ++ crlf ++ post.flatMap (fun j => unread (c.objects j) (a j)),
        true⟩ id ⟨true, .multi true 0 []⟩
      rw [heq]
      refine ⟨?_, ⟨_, hm, by simp [hobj, Body.cls]⟩, fun hc => absurd hc (by simp [hf]), ?_,
        by simp⟩
      · refine h.advance hm hout hidle (fun _ => rfl) ?_ ⟨by simp, .inl rfl⟩ hsame hbusy
        intro hg
        exact absurd hg (by simp)
      · intro _ es he
        rw [ha] at he
        cases he

end Enumerator

/-- A call of `nextOptional` whose replies in front have been cleared. -/
theorem nextOptional_takes {c : Connection} {a : Nat → Option Resp} {t : Nat → Nat} {id : Nat}
    (h : Inv c a t) (clear : Connection → Except Exception Unit × Connection)
    (hclear : clear c = (.ok (), c)) {conn hd : Bool} {n : Int} {p : List (Option Bytes)}
    (hobj : c.objects id = ⟨conn, .multi hd n p⟩)
    (hidle : conn = true → ∃ pre post, c.outstandingReplies = pre ++ id :: post ∧
      ∀ j ∈ pre, (c.objects j).Idle) : Takes c a t id (c.nextOptional clear id) := by
  have hown := h.owns id
  rw [hobj] at hown
  cases p with
  | cons x p =>
    obtain ⟨rfl, es, ha, hdrop⟩ : conn = false ∧ ∃ es, a id = some (.multi (some es)) ∧
        x :: p = es.drop (t id) := hown.2.resolve_left (by simp)
    have hx : es[t id]? = some x := by
      have := congrArg List.head? hdrop
      rwa [List.head?_cons, List.head?_drop, eq_comm] at this
    have hp : p = es.drop (t id + 1) := by
      rw [← List.tail_drop, ← hdrop, List.tail_cons]
    have heq : c.nextOptional clear id =
        (.ok (some x), (c.withStream c.stream).put id ⟨false, .multi hd n p⟩) := by
      simp only [Connection.nextOptional, hobj]
      rfl
    have hm := Moved.put c c.stream id ⟨false, .multi hd n p⟩
    rw [heq]
    refine ⟨?_, ⟨_, hm, by simp [hobj, Body.cls]⟩, fun hf => hf, fun _ es' ha' => ?_,
      fun _ _ hf => hf⟩
    · refine h.retire hm rfl (fun _ => by rw [hobj]; exact idle_of_conn)
        (h.constructed_of_cls (by simp [hobj])) ?_ (fun _ => ?_) (fun _ _ => rfl)
        fun j hj => Function.update_of_ne hj _ _
      · exact ⟨hown.1, .inr ⟨rfl, es, ha, by simpa [given] using hp⟩⟩
      · rw [ha]
        exact .spent (by simpa [given] using hp)
    · rw [ha] at ha'
      cases ha'
      rw [hx]
  | nil =>
    cases conn with
    | false =>
      have heq : c.nextOptional clear id = (.ok none, c) := by
        simp only [Connection.nextOptional, hobj]
      rw [heq]
      refine ⟨?_, ⟨_, .refl c id, rfl⟩, fun hf => hf, fun hf es ha => ?_, fun _ _ hf => hf⟩
      · simpa [given] using h
      · have hlive := h.live hf id
        rw [hobj, ha] at hlive
        generalize t id = m at hlive
        cases hlive with
        | spent hdrop =>
          have hlen := congrArg List.length hdrop
          rw [List.length_drop, List.length_nil] at hlen
          rw [List.getElem?_eq_none (by omega)]
        | ended _ hne => exact absurd rfl (hne rfl es)
    | true =>
      obtain ⟨pre, post, hout, hpre⟩ := hidle rfl
      cases hd with
      | true =>
        have heq : c.nextOptional clear id = c.nextElement id n := by
          simp only [Connection.nextOptional, hobj]
        rw [heq]
        exact nextElement_takes h hout hpre hobj
      | false =>
        have heq : c.nextOptional clear id = c.readHeader id n := by
          simp only [Connection.nextOptional, hobj, hclear]
        rw [heq]
        exact readHeader_takes h hout hpre hobj

end AsioCoroFrame.Redispp
