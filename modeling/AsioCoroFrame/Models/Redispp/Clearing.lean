import AsioCoroFrame.Models.Redispp.Enumerator

/-!
# Clearing the replies in front of an object

An enumerator that is read ahead moves all of its elements into `pending`. The
loop over the objects in front of one leaves every one of them idle, or stops
at the first that raises; either way no reply is mistaken for another.
-/

namespace AsioCoroFrame.Redispp

/-! ## Reading an enumerator to its end -/

theorem withStream_self (c : Connection) : c.withStream c.stream = c := rfl

/-- The loop that reads ahead takes the elements left on the wire, in order. -/
theorem untilEnd_elements (clear : Connection → Except Exception Unit × Connection) (id : Nat)
    {xs : List (Option Bytes)} (hfit : ∀ s ∈ xs, BulkFits s) {rest : Bytes} {c : Connection}
    {gap : Bytes} (hgap : Gap gap) {fuel : Nat} (hfuel : xs.length < fuel)
    (hs : c.stream = ⟨gap ++ elementsText xs ++ rest, false⟩)
    (hobj : c.objects id = ⟨true, .multi true (xs.length : Nat) []⟩) :
    ∃ gap', Gap gap' ∧ untilEnd (Connection.nextOptional clear id) fuel c =
      (.ok xs, ((c.withStream ⟨gap' ++ rest, false⟩).put id ⟨false, .multi true 0 []⟩).unlink id)
      := by
  induction xs generalizing c gap fuel with
  | nil =>
    obtain ⟨fuel, rfl⟩ : ∃ f, fuel = f + 1 := ⟨fuel - 1, by omega⟩
    have hself : c.withStream ⟨gap ++ rest, false⟩ = c := by
      rw [← withStream_self c, hs]
      simp [elementsText, Connection.withStream]
    refine ⟨gap, hgap, ?_⟩
    rw [hself]
    simp [untilEnd, Connection.nextOptional, hobj, Connection.nextElement]
  | cons x xs ih =>
    obtain ⟨fuel, rfl⟩ : ∃ f, fuel = f + 1 := ⟨fuel - 1, by omega⟩
    have hread := readBulkReply_bulk hgap (elementsText xs ++ rest) (hfit x List.mem_cons_self)
    have hstream : c.stream = ⟨gap ++ bulkText x ++ (elementsText xs ++ rest), false⟩ := by
      rw [hs]
      simp [elementsText]
    rw [← hstream] at hread
    have hcount : ¬ (((x :: xs).length : Nat) : Int) ≤ 0 := by
      simp only [List.length_cons]
      omega
    have hsub : (((x :: xs).length : Nat) : Int) - 1 = (xs.length : Nat) := by
      simp only [List.length_cons]
      omega
    have hone : c.nextOptional clear id = (.ok (some x), (c.withStream ⟨crlf ++ (elementsText xs ++
        rest), false⟩).put id ⟨true, .multi true (xs.length : Nat) []⟩) := by
      simp only [Connection.nextOptional, hobj, Connection.nextElement, hcount, if_false, hread,
        hsub]
    obtain ⟨gap', hgap', hloop⟩ := ih (fun s hs => hfit s (List.mem_cons_of_mem _ hs)) gap_crlf
      (by simpa using hfuel)
      (c := (c.withStream ⟨crlf ++ (elementsText xs ++ rest), false⟩).put id
        ⟨true, .multi true (xs.length : Nat) []⟩)
      (by simp) (by simp)
    refine ⟨gap', hgap', ?_⟩
    simp only [untilEnd, hone, hloop]
    simp only [Connection.put, Connection.withStream, Connection.unlink, Function.update_idem]

/-- The rounds a loop is given suffice for what is on the wire. -/
theorem length_lt_rounds {c : Connection} {gap rest : Bytes} {xs : List (Option Bytes)}
    (hs : c.stream = ⟨gap ++ elementsText xs ++ rest, false⟩) : xs.length < c.rounds [] := by
  have hlen := length_le_elementsText xs
  simp only [Connection.rounds, hs, List.length_append, List.length_nil]
  omega

section Drain

variable {c : Connection} {a : Nat → Option Resp} {t : Nat → Nat} {id : Nat}
  {pre post : List Nat} (h : Inv c a t) (hout : c.outstandingReplies = pre ++ id :: post)
  (hidle : ∀ j ∈ pre, (c.objects j).Idle)
  {clear : Connection → Except Exception Unit × Connection} (hclear : clear c = (.ok (), c))

include h hout hidle

omit hidle in
/-- Reading ahead past the header leaves all elements that were not given away. -/
theorem drain_elements (clear : Connection → Except Exception Unit × Connection) {n fuel : Nat}
    {es : List (Option Bytes)} {gap : Bytes} (hgap : Gap gap)
    (ha : a id = some (.multi (some es))) (hfit : ∀ s ∈ es, BulkFits s)
    (hlen : t id + n = es.length)
    (hs : c.stream = ⟨gap ++ elementsText (es.drop (t id)) ++
      post.flatMap (fun j => unread (c.objects j) (a j)), false⟩)
    (hobj : c.objects id = ⟨true, .multi true (n : Int) []⟩) (hfuel : n < fuel)
    (hidle : ∀ j ∈ pre, (c.objects j).Idle) :
    ∃ c', untilEnd (Connection.nextOptional clear id) fuel c = (.ok (es.drop (t id)), c') ∧
      Inv (c'.splicePending id (es.drop (t id))) a t ∧
      Moved c (c'.splicePending id (es.drop (t id))) id
        ⟨false, .multi true 0 (es.drop (t id))⟩ ∧
      (c'.splicePending id (es.drop (t id))).stream.failed = false := by
  have hn : (es.drop (t id)).length = n := by
    rw [List.length_drop]
    omega
  obtain ⟨gap', hgap', hloop⟩ := untilEnd_elements clear id
    (fun s hs => hfit s (List.mem_of_mem_drop hs)) hgap (by rw [hn]; exact hfuel) hs
    (by rw [hn]; exact hobj)
  have hsplice : (((c.withStream ⟨gap' ++ post.flatMap (fun j => unread (c.objects j) (a j)),
      false⟩).put id ⟨false, .multi true 0 []⟩).unlink id).splicePending id (es.drop (t id)) =
      ((c.withStream ⟨gap' ++ post.flatMap (fun j => unread (c.objects j) (a j)),
        false⟩).put id ⟨false, .multi true 0 (es.drop (t id))⟩).unlink id := by
    simp [Connection.splicePending, Connection.put, Connection.unlink, Connection.withStream]
  have hm := Moved.put_unlink c ⟨gap' ++ post.flatMap (fun j => unread (c.objects j) (a j)),
    false⟩ id (.multi true 0 (es.drop (t id)))
  have hf : c.stream.failed = false := by rw [hs]
  refine ⟨_, hloop, ?_, by rw [hsplice]; exact hm, by rw [hsplice]; rfl⟩
  rw [hsplice]
  refine h.advance hm hout hidle (fun hc => absurd hc (by simp [hf])) ?_
    ⟨by simp, .inr ⟨rfl, es, ha, rfl⟩⟩ (fun _ _ => rfl) fun _ => idle_of_conn
  intro _
  refine ⟨?_, gap', hgap', by simp⟩
  rw [ha]
  exact .spent rfl

/-- A header raises on a failed stream and in front of a reply that is no list. -/
theorem readHeader_raises {n : Int} (hobj : c.objects id = ⟨true, .multi false n []⟩)
    (hbad : c.stream.failed = true ∨ ∃ r, a id = some r ∧ ¬ r.Good) :
    ∃ e c', c.readHeader id n = (.error e, c') := by
  have herr (e : Exception) (he : (readBulkHeader 42 n c.stream).1 = .error e) :
      ∃ e c', c.readHeader id n = (.error e, c') := by
    refine ⟨e, (c.readHeader id n).2, ?_⟩
    rcases hone : readBulkHeader 42 n c.stream with ⟨e' | ⟨⟩, m, s⟩ <;> rw [hone] at he <;> cases he
    simp only [Connection.readHeader, hone]
  by_cases hf : c.stream.failed = true
  · exact herr _ (by rw [readBulkHeader_failed hf])
  · have hf : c.stream.failed = false := by simpa using hf
    obtain ⟨r, ha, hgood⟩ := hbad.resolve_left (by simp [hf])
    have hlive := h.live hf id
    rw [hobj, ha] at hlive
    obtain ⟨hacc, hr⟩ : MultiAccepts r ∧ r.WellFormed := by
      generalize t id = k at hlive
      cases hlive with
      | header hacc hr => exact ⟨hacc, hr⟩
    obtain ⟨gap, hgap, hin⟩ := h.input_eq hout hidle hf
    have hun : unread (c.objects id) (a id) = r.text := by
      rw [hobj, ha]
      rfl
    rw [hun] at hin
    rcases hacc with ⟨_ | es, rfl⟩ | ⟨s, rfl⟩
    · have hread := readBulkHeader_count hgap
        (post.flatMap fun j => unread (c.objects j) (a j)) (by decide : isSpace 42 = false) n
        (by decide : minValue 32 ≤ -1 ∧ -1 ≤ maxValue 32)
      have htext : (Resp.multi none).text = 42 :: (intText (-1) ++ crlf) := by decide
      have hstream : c.stream = ⟨gap ++ 42 :: (intText (-1) ++ crlf ++
          post.flatMap fun j => unread (c.objects j) (a j)), false⟩ := by
        rw [hin, htext]
        simp
      have hneg : (-1 : Int) < 0 := by decide
      refine ⟨.runtime (ascii "multi bulk reply: -1"), (c.readHeader id n).2, ?_⟩
      simp only [Connection.readHeader, hstream, hread, hneg, if_true]
    · exact absurd trivial hgood
    · have hread := readBulkHeader_error hgap
        (post.flatMap fun j => unread (c.objects j) (a j)) hr 42 n
      rw [← hin] at hread
      exact herr _ (by rw [hread])

omit h hout hidle in
/-- What reading ahead is, for an object it applies to. -/
theorem readResult_eq {hd : Bool} {n : Int} (hobj : c.objects id = ⟨true, .multi hd n []⟩)
    (hmore : hd = false ∨ 0 < n) :
    c.readResult clear id =
      match untilEnd (Connection.nextOptional clear id) (c.rounds []) c with
      | (.error e, c) => (.error e, c)
      | (.ok readPending, c) => (.ok (), c.splicePending id readPending) := by
  rw [Connection.readResult, hobj]
  exact if_pos hmore

/-- Reading ahead raises when its first call of `nextOptional` does. -/
theorem readResult_raises {hd : Bool} {n : Int} (hobj : c.objects id = ⟨true, .multi hd n []⟩)
    (hmore : hd = false ∨ 0 < n) (hclear : clear c = (.ok (), c)) {e : Exception}
    {c' : Connection} (hone : c.nextOptional clear id = (.error e, c'))
    (hbad : c.stream.failed = true ∨ ∃ r, a id = some r ∧ ¬ r.Good) :
    Reads c a t id (c.readResult clear id) := by
  have htakes := nextOptional_takes h clear hclear hobj fun _ => ⟨pre, post, hout, hidle⟩
  have hres : c.readResult clear id = (.error e, c') := by
    rw [readResult_eq hobj hmore]
    simp only [Connection.rounds, untilEnd, hone]
  rw [hone] at htakes
  obtain ⟨hinv, ⟨o, hm, ho⟩, hfail, -, -⟩ := htakes
  rw [hres]
  refine ⟨by simpa [given] using hinv, ⟨o, hm, ho, by simp⟩, fun hf => ⟨hfail hf, by simp⟩,
    by simp, ?_⟩
  intro hf
  refine ⟨by simp, ?_⟩
  rintro ⟨r, hr, hgood⟩
  obtain ⟨r', hr', hbad⟩ := hbad.resolve_left (by simp [hf])
  rw [hr] at hr'
  cases hr'
  exact absurd hgood hbad

omit h hout hidle in
/-- Reading ahead moves the elements that were not given away to `pending`. -/
theorem readResult_ok {hd : Bool} {n : Int} (hobj : c.objects id = ⟨true, .multi hd n []⟩)
    (hmore : hd = false ∨ 0 < n) (hf : c.stream.failed = false) {es : List (Option Bytes)}
    (ha : a id = some (.multi (some es))) {c' : Connection}
    (hloop : untilEnd (Connection.nextOptional clear id) (c.rounds []) c =
      (.ok (es.drop (t id)), c')) (hinv : Inv (c'.splicePending id (es.drop (t id))) a t)
    (hm : Moved c (c'.splicePending id (es.drop (t id))) id
      ⟨false, .multi true 0 (es.drop (t id))⟩)
    (hs : (c'.splicePending id (es.drop (t id))).stream.failed = false) :
    Reads c a t id (c.readResult clear id) := by
  rw [readResult_eq hobj hmore, hloop]
  exact ⟨hinv, ⟨_, hm, by simp [hobj, Body.cls], fun _ => idle_of_conn⟩,
    fun hc => absurd hc (by simp [hf]), fun _ => hs,
    fun _ => ⟨fun _ => ⟨_, ha, trivial⟩, fun _ => rfl⟩⟩

/-- Reading ahead from behind the header. -/
theorem readResult_behind {n : Int} (hobj : c.objects id = ⟨true, .multi true n []⟩)
    (hmore : 0 < n) (hclear : clear c = (.ok (), c)) :
    Reads c a t id (c.readResult clear id) := by
  by_cases hf : c.stream.failed = true
  · have hone : c.nextOptional clear id =
        (.error (.runtime (ascii "error reading bulk response header")),
          (c.withStream c.stream).put id ⟨true, .multi true (n - 1) []⟩) := by
      simp only [Connection.nextOptional, hobj, Connection.nextElement, Int.not_le.mpr hmore,
        if_false, readBulkReply_failed hf]
    exact readResult_raises h hout hidle hobj (.inr hmore) hclear hone (.inl hf)
  · have hf : c.stream.failed = false := by simpa using hf
    have hlive := h.live hf id
    rw [hobj] at hlive
    obtain ⟨es, m, ha, rfl, hfit, hlen⟩ : ∃ es, ∃ m : Nat, a id = some (.multi (some es)) ∧
        n = (m : Int) ∧ (∀ s ∈ es, BulkFits s) ∧ t id + m = es.length := by
      generalize a id = ans at hlive
      generalize t id = k at hlive
      cases hlive with
      | @elements m es k hfit hlen => exact ⟨es, m, rfl, rfl, hfit, hlen⟩
      | null hn => omega
    obtain ⟨gap, hgap, hin⟩ := h.input_eq hout hidle hf
    have hun : unread (c.objects id) (a id) = elementsText (es.drop (t id)) := by
      have hk : es.length - m = t id := by omega
      rw [hobj, ha]
      simp only [unread, Int.toNat_natCast, hk]
    rw [hun] at hin
    have hlt := length_lt_rounds hin
    rw [List.length_drop] at hlt
    obtain ⟨c', hone, hinv, hm, hs'⟩ := drain_elements h hout clear hgap ha hfit hlen hin
      hobj (show m < c.rounds [] by omega) hidle
    exact readResult_ok hobj (.inr hmore) hf ha hone hinv hm hs'

/-- Reading ahead from the header on. -/
theorem readResult_front {n : Int} (hobj : c.objects id = ⟨true, .multi false n []⟩)
    (hclear : clear c = (.ok (), c)) : Reads c a t id (c.readResult clear id) := by
  have hnext : c.nextOptional clear id = c.readHeader id n := by
    simp only [Connection.nextOptional, hobj, hclear]
  by_cases hbad : c.stream.failed = true ∨ ∃ r, a id = some r ∧ ¬ r.Good
  · obtain ⟨e, c', hraise⟩ := readHeader_raises h hout hidle hobj hbad
    exact readResult_raises h hout hidle hobj (.inl rfl) hclear (hnext.trans hraise) hbad
  · obtain ⟨hf, hgood⟩ := not_or.mp hbad
    have hf : c.stream.failed = false := by simpa using hf
    have hlive := h.live hf id
    rw [hobj] at hlive
    obtain ⟨r, ha, hacc, hr⟩ : ∃ r, a id = some r ∧ MultiAccepts r ∧ r.WellFormed := by
      generalize a id = ans at hlive
      generalize t id = k at hlive
      cases hlive with
      | header hacc hr => exact ⟨_, rfl, hacc, hr⟩
    obtain ⟨es, rfl⟩ : ∃ es, r = .multi (some es) := by
      rcases hacc with ⟨_ | es, rfl⟩ | ⟨s, rfl⟩
      · exact absurd ⟨_, ha, by simp [Resp.Good]⟩ hgood
      · exact ⟨es, rfl⟩
      · exact absurd ⟨_, ha, by simp [Resp.Good]⟩ hgood
    obtain ⟨c₁, hc₁, hhead, hinv₁, hzero⟩ := readHeader_eq h hout hidle hf hobj ha
    have hobj₁ : c₁.objects id = ⟨true, .multi true (es.length : Nat) []⟩ := by
      rw [hc₁]
      simp
    have hsame : c.nextOptional clear id = c₁.nextOptional clear id := by
      rw [hnext, hhead]
      simp only [Connection.nextOptional, hobj₁]
    have hnodup := h.nodup
    rw [hout, List.nodup_append, List.nodup_cons] at hnodup
    have hothers (j : Nat) (hj : j ≠ id) : c₁.objects j = c.objects j := by
      rw [hc₁, Connection.put_objects, Function.update_of_ne hj, Connection.withStream_objects]
    have hpost : (post.flatMap fun j => unread (c₁.objects j) (a j)) =
        post.flatMap fun j => unread (c.objects j) (a j) :=
      List.flatMap_congr fun j hj => by
        rw [hothers j (ne_of_mem_of_not_mem hj hnodup.2.1.1)]
    have hs₁ : c₁.stream = ⟨crlf ++ elementsText (es.drop (t id)) ++
        post.flatMap (fun j => unread (c₁.objects j) (a j)), false⟩ := by
      rw [hpost, hzero, hc₁]
      rfl
    have hrounds : es.length < c.rounds [] := by
      obtain ⟨gap, -, hin⟩ := h.input_eq hout hidle hf
      have hun : unread (c.objects id) (a id) = (Resp.multi (some es)).text := by
        rw [hobj, ha]
        rfl
      have hlen := length_le_elementsText es
      simp only [Connection.rounds, hin, hun, Resp.text, List.length_append, List.length_cons,
        List.length_nil]
      omega
    obtain ⟨c', hone, hinv, hm, hs'⟩ := drain_elements hinv₁ (by rw [hc₁]; exact hout)
      clear gap_crlf ha hr.2 (by omega) hs₁ hobj₁ hrounds (fun j hj => by
        rw [hothers j (hnodup.2.2 j hj id List.mem_cons_self)]
        exact hidle j hj)
    have hboth : untilEnd (Connection.nextOptional clear id) (c.rounds []) c =
        untilEnd (Connection.nextOptional clear id) (c.rounds []) c₁ := by
      simp only [Connection.rounds, untilEnd, hsame]
    have hm₁ := Moved.put c ⟨crlf ++ elementsText es ++
      post.flatMap (fun j => unread (c.objects j) (a j)), false⟩ id
        ⟨true, .multi true (es.length : Nat) []⟩
    rw [← hc₁] at hm₁
    exact readResult_ok hobj (.inl rfl) hf ha (hboth.trans hone) hinv
      (hm₁.trans (by rw [hc₁]; rfl) hm) hs'

/-- Any object that is not idle reads its own reply, or raises. -/
theorem readResult_reads (hclear : clear c = (.ok (), c)) (hmore : ¬ (c.objects id).Idle) :
    Reads c a t id (c.readResult clear id) := by
  have hown := h.owns id
  rcases hobj : c.objects id with ⟨conn, b⟩
  rw [hobj] at hown hmore
  obtain rfl : conn = true := by
    cases conn with
    | true => rfl
    | false => exact absurd idle_of_conn hmore
  cases b with
  | gone => cases hown
  | queued => exact hown.elim
  | single k v =>
    have heq : c.readResult clear id = c.readSingle id k v := by
      simp only [Connection.readResult, hobj, hclear]
    rw [heq]
    exact (readSingle_reads h hout hidle hobj).1
  | multi hd n p =>
    obtain rfl : p = [] := hown.2.resolve_right (by simp)
    cases hd with
    | false => exact readResult_front h hout hidle hobj hclear
    | true =>
      refine readResult_behind h hout hidle hobj ?_ hclear
      by_contra hn
      exact hmore fun _ => ⟨n, [], rfl, by omega⟩

end Drain

/-! ## The loop over the objects in front -/

/-- The objects of a list, the nearest first, are in front of all others. -/
def Leads (l out : List Nat) : Prop :=
  ∃ q post, out = l.reverse.filter q ++ post ∧ ∀ j ∈ post, j ∉ l

/-- Only the objects of a list have changed or left. -/
structure Frame (l : List Nat) (c c' : Connection) : Prop where
  objects : ∀ j, j ∉ l → c'.objects j = c.objects j
  links : ∃ q : Nat → Bool, (∀ j, j ∉ l → q j = true) ∧
    c'.outstandingReplies = c.outstandingReplies.filter q
  constructed : c'.constructed = c.constructed

/-- What clearing the objects of a list does to a connection. -/
structure Clears (c : Connection) (a : Nat → Option Resp) (t : Nat → Nat) (l : List Nat)
    (p : Except Exception Unit × Connection) : Prop where
  inv : Inv p.2 a t
  frame : Frame l c p.2
  idle : p.1 = .ok () → ∀ j ∈ l, (p.2.objects j).Idle
  failed : c.stream.failed = true → p.2.stream.failed = true
  sound : p.1 = .ok () → c.stream.failed = false → p.2.stream.failed = false
  cls : ∀ j, (p.2.objects j).body.cls = (c.objects j).body.cls
  ok_iff : c.stream.failed = false →
    (p.1 = .ok () ↔ ∀ j ∈ l, (c.objects j).Idle ∨ ∃ r, a j = some r ∧ r.Good)

theorem Frame.refl (l : List Nat) (c : Connection) : Frame l c c :=
  ⟨fun _ _ => rfl, ⟨fun _ => true, fun _ _ => rfl, (List.filter_eq_self.mpr fun _ _ => rfl).symm⟩,
    rfl⟩

theorem Frame.trans {l : List Nat} {c c₁ c₂ : Connection} (h : Frame l c c₁)
    (h' : Frame l c₁ c₂) : Frame l c c₂ := by
  obtain ⟨q, hq, hl⟩ := h.links
  obtain ⟨q', hq', hl'⟩ := h'.links
  refine ⟨fun j hj => (h'.objects j hj).trans (h.objects j hj),
    ⟨fun j => q' j && q j, fun j hj => by simp [hq j hj, hq' j hj], ?_⟩,
    h'.constructed.trans h.constructed⟩
  rw [hl', hl, List.filter_filter]

theorem Frame.mono {l l' : List Nat} {c c' : Connection} (h : Frame l c c')
    (hsub : ∀ j ∈ l, j ∈ l') : Frame l' c c' := by
  obtain ⟨q, hq, hl⟩ := h.links
  exact ⟨fun j hj => h.objects j fun hm => hj (hsub j hm),
    ⟨q, fun j hj => hq j fun hm => hj (hsub j hm), hl⟩, h.constructed⟩

/-- A change of one object of a list is a change inside of the list. -/
theorem Moved.frame {c c' : Connection} {id : Nat} {o : BaseReply} (h : Moved c c' id o)
    {l : List Nat} (hmem : id ∈ l) : Frame l c c' := by
  have hne (j : Nat) (hj : j ∉ l) : j ≠ id := fun he => hj (he ▸ hmem)
  refine ⟨?_, ?_, h.constructed⟩
  · intro j hj
    rw [h.objects, Function.update_of_ne (hne j hj)]
  · rcases h.links with hl | ⟨-, hl⟩
    · exact hl ▸ (Frame.refl l c).links
    · exact ⟨(· ≠ id), fun j hj => by simpa using hne j hj, hl⟩

/-- An idle object reads nothing. -/
theorem readResult_idle {c : Connection} {id : Nat} (h : (c.objects id).Idle)
    (clear : Connection → Except Exception Unit × Connection) :
    c.readResult clear id = (.ok (), c) := by
  rcases hobj : c.objects id with ⟨_ | _, b⟩
  · cases b <;> simp only [Connection.readResult, hobj]
  · rw [hobj] at h
    obtain ⟨n, p, rfl, hn⟩ := h rfl
    simp [Connection.readResult, hobj, hn]

/-- Nothing is cleared where all objects are idle. -/
theorem clearBefore_idle {c : Connection} {l : List Nat} (h : ∀ j ∈ l, (c.objects j).Idle) :
    c.clearBefore l = (.ok (), c) := by
  induction l with
  | nil => rfl
  | cons id before ih =>
    simp only [Connection.clearBefore, ih fun j hj => h j (List.mem_cons_of_mem _ hj)]
    exact readResult_idle (h id List.mem_cons_self) _

/-- The objects behind the nearest one are in front as well. -/
theorem Leads.tail {id : Nat} {before out : List Nat} (hnodup : (id :: before).Nodup)
    (h : Leads (id :: before) out) : Leads before out := by
  obtain ⟨q, post, hout, hpost⟩ := h
  refine ⟨q, [id].filter q ++ post, ?_, ?_⟩
  · rw [hout, List.reverse_cons, List.filter_append, List.append_assoc]
  · intro j hj
    rcases List.mem_append.mp hj with hj | hj
    · rw [List.mem_singleton.mp (List.mem_of_mem_filter hj)]
      exact (List.nodup_cons.mp hnodup).1
    · exact fun hm => hpost j hj (List.mem_cons_of_mem _ hm)

/-- An outstanding object comes right after those in front of it. -/
theorem Leads.split {id : Nat} {before out : List Nat} (hnodup : (id :: before).Nodup)
    (h : Leads (id :: before) out) {q' : Nat → Bool} (hmem : id ∈ out.filter q') :
    ∃ pre post, out.filter q' = pre ++ id :: post ∧ ∀ j ∈ pre, j ∈ before := by
  obtain ⟨q, post, hout, hpost⟩ := h
  have hid : id ∈ [id].filter q := by
    have hm := List.mem_of_mem_filter hmem
    rw [hout, List.reverse_cons, List.filter_append] at hm
    rcases List.mem_append.mp hm with hm | hm
    · rcases List.mem_append.mp hm with hm | hm
      · exact absurd (List.mem_reverse.mp (List.mem_of_mem_filter hm))
          (List.nodup_cons.mp hnodup).1
      · exact hm
    · exact absurd List.mem_cons_self (hpost id hm)
  have hq : q id = true := (List.mem_filter.mp hid).2
  have hq' : q' id = true := (List.mem_filter.mp hmem).2
  refine ⟨(before.reverse.filter q).filter q', post.filter q', ?_, ?_⟩
  · rw [hout, List.reverse_cons, List.filter_append, List.filter_append, List.filter_append]
    simp [hq, hq']
  · intro j hj
    exact List.mem_reverse.mp (List.mem_of_mem_filter (List.mem_of_mem_filter hj))

/-- Clearing the objects in front of one reads each its own reply. -/
theorem clearBefore_clears {a : Nat → Option Resp} {t : Nat → Nat} {l : List Nat}
    {c : Connection} (h : Inv c a t) (hnodup : l.Nodup) (hl : Leads l c.outstandingReplies) :
    Clears c a t l (c.clearBefore l) := by
  induction l generalizing c with
  | nil =>
    exact ⟨h, .refl _ _, by simp, fun hf => hf, fun _ hf => hf, fun _ => rfl,
      by simp [Connection.clearBefore]⟩
  | cons id before ih =>
    have hih := ih h (List.nodup_cons.mp hnodup).2 (hl.tail hnodup)
    have hsub : ∀ j ∈ before, j ∈ id :: before := fun j => List.mem_cons_of_mem _
    rcases hone : c.clearBefore before with ⟨e | ⟨⟩, c₁⟩
    · rw [hone] at hih
      simp only [Connection.clearBefore, hone]
      refine ⟨hih.inv, hih.frame.mono hsub, by simp, hih.failed, by simp, hih.cls, fun hf => ?_⟩
      refine ⟨by simp, fun hall => ?_⟩
      have herr := (hih.ok_iff hf).mpr fun j hj => hall j (List.mem_cons_of_mem _ hj)
      cases herr
    · rw [hone] at hih
      obtain ⟨hinv, hframe, hidle, hfail, hsound, hcls, hok⟩ := hih
      have hidle := hidle rfl
      have hid : c₁.objects id = c.objects id :=
        hframe.objects id (List.nodup_cons.mp hnodup).1
      have hres : c.clearBefore (id :: before) = c₁.readResult (Connection.clearBefore before) id
          := by
        simp only [Connection.clearBefore, hone]
      rw [hres]
      by_cases hi : (c₁.objects id).Idle
      · rw [readResult_idle hi]
        refine ⟨hinv, hframe.mono hsub, fun _ => ?_, hfail, hsound, hcls, fun hf => ?_⟩
        · intro j hj
          rcases List.mem_cons.mp hj with rfl | hj
          · exact hi
          · exact hidle j hj
        · refine ⟨fun _ j hj => ?_, fun _ => rfl⟩
          rcases List.mem_cons.mp hj with rfl | hj
          · exact .inl (hid ▸ hi)
          · exact (hok hf).mp rfl j hj
      · have hlinked : id ∈ c₁.outstandingReplies := by
          refine hinv.linked id ?_
          by_contra hc
          exact hi fun hc' => absurd hc' hc
        obtain ⟨q, -, hlinks⟩ := hframe.links
        rw [hlinks] at hlinked
        obtain ⟨pre, post, hout, hpre⟩ := hl.split hnodup hlinked
        have hreads := readResult_reads hinv (hlinks.trans hout) (fun j hj => hidle j (hpre j hj))
          (clearBefore_idle hidle) hi
        obtain ⟨hinv₂, ⟨o, hm, hcls₂, ho⟩, hfail₂, hsound₂, hok₂⟩ := hreads
        have hframe₂ := (hframe.mono hsub).trans (hm.frame List.mem_cons_self)
        refine ⟨hinv₂, hframe₂, fun hr => ?_, fun hf => (hfail₂ (hfail hf)).1,
          fun hr _ => hsound₂ hr, fun j => ?_, fun hf => ?_⟩
        · intro j hj
          rw [hm.objects]
          by_cases hne : j = id
          · subst hne
            rw [Function.update_self]
            exact ho hr
          · rw [Function.update_of_ne hne]
            exact hidle j ((List.mem_cons.mp hj).resolve_left hne)
        · rw [hm.objects]
          by_cases hne : j = id
          · subst hne
            rw [Function.update_self, hcls₂, hcls]
          · rw [Function.update_of_ne hne, hcls]
        · rw [hok₂ (hsound rfl hf)]
          constructor
          · intro hgood j hj
            rcases List.mem_cons.mp hj with rfl | hj
            · exact .inr hgood
            · exact (hok hf).mp rfl j hj
          · intro hall
            exact (hall id List.mem_cons_self).resolve_left (hid ▸ hi)

/-- What is in front of an object leads the list. -/
theorem leads_inFront (c : Connection) (id : Nat) (hnodup : c.outstandingReplies.Nodup) :
    Leads (c.inFront id).reverse c.outstandingReplies := by
  refine ⟨fun _ => true, c.outstandingReplies.dropWhile (· ≠ id), ?_, ?_⟩
  · rw [List.reverse_reverse, List.filter_eq_self.mpr fun _ _ => rfl, Connection.inFront,
      List.takeWhile_append_dropWhile]
  · intro j hj hm
    have hsplit := hnodup
    rw [← List.takeWhile_append_dropWhile (p := (· ≠ id)) (l := c.outstandingReplies),
      List.nodup_append] at hsplit
    exact hsplit.2.2 j (List.mem_reverse.mp hm) j hj rfl

/-- `clearPendingResults` reads each object in front its own reply. -/
theorem clearPendingResults_clears {c : Connection} {a : Nat → Option Resp} {t : Nat → Nat}
    (h : Inv c a t) (id : Nat) :
    Clears c a t (c.inFront id).reverse (c.clearPendingResults id) := by
  refine clearBefore_clears h ?_ (leads_inFront c id h.nodup)
  exact List.nodup_reverse.mpr (h.nodup.sublist (List.takeWhile_sublist _))

end AsioCoroFrame.Redispp
