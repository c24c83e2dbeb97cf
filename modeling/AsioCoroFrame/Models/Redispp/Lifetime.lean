import AsioCoroFrame.Models.Redispp.Operations

/-!
# Construction, assignment and destruction

A command appends an object and its reply, an assignment finishes the object it
overwrites, and a destructor finishes its own. What is finished has no unread
part, unless it is one of the cases that `Keeps` excludes.
-/

namespace AsioCoroFrame.Redispp

/-! ## Reading an enumerator for its elements -/

/-- What a loop over the elements of an enumerator leaves. -/
structure Drains (c : Connection) (a : Nat → Option Resp) (t : Nat → Nat) (id : Nat) (n : Int)
    (p : Except Exception (List Bytes) × Connection) (conn : Bool) (n' : Int) : Prop where
  object : p.2.objects id = ⟨conn, .multi true n' []⟩
  others : ∀ j, j ≠ id → p.2.objects j = c.objects j
  constructed : p.2.constructed = c.constructed
  less : n' ≤ n
  inv : Inv p.2 a (Function.update t id (t id + (n - n').toNat))
  failed : c.stream.failed = true → p.2.stream.failed = true
  ended : ∀ xs, p.1 = .ok xs → conn = false
  idle : c.stream.failed = false → ∀ es, a id = some (.multi (some es)) →
    (∀ x ∈ (es.drop (t id)).dropLast, x ≠ none) → conn = false ∨ n' ≤ 0

theorem next_behind {c : Connection} {id : Nat} {n : Int}
    (hobj : c.objects id = ⟨true, .multi true n []⟩) : c.next id = c.nextElement id n := by
  simp only [Connection.next, Connection.nextOptional, hobj]

/-- An element is taken off the count, whether it can be read or not. -/
theorem nextElement_more (c : Connection) (id : Nat) {n : Int} (hn : 0 < n) :
    (c.nextElement id n).2.objects id = ⟨true, .multi true (n - 1) []⟩ ∧
      (c.nextElement id n).1 ≠ .ok none := by
  simp only [Connection.nextElement, Int.not_le.mpr hn, if_false]
  rcases readBulkReply c.stream with ⟨_ | _, s⟩ <;> simp

/-- On a failed stream it does not matter how many elements were given away. -/
theorem Inv.retake {c : Connection} {a : Nat → Option Resp} {t : Nat → Nat} (h : Inv c a t)
    {id : Nat} {conn : Bool} {n : Int} (hobj : c.objects id = ⟨conn, .multi true n []⟩)
    (hf : c.stream.failed = true) (m : Nat) : Inv c a (Function.update t id m) := by
  have hb : id < c.constructed := h.constructed_of_cls (by rw [hobj]; simp)
  refine ⟨h.nodup, h.bound, ?_, h.linked, ?_, fun hg => absurd hf (by simp [hg]),
    fun hg => absurd hf (by simp [hg]), h.settled, h.outside⟩
  · intro j hj
    rw [Function.update_of_ne (by omega)]
    exact h.absent j hj
  · intro j
    by_cases hne : j = id
    · subst hne
      rw [hobj]
      exact ⟨by simp, .inl rfl⟩
    · rw [Function.update_of_ne hne]
      exact h.owns j

/-- The elements of a list without its last one, after the first. -/
theorem dropLast_drop_succ {α : Type*} {es : List α} {k : Nat} {x : α}
    (h : x ∈ (es.drop (k + 1)).dropLast) : x ∈ (es.drop k).dropLast := by
  rw [List.dropLast_eq_take, List.length_drop] at h ⊢
  rw [List.mem_take_iff_getElem] at h ⊢
  obtain ⟨i, hi, rfl⟩ := h
  refine ⟨i + 1, by simp only [List.length_drop] at hi ⊢; omega, ?_⟩
  simp only [List.getElem_drop]
  congr 1
  omega

/-- The elements left to an enumerator behind its header. -/
theorem Inv.left {c : Connection} {a : Nat → Option Resp} {t : Nat → Nat} (h : Inv c a t)
    {id : Nat} {n : Int} (hobj : c.objects id = ⟨true, .multi true n []⟩)
    (hf : c.stream.failed = false) (hn : 0 < n) :
    ∃ es, a id = some (.multi (some es)) ∧ (t id : Int) + n = es.length := by
  have hlive := h.live hf id
  rw [hobj] at hlive
  generalize a id = ans at hlive
  generalize t id = m at hlive
  cases hlive with
  | elements hfit hlen => exact ⟨_, rfl, by exact_mod_cast hlen⟩
  | null hneg => omega

/-- The loop of an assignment and of a destructor keeps the replies apart. -/
theorem untilEnd_strings {a : Nat → Option Resp} {id fuel : Nat} {c : Connection} {t : Nat → Nat}
    {n : Int} (h : Inv c a t) (hobj : c.objects id = ⟨true, .multi true n []⟩)
    (hfuel : 0 < fuel ∧ (c.stream.failed = false → n < fuel)) :
    ∃ conn n', Drains c a t id n (untilEnd (Connection.nextString id) fuel c) conn n' := by
  induction fuel generalizing c t n with
  | zero => exact absurd hfuel.1 (by simp)
  | succ fuel ih =>
    obtain ⟨pre, post, hout, hidle⟩ := h.front hobj
    have htakes := nextElement_takes h hout hidle hobj
    have hnext := next_behind hobj
    obtain ⟨o, hm, -⟩ := htakes.moved
    have hothers (j : Nat) (hj : j ≠ id) : (c.nextElement id n).2.objects j = c.objects j := by
      rw [hm.objects, Function.update_of_ne hj]
    by_cases hn : n ≤ 0
    · have hone : c.nextElement id n =
          (.ok none, (c.put id ⟨false, .multi true n []⟩).unlink id) := by
        simp only [Connection.nextElement, hn, if_true]
      have hres : untilEnd (Connection.nextString id) (fuel + 1) c =
          (.ok [], (c.put id ⟨false, .multi true n []⟩).unlink id) := by
        simp only [untilEnd, Connection.nextString, hnext, hone]
      rw [hone] at htakes hothers
      have hinv := htakes.inv
      rw [hres]
      refine ⟨false, n, by simp, hothers, rfl, le_rfl, ?_, fun hf => hf, fun _ _ => rfl,
        fun _ _ _ _ => .inl rfl⟩
      simpa [given] using hinv
    · have hpos : 0 < n := by omega
      obtain ⟨hobj₁, hsome⟩ := nextElement_more c id hpos
      have hcon : (c.nextElement id n).2.constructed = c.constructed := hm.constructed
      rcases hone : c.nextElement id n with ⟨e | (_ | (_ | b)), c₁⟩
      · have hf : c.stream.failed = true := by
          by_contra hf
          have hf : c.stream.failed = false := by simpa using hf
          obtain ⟨es, ha, -⟩ := h.left hobj hf hpos
          have hv := htakes.value hf es ha
          rw [hone] at hv
          cases hv
        have hres : untilEnd (Connection.nextString id) (fuel + 1) c = (.error e, c₁) := by
          simp only [untilEnd, Connection.nextString, hnext, hone]
        rw [hone] at htakes hobj₁ hothers hcon
        have hinv := htakes.inv
        simp only [given, Nat.add_zero, Function.update_eq_self] at hinv
        rw [hres]
        refine ⟨true, n - 1, hobj₁, hothers, hcon, by omega,
          hinv.retake hobj₁ (htakes.failed hf) _, htakes.failed, by simp,
          fun hg => absurd hf (by simp [hg])⟩
      · rw [hone] at hsome
        exact absurd rfl hsome
      · have hres : untilEnd (Connection.nextString id) (fuel + 1) c =
            (.error .nullReply, c₁) := by
          simp only [untilEnd, Connection.nextString, hnext, hone]
        rw [hone] at htakes hobj₁ hothers hcon
        have hinv := htakes.inv
        simp only [given] at hinv
        rw [hres]
        refine ⟨true, n - 1, hobj₁, hothers, hcon, by omega, ?_, htakes.failed, by simp, ?_⟩
        · rwa [show (n - (n - 1)).toNat = 1 by omega]
        · intro hf es ha hnull
          obtain ⟨es', ha', hlen⟩ := h.left hobj hf hpos
          rw [ha] at ha'
          cases ha'
          have hv := htakes.value hf es ha
          simp only [Except.ok.injEq] at hv
          by_contra hmore
          have hmore : 1 < n := by
            simp only [Bool.true_eq_false, false_or] at hmore
            omega
          refine hnull none ?_ rfl
          rw [List.dropLast_eq_take, List.length_drop, List.mem_take_iff_getElem]
          have hlt : t id < es.length := by omega
          rw [List.getElem?_eq_getElem hlt, Option.some.injEq] at hv
          refine ⟨0, by simp only [List.length_drop]; omega, ?_⟩
          simp only [List.getElem_drop, Nat.add_zero, ← hv]
      · have hf : c.stream.failed = false := by
          by_contra hf
          have hf : c.stream.failed = true := by simpa using hf
          simp only [Connection.nextElement, hn, if_false, readBulkReply_failed hf] at hone
          simp at hone
        have hsound := htakes.sound (some (some b)) (by rw [hone]) hf
        rw [hone] at htakes hobj₁ hothers hcon hsound
        have hinv := htakes.inv
        simp only [given] at hinv
        have hlt := hfuel.2 hf
        obtain ⟨conn, n', hd⟩ := ih hinv hobj₁ ⟨by omega, fun _ => by omega⟩
        obtain ⟨hdo, hdoth, hdcon, hdless, hdinv, -, hdend, hdidle⟩ := hd
        have hstate : (untilEnd (Connection.nextString id) (fuel + 1) c).2 =
            (untilEnd (Connection.nextString id) fuel c₁).2 := by
          simp only [untilEnd, Connection.nextString, hnext, hone]
          rcases untilEnd (Connection.nextString id) fuel c₁ with ⟨_ | _, _⟩ <;> rfl
        have hfirst (xs : List Bytes)
            (hx : (untilEnd (Connection.nextString id) (fuel + 1) c).1 = .ok xs) :
            ∃ ys, (untilEnd (Connection.nextString id) fuel c₁).1 = .ok ys := by
          simp only [untilEnd, Connection.nextString, hnext, hone] at hx
          rcases hu : untilEnd (Connection.nextString id) fuel c₁ with ⟨_ | ys, _⟩
          · rw [hu] at hx
            cases hx
          · exact ⟨ys, rfl⟩
        refine ⟨conn, n', by rw [hstate]; exact hdo, ?_, by rw [hstate, hdcon, hcon], by omega, ?_,
          fun hg => absurd hf (by simp [hg]), ?_, ?_⟩
        · intro j hj
          rw [hstate, hdoth j hj, hothers j hj]
        · rw [Function.update_self, Function.update_idem] at hdinv
          rwa [hstate, show t id + (n - n').toNat = t id + 1 + (n - 1 - n').toNat by omega]
        · intro xs hx
          obtain ⟨ys, hy⟩ := hfirst xs hx
          exact hdend ys hy
        · intro _ es ha hnull
          refine hdidle hsound es ha fun x hx => hnull x ?_
          rw [Function.update_self] at hx
          exact dropLast_drop_succ hx

/-- What is on the wire bounds the elements that are left. -/
theorem Inv.lt_rounds {c : Connection} {a : Nat → Option Resp} {t : Nat → Nat} (h : Inv c a t)
    {id : Nat} {n : Int} (hobj : c.objects id = ⟨true, .multi true n []⟩)
    (hf : c.stream.failed = false) : n < (c.rounds [] : Nat) := by
  rcases Int.lt_or_le 0 n with hn | hn
  · obtain ⟨es, ha, hlen⟩ := h.left hobj hf hn
    obtain ⟨pre, post, hout, hidle⟩ := h.front hobj
    obtain ⟨gap, -, hin⟩ := h.input_eq hout hidle hf
    have hun : unread (c.objects id) (a id) = elementsText (es.drop (es.length - n.toNat)) := by
      rw [hobj, ha]
      rfl
    rw [hun] at hin
    have hlt := length_lt_rounds hin
    rw [List.length_drop] at hlt
    omega
  · simp only [Connection.rounds]
    omega

/-- The loop over the elements, with the rounds it is given. -/
theorem drain_strings {c : Connection} {a : Nat → Option Resp} {t : Nat → Nat} (h : Inv c a t)
    {id : Nat} {n : Int} (hobj : c.objects id = ⟨true, .multi true n []⟩) : ∃ conn n',
    Drains c a t id n (untilEnd (Connection.nextString id) (c.rounds []) c) conn n' :=
  untilEnd_strings h hobj ⟨by simp [Connection.rounds], h.lt_rounds hobj⟩

/-! ## Assignment -/

/-- What an object keeps of its reply depends on its class only. -/
theorem Body.keeps_of_cls {b b' : Body} (h : b.cls = b'.cls) (a : Option Resp) :
    b.keeps a = b'.keeps a := by
  cases b <;> cases b' <;> first | rfl | cases h

/-- An enumerator with a `count` has read its header, and nothing ahead while it is
outstanding. -/
theorem Inv.counting {c : Connection} {a : Nat → Option Resp} {t : Nat → Nat} (h : Inv c a t)
    {id : Nat} {hd : Bool} {n : Int} {p : List (Option Bytes)}
    (hobj : c.objects id = ⟨true, .multi hd n p⟩) : p = [] ∧ (hd = false → n = 0) := by
  have hown := h.owns id
  rw [hobj] at hown
  exact ⟨hown.2.resolve_right (by simp), hown.1⟩

/-- The elements an assignment has discarded when it raises. -/
def discarded (c c' : Connection) (dst : Nat) : Nat :=
  ((c.objects dst).body.count - (c'.objects dst).body.count).toNat

/-- An assignment takes over the reply of its source, or raises while it finishes its target. -/
theorem assign_inv {c : Connection} {a : Nat → Option Resp} {t : Nat → Nat} (h : Inv c a t)
    {dst src : Nat} (hne : dst ≠ src) (hcls : (c.objects src).body.cls ≠ none)
    (hsame : (c.objects dst).body.cls = (c.objects src).body.cls)
    (huntouched : c.stream.failed = false → ¬ (c.objects dst).Untouched)
    (hpend : (c.objects src).body.pending = []) :
    ((c.assign dst src).1 = .ok () → Inv (c.assign dst src).2
      (Function.update (Function.update a src ((c.objects src).body.keeps (a src))) dst (a src))
      (Function.update t dst (t src))) ∧
    ((c.assign dst src).1 ≠ .ok () → Inv (c.assign dst src).2 a
      (Function.update t dst (t dst + discarded c (c.assign dst src).2 dst))) := by
  have hdst : (c.objects dst).body.cls ≠ none := by rwa [hsame]
  rcases hobj : c.objects dst with ⟨conn, b⟩
  rw [hobj] at hdst hsame
  cases b with
  | gone | queued => exact absurd rfl hdst
  | single k v =>
    have hsrc : (c.objects src).body.cls = some (.single k) := hsame.symm
    have hmove {c₁ : Connection} (hinv : Inv c₁ a t)
        (hc : ∀ j, (c₁.objects j).body.cls = (c.objects j).body.cls)
        (hoff : (c₁.objects dst).conn = false) :
        Inv (c₁.moveInto dst src) (Function.update (Function.update a src
          ((c.objects src).body.keeps (a src))) dst (a src)) (Function.update t dst (t src)) := by
      have hnil : (c₁.objects src).body.pending = [] := by
        have hcs := (hc src).trans hsrc
        cases hbody : (c₁.objects src).body with
        | gone | queued | single => rfl
        | multi =>
          rw [hbody] at hcs
          cases hcs
      have hres := moveInto_inv hinv hne.symm (by rw [hc]; exact hcls) hnil
        (by rw [hc, hobj]; exact hdst) fun _ => by simp [BaseReply.Idle, hoff]
      rwa [Body.keeps_of_cls (hc src)] at hres
    cases conn with
    | false =>
      have heq : c.assign dst src = (.ok (), c.moveInto dst src) := by
        simp only [Connection.assign, hobj, result_stored hobj]
      rw [heq]
      exact ⟨fun _ => hmove h (fun _ => rfl) (by rw [hobj]), fun hc => absurd rfl hc⟩
    | true =>
      have hres := result_waiting h hobj
      rcases hone : c.result dst with ⟨e | v', c₁⟩
      · have heq : c.assign dst src = (.error e, c₁) := by
          simp only [Connection.assign, hobj, hone]
        rw [hone] at hres
        rw [heq]
        refine ⟨fun hc => (by cases hc), fun _ => ?_⟩
        have hc₁ := hres.cls dst
        have hzero : discarded c c₁ dst = 0 := by
          have hcount (b : Body) (hb : b.cls = some (.single k)) : b.count = 0 := by
            cases b <;> first | rfl | cases hb
          rw [discarded, hobj, hcount (c₁.objects dst).body (by rw [hc₁, hobj]; rfl)]
          rfl
        simpa [hzero] using hres.inv
      · have heq : c.assign dst src = (.ok (), c₁.moveInto dst src) := by
          simp only [Connection.assign, hobj, hone]
        rw [hone] at hres
        rw [heq]
        exact ⟨fun _ => hmove hres.inv hres.cls (hres.done v' rfl).1, fun hc => absurd rfl hc⟩
  | multi hd n p =>
    by_cases hread : conn = true ∧ 0 < n
    · obtain ⟨rfl, hn⟩ := hread
      obtain ⟨rfl, hhead⟩ := h.counting hobj
      obtain rfl : hd = true := by
        by_contra hc
        rw [hhead (by simpa using hc)] at hn
        exact absurd hn (by simp)
      obtain ⟨conn', n', hd⟩ := drain_strings h hobj
      obtain ⟨hdo, hdoth, hdcon, hdless, hdinv, -, hdend, -⟩ := hd
      rcases hone : untilEnd (Connection.nextString dst) (c.rounds []) c with ⟨e | xs, c₁⟩
      · have heq : c.assign dst src = (.error e, c₁) := by
          simp only [Connection.assign, hobj, hn, and_self, if_true, hone]
        rw [hone] at hdinv hdo
        have hdis : discarded c c₁ dst = (n - n').toNat := by
          rw [discarded, hobj, hdo]
          rfl
        rw [heq]
        exact ⟨fun hc => (by cases hc), fun _ => by rw [hdis]; exact hdinv⟩
      · have heq : c.assign dst src = (.ok (), c₁.moveInto dst src) := by
          simp only [Connection.assign, hobj, hn, and_self, if_true, hone]
        rw [hone] at hdinv hdo hdoth hdend
        obtain rfl := hdend xs rfl
        have hsrc := hdoth src hne.symm
        have hres := moveInto_inv hdinv hne.symm (by rw [hsrc]; exact hcls)
          (by rw [hsrc]; exact hpend) (by rw [hdo]; simp [Body.cls]) fun _ => by
            rw [hdo]
            exact idle_of_conn
        rw [hsrc, Function.update_idem, Function.update_of_ne hne.symm] at hres
        rw [heq]
        exact ⟨fun _ => hres, fun hc => absurd rfl hc⟩
    · have heq : c.assign dst src = (.ok (), c.moveInto dst src) := by
        simp only [Connection.assign, hobj, hread, if_false]
      rw [heq]
      refine ⟨fun _ => moveInto_inv h hne.symm hcls hpend (by rw [hobj]; exact hdst) fun hf => ?_,
        fun hc => absurd rfl hc⟩
      rw [hobj]
      cases conn with
      | false => exact idle_of_conn
      | true =>
        rw [idle_multi]
        refine ⟨?_, by simpa using hread⟩
        by_contra hc
        obtain rfl : hd = false := by simpa using hc
        exact huntouched hf ⟨n, p, hobj⟩

/-! ## Destruction -/

/-- Leaving the list and the program at once. -/
theorem Inv.gone {c : Connection} {a : Nat → Option Resp} {t t' : Nat → Nat} (h : Inv c a t)
    {id : Nat} (hidle : c.stream.failed = false → (c.objects id).Idle) (hb : id < c.constructed)
    (ht : ∀ j, j ≠ id → t' j = t j) :
    Inv ((c.unlink id).put id ⟨false, .gone⟩) (Function.update a id none) t' :=
  h.retire (Moved.put_unlink c c.stream id .gone) rfl hidle hb rfl
    (fun _ => .ended rfl fun hc => by cases hc) (fun j hj => Function.update_of_ne hj _ _) ht

/-- A destructor that finishes its object leaves nothing of its reply behind. -/
theorem destroy_inv {s : Session} (h : Inv s.conn s.answer s.taken) {id : Nat}
    (hcls : (s.conn.objects id).body.cls ≠ none) (hleaves : s.Leaves id) :
    Inv (s.conn.destroy id) (Function.update s.answer id none) s.taken := by
  have hb : id < s.conn.constructed := h.constructed_of_cls fun hg => hcls (by rw [hg]; rfl)
  rcases hobj : s.conn.objects id with ⟨conn, b⟩
  rw [hobj] at hcls
  cases b with
  | gone | queued => exact absurd rfl hcls
  | single k v =>
    cases conn with
    | false =>
      have heq : s.conn.finish id = s.conn := by
        simp only [Connection.finish, hobj, result_stored hobj]
      rw [Connection.destroy, heq]
      exact h.gone (fun _ => by rw [hobj]; exact idle_of_conn) hb fun _ _ => rfl
    | true =>
      have hres := result_waiting h hobj
      have heq : s.conn.finish id = (s.conn.result id).2 := by
        simp only [Connection.finish, hobj]
      rw [Connection.destroy, heq]
      refine hres.inv.gone (fun hf => ?_) (hres.constructed ▸ hb) fun _ _ => rfl
      have hf₀ : s.conn.stream.failed = false := by
        by_contra hc
        rw [hres.failed (by simpa using hc)] at hf
        cases hf
      have hgood := hleaves hf₀
      simp only [hobj] at hgood
      intro hc
      rw [hres.read hf₀ hgood] at hc
      cases hc
  | multi hd n p =>
    by_cases hread : conn = true ∧ 0 < n
    · obtain ⟨rfl, hn⟩ := hread
      obtain ⟨rfl, hhead⟩ := h.counting hobj
      obtain rfl : hd = true := by
        by_contra hc
        rw [hhead (by simpa using hc)] at hn
        exact absurd hn (by simp)
      obtain ⟨conn', n', hd⟩ := drain_strings h hobj
      obtain ⟨hdo, -, hdcon, -, hdinv, hdfail, -, hdidle⟩ := hd
      have heq : s.conn.finish id =
          (untilEnd (Connection.nextString id) (s.conn.rounds []) s.conn).2 := by
        simp only [Connection.finish, hobj, hn, and_self, if_true]
      rw [Connection.destroy, heq]
      refine hdinv.gone (fun hf => ?_) (hdcon ▸ hb) fun j hj => (Function.update_of_ne hj _ _).symm
      have hf₀ : s.conn.stream.failed = false := by
        by_contra hc
        rw [hdfail (by simpa using hc)] at hf
        cases hf
      obtain ⟨es, ha, -⟩ := h.left hobj hf₀ hn
      have hnull := hleaves hf₀
      simp only [hobj] at hnull
      rw [hdo]
      rcases hdidle hf₀ es ha (hnull es ha) with rfl | hle
      · exact idle_of_conn
      · intro _
        exact ⟨n', [], rfl, hle⟩
    · have heq : s.conn.finish id = s.conn := by
        simp only [Connection.finish, hobj, hread, if_false]
      rw [Connection.destroy, heq]
      refine h.gone (fun hf => ?_) hb fun _ _ => rfl
      rw [hobj]
      cases conn with
      | false => exact idle_of_conn
      | true =>
        rw [idle_multi]
        refine ⟨?_, by simpa using hread⟩
        by_contra hc
        obtain rfl : hd = false := by simpa using hc
        have hnever := hleaves hf
        simp only [hobj] at hnever

/-! ## Construction -/

/-- What the replies rest on of a connection. -/
theorem Inv.congr {c c' : Connection} {a : Nat → Option Resp} {t : Nat → Nat} (h : Inv c a t)
    (hs : c'.stream = c.stream) (hl : c'.outstandingReplies = c.outstandingReplies)
    (ho : c'.objects = c.objects) (hn : c'.constructed = c.constructed)
    (ht : c'.transaction = c.transaction) : Inv c' a t := by
  obtain ⟨cs, cb, cl, co, cn, ct, cw⟩ := c
  obtain ⟨cs', cb', cl', co', cn', ct', cw'⟩ := c'
  simp only at hs hl ho hn ht
  subst hs hl ho hn ht
  exact ⟨h.nodup, h.bound, h.absent, h.linked, h.owns, h.live, h.flow, h.settled, h.outside⟩

/-- Executing a command changes nothing that has been read or answered. -/
theorem executeCommand_inv {c : Connection} {a : Nat → Option Resp} {t : Nat → Nat}
    (h : Inv c a t) (r : Request) : Inv (c.executeCommand r).2 a t ∧
      (c.executeCommand r).2.stream = c.stream ∧
      (c.executeCommand r).2.constructed = c.constructed := by
  simp only [Connection.executeCommand]
  rcases r.execute c.buffer.resetToMark with ⟨e | ⟨⟩, b⟩
  · exact ⟨h.congr rfl rfl rfl rfl rfl, rfl, rfl⟩
  · split_ifs
    · exact ⟨h.congr rfl rfl rfl rfl rfl, rfl, rfl⟩
    · exact ⟨h.congr rfl rfl rfl rfl rfl, rfl, rfl⟩

/-- A fresh object and its reply come behind all others. -/
theorem construct_inv {c : Connection} {a : Nat → Option Resp} {t : Nat → Nat} (h : Inv c a t)
    (cls : ReplyClass) (b : Bytes) (ans : Option Resp)
    (hans : c.stream.failed = false → ∃ r, ans = some r ∧ b = r.text ∧ cls.Accepts r ∧
      r.WellFormed) :
    Inv ((c.construct cls.fresh).arrive b) (Function.update a c.constructed ans) t := by
  have hshape : c.construct cls.fresh = { c.put c.constructed ⟨true, cls.fresh⟩ with
      outstandingReplies := c.outstandingReplies ++ [c.constructed]
      constructed := c.constructed + 1 } := by
    simp only [Connection.construct, h.outside]
  have hfree : c.constructed ∉ c.outstandingReplies := fun hm => absurd (h.bound _ hm) (by simp)
  have hobj (j : Nat) (hj : j ≠ c.constructed) :
      Function.update c.objects c.constructed ⟨true, cls.fresh⟩ j = c.objects j :=
    Function.update_of_ne hj _ _
  rw [hshape]
  refine ⟨?_, ?_, ?_, ?_, ?_, ?_, ?_, ?_, h.outside⟩
  · exact h.nodup.append (List.nodup_singleton _) (by simpa using hfree)
  · intro j hj
    rcases List.mem_append.mp hj with hj | hj
    · exact Nat.lt_succ_of_lt (h.bound j hj)
    · rw [List.mem_singleton.mp hj]
      exact Nat.lt_succ_self _
  · intro j hj
    have hj' : c.constructed + 1 ≤ j := hj
    have hgone := h.absent j (by omega)
    exact ⟨(hobj j (by omega)).trans hgone.1, hgone.2⟩
  · intro j hj
    by_cases hne : j = c.constructed
    · rw [hne]
      exact List.mem_append_right _ (List.mem_singleton_self _)
    · exact List.mem_append_left _ (h.linked j (by rw [← hobj j hne]; exact hj))
  · intro j
    by_cases hne : j = c.constructed
    · subst hne
      simp only [Connection.arrive, Connection.withStream, Connection.put, Function.update_self]
      cases cls with
      | single k => exact .inl rfl
      | multi => exact ⟨fun _ => rfl, .inl rfl⟩
    · simp only [Connection.arrive, Connection.withStream, Connection.put, hobj j hne,
        Function.update_of_ne hne]
      exact h.owns j
  · intro hf j
    by_cases hne : j = c.constructed
    · subst hne
      obtain ⟨r, rfl, -, hacc, hr⟩ := hans hf
      simp only [Connection.arrive, Connection.withStream, Connection.put, Function.update_self]
      cases cls with
      | single k => exact .waiting hacc hr
      | multi =>
        rw [(h.absent _ le_rfl).2]
        exact .header hacc hr
    · simp only [Connection.arrive, Connection.withStream, Connection.put, hobj j hne,
        Function.update_of_ne hne]
      exact h.live hf j
  · intro hf
    obtain ⟨r, rfl, rfl, -, -⟩ := hans hf
    obtain ⟨gap, hgap, hin⟩ := h.flow hf
    refine ⟨gap, hgap, ?_⟩
    have hlast : unread ⟨true, cls.fresh⟩ (some r) = r.text := by
      cases cls <;> rfl
    have hrest : (c.outstandingReplies.flatMap fun j =>
        unread (Function.update c.objects c.constructed ⟨true, cls.fresh⟩ j)
          (Function.update a c.constructed (some r) j)) =
        c.outstandingReplies.flatMap fun j => unread (c.objects j) (a j) :=
      List.flatMap_congr fun j hj => by
        have hne := ne_of_mem_of_not_mem hj hfree
        rw [hobj j hne, Function.update_of_ne hne]
    simp only [Connection.arrive, Connection.withStream, Connection.put, List.flatMap_append,
      List.flatMap_cons, List.flatMap_nil, Function.update_self, hlast, hrest, List.append_nil]
    rw [hin, List.append_assoc]
  · intro y n p hy j hj
    have hy' : Function.update c.objects c.constructed ⟨true, cls.fresh⟩ y =
        ⟨true, .multi true n p⟩ := hy
    have hne : y ≠ c.constructed := by
      rintro rfl
      rw [Function.update_self] at hy'
      cases cls <;> cases hy'
    rw [hobj y hne] at hy'
    have hmem := h.linked y (by rw [hy'])
    have hj' : j ∈ (c.outstandingReplies ++ [c.constructed]).takeWhile (· ≠ y) := hj
    obtain ⟨pre, post, hout⟩ := List.append_of_mem hmem
    have hnodup := h.nodup
    rw [hout, List.nodup_append] at hnodup
    have hpre : y ∉ pre := fun hm => hnodup.2.2 y hm y List.mem_cons_self rfl
    have hfront : j ∈ c.inFront y := by
      rw [Connection.inFront, hout, takeWhile_eq_of_split hpre]
      rwa [hout, List.append_assoc, List.cons_append, takeWhile_eq_of_split hpre] at hj'
    have hjne : j ≠ c.constructed := ne_of_mem_of_not_mem (mem_of_inFront hfront) hfree
    show (Function.update c.objects c.constructed ⟨true, cls.fresh⟩ j).Idle
    rw [hobj j hjne]
    exact h.settled y n p hy' j hfront

end AsioCoroFrame.Redispp
