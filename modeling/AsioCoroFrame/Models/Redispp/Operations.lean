import AsioCoroFrame.Models.Redispp.Clearing

/-!
# What a program does with reply objects

Every operation of a program keeps the replies apart: a result and an element
come from the object's own reply, a copy takes the place of its source, an
assignment that of what it overwrites, and a destructor reads what is left.
-/

namespace AsioCoroFrame.Redispp

/-! ## Asking for a result -/

theorem not_mem_inFront (c : Connection) (id : Nat) : id ∉ c.inFront id := by
  intro hm
  simpa using List.mem_takeWhile_imp hm

theorem mem_of_inFront {c : Connection} {id j : Nat} (h : j ∈ c.inFront id) :
    j ∈ c.outstandingReplies := (List.takeWhile_prefix _).subset h

/-- Once the replies in front are cleared, an outstanding object comes behind idle ones. -/
theorem Clears.front {c c₁ : Connection} {a : Nat → Option Resp} {t : Nat → Nat} {id : Nat}
    (h : Clears c a t (c.inFront id).reverse (.ok (), c₁)) (hnodup : c.outstandingReplies.Nodup)
    (hmem : id ∈ c.outstandingReplies) : c₁.objects id = c.objects id ∧
      ∃ pre post, c₁.outstandingReplies = pre ++ id :: post ∧ ∀ j ∈ pre, (c₁.objects j).Idle := by
  have hnot : id ∉ (c.inFront id).reverse := by simpa using not_mem_inFront c id
  obtain ⟨q, hq, hlinks⟩ := h.frame.links
  obtain ⟨pre, post, hout⟩ := List.append_of_mem hmem
  rw [hout, List.nodup_append] at hnodup
  have hpre : id ∉ pre := fun hm => hnodup.2.2 id hm id List.mem_cons_self rfl
  have hfront : c.inFront id = pre := by
    rw [Connection.inFront, hout, takeWhile_eq_of_split hpre]
  refine ⟨h.frame.objects id hnot, pre.filter q, post.filter q, ?_, ?_⟩
  · rw [hlinks, hout, List.filter_append, List.filter_cons_of_pos (hq id hnot)]
  · intro j hj
    refine h.idle rfl j ?_
    rw [hfront]
    exact List.mem_reverse.mpr (List.mem_of_mem_filter hj)

/-- The objects that are still to be read in front of one are answered without an exception. -/
def Connection.FrontGood (c : Connection) (a : Nat → Option Resp) (id : Nat) : Prop :=
  ∀ j ∈ c.inFront id, (c.objects j).Idle ∨ ∃ r, a j = some r ∧ r.Good

/-- Asking an object for its single result: what is returned is the value of its own reply. -/
structure Results (c : Connection) (a : Nat → Option Resp) (t : Nat → Nat) (id : Nat) (k : Kind)
    (p : Except Exception Value × Connection) : Prop where
  inv : Inv p.2 a t
  cls : ∀ j, (p.2.objects j).body.cls = (c.objects j).body.cls
  constructed : p.2.constructed = c.constructed
  failed : c.stream.failed = true → p.2.stream.failed = true
  read : c.stream.failed = false → c.FrontGood a id → (p.2.objects id).conn = false
  done : ∀ w, p.1 = .ok w → (p.2.objects id).conn = false ∧ p.2.objects id = ⟨false, .single k w⟩
  ok_iff : c.stream.failed = false → ∀ w,
    (p.1 = .ok w ↔ c.FrontGood a id ∧ ∃ r, a id = some r ∧ k.value r = some w)

/-- A waiting object returns the value of its own reply, or an exception. -/
theorem result_waiting {c : Connection} {a : Nat → Option Resp} {t : Nat → Nat} (h : Inv c a t)
    {id : Nat} {k : Kind} {v : Value} (hobj : c.objects id = ⟨true, .single k v⟩) :
    Results c a t id k (c.result id) := by
  have hmem : id ∈ c.outstandingReplies := h.linked id (by rw [hobj])
  have hclears := clearPendingResults_clears h id
  have hfront (hf : c.stream.failed = false) :
      ((c.clearPendingResults id).1 = .ok () ↔ c.FrontGood a id) := by
    rw [hclears.ok_iff hf]
    simp only [List.mem_reverse, Connection.FrontGood]
  rcases hclear : c.clearPendingResults id with ⟨e | ⟨⟩, c₁⟩
  · have hres : c.result id = (.error e, c₁) := by
      simp only [Connection.result, Connection.readResult, hobj, hclear]
    rw [hclear] at hclears hfront
    rw [hres]
    refine ⟨hclears.inv, hclears.cls, hclears.frame.constructed, hclears.failed, fun hf hg => ?_,
      by simp, fun hf w => ⟨by simp, fun hg => ?_⟩⟩
    · cases (hfront hf).mpr hg
    · cases (hfront hf).mpr hg.1
  · rw [hclear] at hclears hfront
    obtain ⟨hid, pre, post, hout, hidle⟩ := hclears.front h.nodup hmem
    rw [hobj] at hid
    obtain ⟨hreads, hvalue⟩ := readSingle_reads hclears.inv hout hidle hid
    have hread : c.readResult (Connection.clearPendingResults id) id = c₁.readSingle id k v := by
      simp only [Connection.readResult, hobj, hclear]
    obtain ⟨hinv, ⟨o, hm, hcls, hdone⟩, hfail, hsound, hok⟩ := hreads
    have hcls' (j : Nat) : ((c₁.readSingle id k v).2.objects j).body.cls =
        (c.objects j).body.cls := by
      rw [hm.objects, ← hclears.cls j]
      by_cases hne : j = id
      · subst hne
        rw [Function.update_self, hcls]
      · rw [Function.update_of_ne hne]
    have hoff : ((c₁.readSingle id k v).2.objects id).conn = false := by
      simp only [Connection.readSingle]
      rcases k.read c₁.stream with ⟨e | w, s⟩ <;> simp
    have hconstructed := hm.constructed.trans hclears.frame.constructed
    rcases hone : c₁.readSingle id k v with ⟨e | ⟨⟩, c₂⟩
    · have hres : c.result id = (.error e, c₂) := by
        simp only [Connection.result, hread, hone]
      rw [hone] at hinv hfail hsound hok hcls' hoff hconstructed
      rw [hres]
      refine ⟨hinv, hcls', hconstructed, fun hf => (hfail (hclears.failed hf)).1,
        fun _ _ => hoff, by simp, fun hf w => ⟨by simp, ?_⟩⟩
      rintro ⟨-, r, hr, hw⟩
      cases (hok (hclears.sound rfl hf)).mpr ⟨r, hr, Kind.good_of_value hw⟩
    · rw [hone] at hinv hfail hsound hok hcls' hoff hconstructed hvalue
      obtain ⟨r, w, hr, hw, hobj₂⟩ := hvalue rfl
      have hbody : (c₂.objects id).body = .single k w := congrArg BaseReply.body hobj₂
      have hres : c.result id = (.ok w, c₂) := by
        simp only [Connection.result, hread, hone, hbody]
      rw [hres]
      refine ⟨hinv, hcls', hconstructed, fun hf => (hfail (hclears.failed hf)).1,
        fun _ _ => hoff, ?_, fun hf w' => ⟨?_, ?_⟩⟩
      · rintro w' hw'
        cases hw'
        exact ⟨hoff, hobj₂⟩
      · rintro hw'
        cases hw'
        exact ⟨(hfront hf).mp rfl, r, hr, hw⟩
      · rintro ⟨-, r', hr', hw'⟩
        rw [hr] at hr'
        cases hr'
        rw [hw] at hw'
        cases hw'
        rfl

/-- An object that has been read returns what it has stored. -/
theorem result_stored {c : Connection} {id : Nat} {k : Kind} {v : Value}
    (hobj : c.objects id = ⟨false, .single k v⟩) : c.result id = (.ok v, c) := by
  have hread : c.readResult (Connection.clearPendingResults id) id = (.ok (), c) :=
    readResult_idle (by rw [hobj]; exact idle_of_conn) _
  simp only [Connection.result, hread, hobj]

/-! ## Asking for an element -/

/-- Asking an enumerator for an element: what it gives is the next of its own reply. -/
structure Gives (c : Connection) (a : Nat → Option Resp) (t : Nat → Nat) (id : Nat)
    (p : Except Exception (Option (Option Bytes)) × Connection) : Prop where
  inv : Inv p.2 a (Function.update t id (t id + given p.1))
  cls : ∀ j, (p.2.objects j).body.cls = (c.objects j).body.cls
  constructed : p.2.constructed = c.constructed
  failed : c.stream.failed = true → p.2.stream.failed = true
  ok_iff : c.stream.failed = false → ∀ es, a id = some (.multi (some es)) → ∀ o,
    (p.1 = .ok o ↔ ((c.objects id).Untouched → c.FrontGood a id) ∧ o = es[t id]?)

/-- An object in front of which everything is idle, if it is outstanding at all. -/
theorem Inv.front {c : Connection} {a : Nat → Option Resp} {t : Nat → Nat} (h : Inv c a t)
    {id : Nat} {n : Int} {p : List (Option Bytes)}
    (hobj : c.objects id = ⟨true, .multi true n p⟩) :
    ∃ pre post, c.outstandingReplies = pre ++ id :: post ∧ ∀ j ∈ pre, (c.objects j).Idle := by
  obtain ⟨pre, post, hout⟩ := List.append_of_mem (h.linked id (by rw [hobj]))
  have hnodup := h.nodup
  rw [hout, List.nodup_append] at hnodup
  have hpre : id ∉ pre := fun hm => hnodup.2.2 id hm id List.mem_cons_self rfl
  refine ⟨pre, post, hout, fun j hj => h.settled id n p hobj j ?_⟩
  rwa [Connection.inFront, hout, takeWhile_eq_of_split hpre]

/-- The classes of all objects survive a change of one that keeps its own. -/
theorem Moved.cls {c c' : Connection} {id : Nat} {o : BaseReply} (h : Moved c c' id o)
    (ho : o.body.cls = (c.objects id).body.cls) (j : Nat) :
    (c'.objects j).body.cls = (c.objects j).body.cls := by
  rw [h.objects]
  by_cases hne : j = id
  · subst hne
    rw [Function.update_self, ho]
  · rw [Function.update_of_ne hne]

/-- An enumerator gives the next element of its own reply, or an exception. -/
theorem next_gives {c : Connection} {a : Nat → Option Resp} {t : Nat → Nat} (h : Inv c a t)
    {id : Nat} {conn hd : Bool} {n : Int} {p : List (Option Bytes)}
    (hobj : c.objects id = ⟨conn, .multi hd n p⟩) : Gives c a t id (c.next id) := by
  by_cases hun : (c.objects id).Untouched
  · obtain ⟨m, q, heq⟩ := hun
    have hmem : id ∈ c.outstandingReplies := h.linked id (by rw [heq])
    obtain rfl : q = [] := by
      have hown := h.owns id
      rw [heq] at hown
      exact hown.2.resolve_right (by simp)
    have hun : (c.objects id).Untouched := ⟨m, [], heq⟩
    have hclears := clearPendingResults_clears h id
    have hfront (hf : c.stream.failed = false) :
        ((c.clearPendingResults id).1 = .ok () ↔ c.FrontGood a id) := by
      rw [hclears.ok_iff hf]
      simp only [List.mem_reverse, Connection.FrontGood]
    rcases hclear : c.clearPendingResults id with ⟨e | ⟨⟩, c₁⟩
    · have hres : c.next id = (.error e, c₁) := by
        simp only [Connection.next, Connection.nextOptional, heq, hclear]
      rw [hclear] at hclears hfront
      rw [hres]
      refine ⟨by simpa [given] using hclears.inv, hclears.cls, hclears.frame.constructed,
        hclears.failed, fun hf es ha o => ⟨by simp, fun hg => ?_⟩⟩
      cases (hfront hf).mpr (hg.1 hun)
    · have hres : c.next id = c₁.readHeader id m := by
        simp only [Connection.next, Connection.nextOptional, heq, hclear]
      rw [hclear] at hclears hfront
      obtain ⟨hid, pre, post, hout, hidle⟩ := hclears.front h.nodup hmem
      rw [heq] at hid
      have htakes := readHeader_takes hclears.inv hout hidle hid
      obtain ⟨o, hm, ho⟩ := htakes.moved
      rw [hres]
      refine ⟨htakes.inv, fun j => (hm.cls ho j).trans (hclears.cls j),
        hm.constructed.trans hclears.frame.constructed,
        fun hf => htakes.failed (hclears.failed hf), fun hf es ha o => ?_⟩
      rw [htakes.value (hclears.sound rfl hf) es ha, Except.ok.injEq]
      exact ⟨fun he => ⟨fun _ => (hfront hf).mp rfl, he.symm⟩, fun hg => hg.2.symm⟩
  · have hsame : c.next id = c.nextOptional (fun c => (.ok (), c)) id := by
      cases conn with
      | false => cases p <;> simp only [Connection.next, Connection.nextOptional, hobj]
      | true =>
        cases hd with
        | false => exact absurd ⟨n, p, hobj⟩ hun
        | true => cases p <;> simp only [Connection.next, Connection.nextOptional, hobj]
    have htakes := nextOptional_takes h (fun c => (.ok (), c)) rfl hobj fun hc => by
      subst hc
      cases hd with
      | false => exact absurd ⟨n, p, hobj⟩ hun
      | true => exact h.front hobj
    obtain ⟨o, hm, ho⟩ := htakes.moved
    rw [hsame]
    refine ⟨htakes.inv, hm.cls ho, hm.constructed, htakes.failed, fun hf es ha o => ?_⟩
    rw [htakes.value hf es ha, Except.ok.injEq]
    exact ⟨fun he => ⟨fun hc => absurd hc hun, he.symm⟩, fun hg => hg.2.symm⟩

/-! ## Copies and assignments -/

/-- What is in front of an object after another has taken a place in the list. -/
theorem mem_takeWhile_map {src dst y j : Nat} {l : List Nat} (hdst : dst ≠ y) (hsrc : src ≠ y)
    (hj : j ∈ (l.map fun i => if i = src then dst else i).takeWhile (· ≠ y)) :
    ∃ i ∈ l.takeWhile (· ≠ y), j = if i = src then dst else i := by
  rw [List.takeWhile_map, List.mem_map] at hj
  obtain ⟨i, hi, rfl⟩ := hj
  have hpred : (fun j => decide (j ≠ y)) ∘ (fun i => if i = src then dst else i) =
      fun i => decide (i ≠ y) := by
    funext i
    by_cases he : i = src
    · simp [he, hdst, hsrc]
    · simp [he]
  rw [hpred] at hi
  exact ⟨i, hi, rfl⟩

/-- What is in front of the place an object has taken. -/
theorem takeWhile_map_self {src dst : Nat} {l : List Nat} (hfree : dst ∉ l) :
    (l.map fun i => if i = src then dst else i).takeWhile (· ≠ dst) =
      l.takeWhile (· ≠ src) := by
  induction l with
  | nil => rfl
  | cons i l ih =>
    obtain ⟨hi, hl⟩ := not_or.mp (fun he => hfree (List.mem_cons.mpr he))
    by_cases he : i = src
    · simp [he]
    · rw [List.map_cons, if_neg he, List.takeWhile_cons_of_pos (by simpa using Ne.symm hi),
        List.takeWhile_cons_of_pos (by simpa using he), ih hl]

section Relocate

variable {c c' : Connection} {a : Nat → Option Resp} {t : Nat → Nat} {src dst : Nat}

/-- One object takes the place of another, and its reply. -/
theorem Inv.relocate (h : Inv c a t) (hne : src ≠ dst) (hgone : c.objects dst = ⟨false, .gone⟩)
    (hfree : dst ∉ c.outstandingReplies) (hb : dst < c'.constructed)
    (hle : c.constructed ≤ c'.constructed) (hcls : (c.objects src).body.cls ≠ none)
    (hobj : c'.objects = Function.update (Function.update c.objects src
      ⟨false, (c.objects src).body.copied⟩) dst (c.objects src))
    (hlinks : c'.outstandingReplies = if (c.objects src).conn then
      c.outstandingReplies.map (fun j => if j = src then dst else j) else
        c.outstandingReplies.filter (· ≠ src))
    (hs : c'.stream = c.stream) (htr : c'.transaction = c.transaction) :
    Inv c' (Function.update (Function.update a src ((c.objects src).body.keeps (a src))) dst
      (a src)) (Function.update t dst (t src)) := by
  have hsrc : src < c.constructed := h.constructed_of_cls fun hg => hcls (by rw [hg]; rfl)
  have hodst : c'.objects dst = c.objects src := by rw [hobj, Function.update_self]
  have hosrc : c'.objects src = ⟨false, (c.objects src).body.copied⟩ := by
    rw [hobj, Function.update_of_ne hne, Function.update_self]
  have hoelse (j : Nat) (hd : j ≠ dst) (hj : j ≠ src) : c'.objects j = c.objects j := by
    rw [hobj, Function.update_of_ne hd, Function.update_of_ne hj]
  have hnd (j : Nat) (hj : j ∈ c.outstandingReplies) : j ≠ dst := fun he => hfree (he ▸ hj)
  refine ⟨?_, ?_, ?_, ?_, ?_, ?_, ?_, ?_, htr.trans h.outside⟩
  · rw [hlinks]
    split_ifs with hc
    · refine List.Nodup.map_on ?_ h.nodup
      intro x hx y hy he
      have hxd := hnd x hx
      have hyd := hnd y hy
      split_ifs at he with h₁ h₂ h₂
      · rw [h₁, h₂]
      · exact absurd he.symm hyd
      · exact absurd he hxd
      · exact he
    · exact h.nodup.filter _
  · intro j hj
    rw [hlinks] at hj
    split_ifs at hj with hc
    · obtain ⟨i, hi, rfl⟩ := List.mem_map.mp hj
      split_ifs with he
      · exact hb
      · exact lt_of_lt_of_le (h.bound i hi) hle
    · exact lt_of_lt_of_le (h.bound j (List.mem_of_mem_filter hj)) hle
  · intro j hj
    have hd : j ≠ dst := by omega
    rw [hoelse j hd (by omega), Function.update_of_ne hd]
    exact h.absent j (by omega)
  · intro j hj
    rw [hlinks]
    by_cases hd : j = dst
    · subst hd
      rw [hodst] at hj
      rw [if_pos hj]
      exact List.mem_map.mpr ⟨src, h.linked src hj, if_pos rfl⟩
    · by_cases hjs : j = src
      · subst hjs
        rw [hosrc] at hj
        cases hj
      · rw [hoelse j hd hjs] at hj
        split_ifs with hc
        · exact List.mem_map.mpr ⟨j, h.linked j hj, if_neg hjs⟩
        · exact List.mem_filter.mpr ⟨h.linked j hj, by simpa using hjs⟩
  · intro j
    by_cases hd : j = dst
    · subst hd
      rw [hodst, Function.update_self, Function.update_self]
      exact h.owns src
    · by_cases hjs : j = src
      · subst hjs
        have hown := h.owns j
        rw [hosrc, Function.update_of_ne hd, Function.update_of_ne hd, Function.update_self]
        cases hbody : (c.objects j).body with
        | gone => rfl
        | queued =>
          rw [hbody] at hcls
          exact absurd rfl hcls
        | single k v =>
          simp only [Owns, hbody] at hown
          exact hown
        | multi =>
          simp only [Owns, hbody] at hown
          exact ⟨hown.1, .inl rfl⟩
      · rw [hoelse j hd hjs, Function.update_of_ne hd, Function.update_of_ne hjs,
          Function.update_of_ne hd]
        exact h.owns j
  · intro hf j
    rw [hs] at hf
    by_cases hd : j = dst
    · subst hd
      rw [hodst, Function.update_self, Function.update_self]
      exact h.live hf src
    · by_cases hjs : j = src
      · subst hjs
        rw [hosrc, Function.update_of_ne hd, Function.update_of_ne hd, Function.update_self]
        cases (c.objects j).body with
        | gone | queued => exact .ended rfl fun hc => by cases hc
        | single => exact .ended rfl fun hc => by cases hc
        | multi => exact .ended rfl fun _ es he => by cases he
      · rw [hoelse j hd hjs, Function.update_of_ne hd, Function.update_of_ne hjs,
          Function.update_of_ne hd]
        exact h.live hf j
  · intro hf
    rw [hs] at hf
    obtain ⟨gap, hgap, hin⟩ := h.flow hf
    refine ⟨gap, hgap, ?_⟩
    rw [hs, hin, hlinks]
    congr 1
    split_ifs with hc
    · rw [List.flatMap_map]
      refine List.flatMap_congr fun j hj => ?_
      by_cases hjs : j = src
      · subst hjs
        rw [if_pos rfl, hodst, Function.update_self]
      · rw [if_neg hjs, hoelse j (hnd j hj) hjs, Function.update_of_ne (hnd j hj),
          Function.update_of_ne hjs]
    · have hquiet : unread (c.objects src) (a src) = [] := by
        rcases ho : c.objects src with ⟨conn, b⟩
        rw [ho] at hc
        obtain rfl : conn = false := by simpa using hc
        exact unread_false b _
      rw [← flatMap_filter_of_nil (f := fun j => unread (c.objects j) (a j)) hquiet]
      refine List.flatMap_congr fun j hj => ?_
      obtain ⟨hj, hjs⟩ := List.mem_filter.mp hj
      have hjs : j ≠ src := by simpa using hjs
      rw [hoelse j (hnd j hj) hjs, Function.update_of_ne (hnd j hj), Function.update_of_ne hjs]
  · intro y n p hy j hj
    have hys : y ≠ src := by
      rintro rfl
      rw [hosrc] at hy
      cases hy
    by_cases hyd : y = dst
    · subst hyd
      rw [hodst] at hy
      have hc : (c.objects src).conn = true := by rw [hy]
      rw [Connection.inFront, hlinks, if_pos hc, takeWhile_map_self hfree] at hj
      have hjs : j ≠ src := by
        rintro rfl
        exact not_mem_inFront c j hj
      rw [hoelse j (hnd j (mem_of_inFront hj)) hjs]
      exact h.settled src n p hy j hj
    · rw [hoelse y hyd hys] at hy
      rw [Connection.inFront, hlinks] at hj
      split_ifs at hj with hc
      · obtain ⟨i, hi, rfl⟩ := mem_takeWhile_map (Ne.symm hyd) (Ne.symm hys) hj
        have hquiet := h.settled y n p hy i hi
        split_ifs with hie
        · rw [hodst, ← hie]
          exact hquiet
        · rw [hoelse i (hnd i (mem_of_inFront hi)) hie]
          exact hquiet
      · have hj := mem_takeWhile_of_filter (by simpa using hys) hj
        have hquiet := h.settled y n p hy j hj
        by_cases hjs : j = src
        · subst hjs
          rw [hosrc]
          exact idle_of_conn
        · rw [hoelse j (hnd j (mem_of_inFront hj)) hjs]
          exact hquiet

end Relocate

/-- The copy constructor keeps the replies apart. -/
theorem copy_inv {c : Connection} {a : Nat → Option Resp} {t : Nat → Nat} (h : Inv c a t)
    {src : Nat} (hcls : (c.objects src).body.cls ≠ none) :
    Inv (c.copy src) (Function.update (Function.update a src
      ((c.objects src).body.keeps (a src))) c.constructed (a src))
      (Function.update t c.constructed (t src)) := by
  have hsrc : src < c.constructed := h.constructed_of_cls fun hg => hcls (by rw [hg]; rfl)
  have hfree : c.constructed ∉ c.outstandingReplies := fun hm => absurd (h.bound _ hm) (by simp)
  refine h.relocate (by omega) (h.absent _ le_rfl).1 hfree (Nat.lt_succ_self _)
    (Nat.le_succ _) hcls ?_ ?_ ?_ ?_
  · simp [Connection.copy]
  · exact Connection.takePlace_outstandingReplies c src c.constructed
  · simp [Connection.copy]
  · simp [Connection.copy]

/-- Overwriting an idle object keeps the replies apart, unless elements read ahead are left
behind. -/
theorem moveInto_inv {c : Connection} {a : Nat → Option Resp} {t : Nat → Nat} (h : Inv c a t)
    {src dst : Nat} (hne : src ≠ dst) (hcls : (c.objects src).body.cls ≠ none)
    (hpend : (c.objects src).body.pending = [])
    (hdst : (c.objects dst).body.cls ≠ none)
    (hidle : c.stream.failed = false → (c.objects dst).Idle) :
    Inv (c.moveInto dst src) (Function.update (Function.update a src
      ((c.objects src).body.keeps (a src))) dst (a src)) (Function.update t dst (t src)) := by
  have hb : dst < c.constructed := h.constructed_of_cls fun hg => hdst (by rw [hg]; rfl)
  have hm : Moved c (((c.withStream c.stream).put dst ⟨false, .gone⟩).unlink dst) dst
      ⟨false, .gone⟩ := Moved.put_unlink c c.stream dst .gone
  have hcopied : (c.objects src).body.copied = (c.objects src).body := by
    cases hbody : (c.objects src).body with
    | gone | queued | single => rfl
    | multi =>
      rw [hbody] at hpend
      simp only [Body.pending] at hpend
      rw [hpend]
      rfl
  have hassigned : (c.objects src).body.assigned = (c.objects src).body := hcopied
  have hretired : Inv _ a t := h.retire hm rfl hidle hb rfl
    (fun _ => .ended rfl fun hc => by cases hc) (fun _ _ => rfl) fun _ _ => rfl
  have hsame : (((c.withStream c.stream).put dst ⟨false, .gone⟩).unlink dst).objects src =
      c.objects src := by
    simp [Function.update_of_ne hne]
  have hcon : (c.moveInto dst src).constructed = c.constructed := by
    simp [Connection.moveInto]
  have hrel := hretired.relocate hne (by simp) (by simp)
    (show dst < (c.moveInto dst src).constructed from hcon ▸ hb) (le_of_eq hcon.symm)
    (by rw [hsame]; exact hcls)
  rw [hsame] at hrel
  refine hrel ?_ ?_ ?_ ?_
  · have hobj : (c.moveInto dst src).objects = Function.update (Function.update c.objects src
        ⟨false, (c.objects src).body⟩) dst (c.objects src) := by
      simp [Connection.moveInto, hassigned]
    rw [hobj, hcopied, Connection.unlink_objects, Connection.put_objects,
      Connection.withStream_objects, Function.update_comm hne.symm, Function.update_idem]
  · exact Connection.takePlace_outstandingReplies (c.unlink dst) src dst
  · simp [Connection.moveInto]
  · simp [Connection.moveInto]

end AsioCoroFrame.Redispp
