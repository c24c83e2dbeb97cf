import AsioCoroFrame.Models.Redispp.Session

/-!
# Reading replies in order

What is still on the wire is the concatenation of the unread parts of the
outstanding replies, with white space in front. Every read takes the unread
part of one object off, and the loop that clears the replies in front of an
object takes theirs off first.
-/

namespace AsioCoroFrame.Redispp

/-! ## The unread part of a reply -/

/-- The bytes of its reply that an object has not read. -/
def unread (o : BaseReply) (a : Option Resp) : Bytes :=
  match o, a with
  | ⟨true, .single _ _⟩, some r => r.text
  | ⟨true, .multi false _ _⟩, some r => r.text
  | ⟨true, .multi true count _⟩, some (.multi (some es)) =>
    elementsText (es.drop (es.length - count.toNat))
  | _, _ => []

/-- How an object stands to the reply of the server and to what it has given away. -/
inductive Live : BaseReply → Option Resp → Nat → Prop
  | waiting {k v r t} : k.Accepts r → r.WellFormed → Live ⟨true, .single k v⟩ (some r) t
  | header {n r} : MultiAccepts r → r.WellFormed → Live ⟨true, .multi false n []⟩ (some r) 0
  | elements {n : Nat} {es t} : (∀ s ∈ es, BulkFits s) → t + n = es.length →
      Live ⟨true, .multi true n []⟩ (some (.multi (some es))) t
  | null {n : Int} {t} : n < 0 → Live ⟨true, .multi true n []⟩ (some (.multi none)) t
  | spent {hd n p es t} : p = es.drop t → Live ⟨false, .multi hd n p⟩ (some (.multi (some es))) t
  | ended {b a t} : b.pending = [] → (b.cls = some .multi → ∀ es, a ≠ some (.multi (some es))) →
      Live ⟨false, b⟩ a t

/-- What an object has stored comes from its own reply, whatever became of the stream. -/
def Owns (o : BaseReply) (a : Option Resp) (t : Nat) : Prop :=
  match o.body with
  | .gone => o.conn = false
  | .queued _ _ => False
  | .single k v => v = k.default ∨ ∃ r, a = some r ∧ k.value r = some v
  | .multi hd n p => (hd = false → n = 0) ∧
    (p = [] ∨ o.conn = false ∧ ∃ es, a = some (.multi (some es)) ∧ p = es.drop t)

/-- The state of a connection on which no reply has been mistaken for another. -/
structure Inv (c : Connection) (a : Nat → Option Resp) (t : Nat → Nat) : Prop where
  nodup : c.outstandingReplies.Nodup
  bound : ∀ j ∈ c.outstandingReplies, j < c.constructed
  absent : ∀ j, c.constructed ≤ j → c.objects j = ⟨false, .gone⟩ ∧ t j = 0
  linked : ∀ j, (c.objects j).conn = true → j ∈ c.outstandingReplies
  owns : ∀ j, Owns (c.objects j) (a j) (t j)
  live : c.stream.failed = false → ∀ j, Live (c.objects j) (a j) (t j)
  flow : c.stream.failed = false → ∃ gap, Gap gap ∧
    c.stream.input = gap ++ c.outstandingReplies.flatMap fun j => unread (c.objects j) (a j)
  settled : ∀ id n p, c.objects id = ⟨true, .multi true n p⟩ →
    ∀ j ∈ c.inFront id, (c.objects j).Idle
  outside : c.transaction = none

@[simp] theorem unread_false (b : Body) (a : Option Resp) : unread ⟨false, b⟩ a = [] := by
  cases b <;> cases a <;> rfl

/-- An object that reads nothing has nothing left to read. -/
theorem Live.unread_of_idle {o : BaseReply} {a : Option Resp} {t : Nat} (h : Live o a t)
    (hi : o.Idle) : unread o a = [] := by
  cases h with
  | waiting => simp [BaseReply.Idle] at hi
  | header => simp [BaseReply.Idle] at hi
  | elements hfit hlen =>
    obtain ⟨n, p, heq, hn⟩ := hi rfl
    simp only [Body.multi.injEq, true_and] at heq
    have hzero : (n : Int).toNat = 0 := Int.toNat_of_nonpos hn
    simp [unread, heq.1, hzero, elementsText]
  | null => rfl
  | spent => exact unread_false _ _
  | ended => exact unread_false _ _

/-- A multi bulk reply is as long as it has elements, at the least. -/
theorem length_le_elementsText (es : List (Option Bytes)) :
    es.length ≤ (elementsText es).length := by
  induction es with
  | nil => simp [elementsText]
  | cons e es ih =>
    have hone : 0 < (bulkText e).length := by
      cases e with
      | none => decide
      | some s => simp [bulkText]
    simp only [elementsText, List.flatMap_cons, List.length_append, List.length_cons] at ih ⊢
    omega

/-! ## One kind reading its reply -/

/-- A reply with a value is read without an exception. -/
theorem Kind.good_of_value {k : Kind} {r : Resp} {v : Value} (h : k.value r = some v) :
    r.Good := by
  cases k <;> cases r <;> trivial

/-- A reply that the kind accepts is a value for it or an error. -/
theorem Kind.Accepts.cases {k : Kind} {r : Resp} (h : k.Accepts r) :
    (∃ v, k.value r = some v) ∨ ∃ s, r = .error s :=
  h.imp Option.isSome_iff_exists.mp id

/-- A kind reads its value and leaves white space in front of the next reply. -/
theorem Kind.read_value {k : Kind} {r : Resp} {v : Value} (h : k.value r = some v)
    (hr : r.WellFormed) {g : Bytes} (hg : Gap g) (rest : Bytes) :
    ∃ gap, Gap gap ∧ k.read ⟨g ++ r.text ++ rest, false⟩ = (.ok v, ⟨gap ++ rest, false⟩) := by
  cases k <;> cases r <;> cases h
  case void.status =>
    exact ⟨[lf], gap_lf, by simp only [Kind.read, readStatusCodeReply_status hg rest hr]; rfl⟩
  case bool.integer =>
    exact ⟨crlf, gap_crlf, by simp only [Kind.read, readIntegerReply_integer hg rest hr]⟩
  case int.integer =>
    exact ⟨crlf, gap_crlf, by simp only [Kind.read, readIntegerReply_integer hg rest hr]⟩
  case string.bulk =>
    exact ⟨crlf, gap_crlf, by simp only [Kind.read, Resp.text, readBulkReply_bulk hg rest hr]⟩

/-- A kind raises on an error; what it leaves of the stream is in order or in a bad state. -/
theorem Kind.read_error (k : Kind) {s : Bytes} (hs : (Resp.error s).WellFormed) {g : Bytes}
    (hg : Gap g) (rest : Bytes) :
    ∃ e is, k.read ⟨g ++ (Resp.error s).text ++ rest, false⟩ = (.error e, is) ∧
      (is.failed = true ∨ ∃ gap, Gap gap ∧ is = ⟨gap ++ rest, false⟩) := by
  cases k with
  | void =>
    refine ⟨.runtime (ascii "read error response: " ++ s), ⟨[lf] ++ rest, false⟩, ?_,
      .inr ⟨[lf], gap_lf, rfl⟩⟩
    simp only [Kind.read, readStatusCodeReply_error hg rest hs.1]
    rfl
  | bool | int =>
    refine ⟨.runtime (ascii "error reading integer response"), ⟨s ++ crlf ++ rest, true⟩, ?_,
      .inl rfl⟩
    simp only [Kind.read, readIntegerReply_error hg rest hs]
  | string =>
    refine ⟨.runtime (ascii "error reading bulk response header"), ⟨s ++ crlf ++ rest, true⟩, ?_,
      .inl rfl⟩
    simp only [Kind.read, readBulkReply, readBulkHeader_error hg rest hs]

/-- Every kind but the status fails the stream on an error. -/
theorem Kind.read_error_fails {k : Kind} (hk : k ≠ .void) {s : Bytes}
    (hs : (Resp.error s).WellFormed) {g : Bytes} (hg : Gap g) (rest : Bytes) :
    (k.read ⟨g ++ (Resp.error s).text ++ rest, false⟩).2.failed = true := by
  cases k with
  | void => exact absurd rfl hk
  | bool | int => simp only [Kind.read, readIntegerReply_error hg rest hs]
  | string => simp only [Kind.read, readBulkReply, readBulkHeader_error hg rest hs]

/-- On a failed stream every kind raises. -/
theorem Kind.read_failed (k : Kind) {s : Stream} (h : s.failed = true) :
    ∃ e, k.read s = (.error e, s) := by
  cases k with
  | void =>
    refine ⟨.runtime (ascii "error reading status response"), ?_⟩
    simp only [Kind.read, readStatusCodeReply_failed h]
  | bool | int =>
    refine ⟨.runtime (ascii "error reading integer response"), ?_⟩
    simp only [Kind.read, readIntegerReply_failed h]
  | string =>
    refine ⟨.runtime (ascii "error reading bulk response header"), ?_⟩
    simp only [Kind.read, readBulkReply_failed h]

/-! ## One object moves on -/

/-- One object of a connection, its link and the stream have changed. -/
structure Moved (c c' : Connection) (id : Nat) (o : BaseReply) : Prop where
  objects : c'.objects = Function.update c.objects id o
  links : c'.outstandingReplies = c.outstandingReplies ∨
    o.conn = false ∧ c'.outstandingReplies = c.outstandingReplies.filter (· ≠ id)
  constructed : c'.constructed = c.constructed
  transaction : c'.transaction = c.transaction

theorem Moved.put (c : Connection) (s : Stream) (id : Nat) (o : BaseReply) :
    Moved c ((c.withStream s).put id o) id o := ⟨rfl, .inl rfl, rfl, rfl⟩

theorem Moved.put_unlink (c : Connection) (s : Stream) (id : Nat) (b : Body) :
    Moved c (((c.withStream s).put id ⟨false, b⟩).unlink id) id ⟨false, b⟩ :=
  ⟨rfl, .inr ⟨rfl, rfl⟩, rfl, rfl⟩

theorem Moved.refl (c : Connection) (id : Nat) : Moved c c id (c.objects id) :=
  ⟨(Function.update_eq_self ..).symm, .inl rfl, rfl, rfl⟩

/-- Changes of one object compose where the first leaves its link alone. -/
theorem Moved.trans {c c₁ c₂ : Connection} {id : Nat} {o o' : BaseReply} (h : Moved c c₁ id o)
    (hl : c₁.outstandingReplies = c.outstandingReplies) (h' : Moved c₁ c₂ id o') :
    Moved c c₂ id o' := by
  refine ⟨?_, ?_, h'.constructed.trans h.constructed, h'.transaction.trans h.transaction⟩
  · rw [h'.objects, h.objects, Function.update_idem]
  · rw [← hl]
    exact h'.links

section Advance

variable {c c' : Connection} {a : Nat → Option Resp} {t t' : Nat → Nat} {id : Nat}
  {pre post : List Nat} {o : BaseReply}

/-- Changing one object changes its own part of what is unread. -/
theorem flatMap_unread_update (hpre : id ∉ pre) (hpost : id ∉ post) :
    (pre ++ id :: post).flatMap (fun j => unread (Function.update c.objects id o j) (a j)) =
      pre.flatMap (fun j => unread (c.objects j) (a j)) ++ unread o (a id) ++
        post.flatMap fun j => unread (c.objects j) (a j) := by
  have hsame (l : List Nat) (hl : id ∉ l) :
      l.flatMap (fun j => unread (Function.update c.objects id o j) (a j)) =
        l.flatMap fun j => unread (c.objects j) (a j) :=
    List.flatMap_congr fun j hj => by
      rw [Function.update_of_ne (ne_of_mem_of_not_mem hj hl)]
  simp [hsame pre hpre, hsame post hpost]

omit id pre post in
/-- Nothing comes in front by unlinking others. -/
theorem mem_takeWhile_of_filter {id j : Nat} {q : Nat → Bool} (hq : q id = true) {l : List Nat}
    (h : j ∈ (l.filter q).takeWhile (· ≠ id)) : j ∈ l.takeWhile (· ≠ id) := by
  induction l with
  | nil => exact h
  | cons x l ih =>
    by_cases hx : x = id
    · subst hx
      simp [hq] at h
    · rw [List.takeWhile_cons_of_pos (by simpa using hx), List.mem_cons]
      by_cases hqx : q x = true
      · rw [List.filter_cons_of_pos hqx, List.takeWhile_cons_of_pos (by simpa using hx),
          List.mem_cons] at h
        exact h.imp_right ih
      · rw [List.filter_cons_of_neg hqx] at h
        exact .inr (ih h)

/-- The objects in front of one in a list without repetitions. -/
theorem takeWhile_eq_of_split (hnot : id ∉ pre) : (pre ++ id :: post).takeWhile (· ≠ id) = pre := by
  rw [List.takeWhile_append_of_pos fun j hj => by simpa using ne_of_mem_of_not_mem hj hnot,
    List.takeWhile_cons_of_neg (by simp), List.append_nil]

/-- What is in front of an object afterwards was in front of it before. -/
theorem Moved.inFront (hm : Moved c c' id o) {y j : Nat} (hy : y ≠ id) (hj : j ∈ c'.inFront y) :
    j ∈ c.inFront y := by
  rcases hm.links with hl | ⟨-, hl⟩
  · simpa only [Connection.inFront, hl] using hj
  · rw [Connection.inFront, hl] at hj
    exact mem_takeWhile_of_filter (by simpa using hy) hj

/-- The object behind idle ones reads on, and nothing else changes. -/
theorem Inv.advance (h : Inv c a t) (hm : Moved c c' id o)
    (hout : c.outstandingReplies = pre ++ id :: post)
    (hidle : ∀ j ∈ pre, (c.objects j).Idle)
    (hfail : c.stream.failed = true → c'.stream.failed = true)
    (hflow : c'.stream.failed = false → Live o (a id) (t' id) ∧ ∃ gap, Gap gap ∧
      c'.stream.input =
        gap ++ unread o (a id) ++ post.flatMap fun j => unread (c.objects j) (a j))
    (howns : Owns o (a id) (t' id)) (ht : ∀ j, j ≠ id → t' j = t j)
    (hkeep : (c.objects id).Idle → o.Idle) : Inv c' a t' := by
  have hmem : id ∈ c.outstandingReplies := by simp [hout]
  have hnodup := h.nodup
  rw [hout, List.nodup_append, List.nodup_cons] at hnodup
  obtain ⟨-, ⟨hpost, -⟩, hdisj⟩ := hnodup
  have hpre : id ∉ pre := fun hp => hdisj id hp id List.mem_cons_self rfl
  have hsub : c'.outstandingReplies.Sublist c.outstandingReplies := by
    rcases hm.links with hl | ⟨-, hl⟩ <;> rw [hl]
    exact List.filter_sublist
  have hgood (hf : c'.stream.failed = false) : c.stream.failed = false := by
    by_contra hc
    rw [hfail (by simpa using hc)] at hf
    cases hf
  refine ⟨h.nodup.sublist hsub, ?_, ?_, ?_, ?_, ?_, ?_, ?_, hm.transaction.trans h.outside⟩
  · intro j hj
    exact hm.constructed ▸ h.bound j (hsub.subset hj)
  · intro j hj
    rw [hm.constructed] at hj
    have hne : j ≠ id := by
      rintro rfl
      exact absurd (h.bound j hmem) (Nat.not_lt.mpr hj)
    rw [hm.objects, Function.update_of_ne hne, ht j hne]
    exact h.absent j hj
  · intro j hj
    rw [hm.objects] at hj
    by_cases hne : j = id
    · subst hne
      rw [Function.update_self] at hj
      rcases hm.links with hl | ⟨hoff, -⟩
      · exact hl ▸ hmem
      · rw [hoff] at hj
        cases hj
    · rw [Function.update_of_ne hne] at hj
      rcases hm.links with hl | ⟨-, hl⟩
      · exact hl ▸ h.linked j hj
      · rw [hl, List.mem_filter]
        exact ⟨h.linked j hj, by simpa using hne⟩
  · intro j
    rw [hm.objects]
    by_cases hne : j = id
    · subst hne
      rwa [Function.update_self]
    · rw [Function.update_of_ne hne, ht j hne]
      exact h.owns j
  · intro hf j
    rw [hm.objects]
    by_cases hne : j = id
    · subst hne
      rw [Function.update_self]
      exact (hflow hf).1
    · rw [Function.update_of_ne hne, ht j hne]
      exact h.live (hgood hf) j
  · intro hf
    obtain ⟨-, gap, hgap, hin⟩ := hflow hf
    have hquiet : pre.flatMap (fun j => unread (c.objects j) (a j)) = [] := by
      simp only [List.flatMap_eq_nil_iff]
      intro j hj
      exact (h.live (hgood hf) j).unread_of_idle (hidle j hj)
    refine ⟨gap, hgap, ?_⟩
    have hall := flatMap_unread_update (c := c) (a := a) (o := o) hpre hpost
    rw [hquiet, List.nil_append] at hall
    rcases hm.links with hl | ⟨hoff, hl⟩
    · rw [hin, hm.objects, hl, hout, hall, List.append_assoc]
    · have hrest : (pre ++ id :: post).filter (· ≠ id) = pre ++ post := by
        have hfil (l : List Nat) (hid : id ∉ l) : l.filter (· ≠ id) = l :=
          List.filter_eq_self.mpr fun j hj => by simpa using ne_of_mem_of_not_mem hj hid
        rw [List.filter_append, List.filter_cons_of_neg (by simp), hfil pre hpre, hfil post hpost]
      have hnone : unread o (a id) = [] := by
        obtain ⟨conn, b⟩ := o
        obtain rfl : conn = false := hoff
        exact unread_false b _
      rw [hin, hm.objects, hl, hout, hrest, hnone, List.append_nil]
      rw [hnone, List.nil_append, List.flatMap_append, List.flatMap_cons,
        Function.update_self, hnone, List.nil_append, ← List.flatMap_append] at hall
      rw [hall]
  · intro y n p hy j hj
    rw [hm.objects] at hy ⊢
    by_cases hyid : y = id
    · subst hyid
      rw [Function.update_self] at hy
      subst hy
      have hl := hm.links.resolve_right (by simp)
      rw [Connection.inFront, hl, hout, takeWhile_eq_of_split hpre] at hj
      rw [Function.update_of_ne (ne_of_mem_of_not_mem hj hpre)]
      exact hidle j hj
    · rw [Function.update_of_ne hyid] at hy
      have hquiet := h.settled y n p hy j (hm.inFront hyid hj)
      by_cases hjid : j = id
      · subst hjid
        rw [Function.update_self]
        exact hkeep hquiet
      · rwa [Function.update_of_ne hjid]

end Advance

/-- Objects without an unread part do not matter to what is unread. -/
theorem flatMap_filter_of_nil {f : Nat → Bytes} {id : Nat} (h : f id = []) (l : List Nat) :
    (l.filter (· ≠ id)).flatMap f = l.flatMap f := by
  induction l with
  | nil => rfl
  | cons j l ih =>
    by_cases hj : j = id
    · rw [List.filter_cons_of_neg (by simp [hj]), List.flatMap_cons, ih, hj, h, List.nil_append]
    · rw [List.filter_cons_of_pos (by simp [hj]), List.flatMap_cons, List.flatMap_cons, ih]

/-- An object that has nothing left to read may give its `conn` up, and its link with it. -/
theorem Inv.retire {c c' : Connection} {a a' : Nat → Option Resp} {t t' : Nat → Nat} {id : Nat}
    {b : Body} (h : Inv c a t) (hm : Moved c c' id ⟨false, b⟩) (hs : c'.stream = c.stream)
    (hidle : c.stream.failed = false → (c.objects id).Idle) (hb : id < c.constructed)
    (howns : Owns ⟨false, b⟩ (a' id) (t' id))
    (hlive : c.stream.failed = false → Live ⟨false, b⟩ (a' id) (t' id))
    (ha : ∀ j, j ≠ id → a' j = a j) (ht : ∀ j, j ≠ id → t' j = t j) : Inv c' a' t' := by
  have hsub : c'.outstandingReplies.Sublist c.outstandingReplies := by
    rcases hm.links with hl | ⟨-, hl⟩ <;> rw [hl]
    exact List.filter_sublist
  refine ⟨h.nodup.sublist hsub, ?_, ?_, ?_, ?_, ?_, ?_, ?_, hm.transaction.trans h.outside⟩
  · intro j hj
    exact hm.constructed ▸ h.bound j (hsub.subset hj)
  · intro j hj
    rw [hm.constructed] at hj
    have hne : j ≠ id := by omega
    rw [hm.objects, Function.update_of_ne hne, ht j hne]
    exact h.absent j hj
  · intro j hj
    rw [hm.objects] at hj
    have hne : j ≠ id := by
      rintro rfl
      simp at hj
    rw [Function.update_of_ne hne] at hj
    rcases hm.links with hl | ⟨-, hl⟩
    · exact hl ▸ h.linked j hj
    · rw [hl, List.mem_filter]
      exact ⟨h.linked j hj, by simpa using hne⟩
  · intro j
    rw [hm.objects]
    by_cases hne : j = id
    · subst hne
      rwa [Function.update_self]
    · rw [Function.update_of_ne hne, ha j hne, ht j hne]
      exact h.owns j
  · intro hf j
    rw [hs] at hf
    rw [hm.objects]
    by_cases hne : j = id
    · subst hne
      rw [Function.update_self]
      exact hlive hf
    · rw [Function.update_of_ne hne, ha j hne, ht j hne]
      exact h.live hf j
  · intro hf
    rw [hs] at hf
    obtain ⟨gap, hgap, hin⟩ := h.flow hf
    refine ⟨gap, hgap, ?_⟩
    have hpoint (j : Nat) : unread (c'.objects j) (a' j) = unread (c.objects j) (a j) := by
      rw [hm.objects]
      by_cases hne : j = id
      · subst hne
        rw [Function.update_self, unread_false, (h.live hf j).unread_of_idle (hidle hf)]
      · rw [Function.update_of_ne hne, ha j hne]
    have hall : (c'.outstandingReplies.flatMap fun j => unread (c'.objects j) (a' j)) =
        c.outstandingReplies.flatMap fun j => unread (c.objects j) (a j) := by
      simp only [hpoint]
      rcases hm.links with hl | ⟨-, hl⟩
      · rw [hl]
      · rw [hl]
        exact flatMap_filter_of_nil ((h.live hf id).unread_of_idle (hidle hf)) _
    rw [hs, hin, hall]
  · intro y n p hy j hj
    rw [hm.objects] at hy ⊢
    have hyid : y ≠ id := by
      rintro rfl
      simp at hy
    rw [Function.update_of_ne hyid] at hy
    by_cases hjid : j = id
    · subst hjid
      rw [Function.update_self]
      simp [BaseReply.Idle]
    · rw [Function.update_of_ne hjid]
      exact h.settled y n p hy j (hm.inFront hyid hj)

/-- An enumerator is idle once it has a header and no elements left. -/
theorem idle_multi {hd : Bool} {n : Int} {p : List (Option Bytes)} :
    (⟨true, .multi hd n p⟩ : BaseReply).Idle ↔ hd = true ∧ n ≤ 0 := by
  constructor
  · intro h
    obtain ⟨m, q, heq, hm⟩ := h rfl
    simp only [Body.multi.injEq] at heq
    exact ⟨heq.1, heq.2.1 ▸ hm⟩
  · rintro ⟨rfl, hn⟩ -
    exact ⟨n, p, rfl, hn⟩

/-- An object that exists has been constructed. -/
theorem Inv.constructed_of_cls {c : Connection} {a : Nat → Option Resp} {t : Nat → Nat}
    (h : Inv c a t) {id : Nat} (hb : (c.objects id).body ≠ .gone) : id < c.constructed := by
  by_contra hlt
  exact hb (by rw [(h.absent id (Nat.not_lt.mp hlt)).1])

/-! ## Reading a single result -/

/-- What reading the reply of one object, behind idle ones, does to a connection. -/
structure Reads (c : Connection) (a : Nat → Option Resp) (t : Nat → Nat) (id : Nat)
    (p : Except Exception Unit × Connection) : Prop where
  inv : Inv p.2 a t
  moved : ∃ o, Moved c p.2 id o ∧ o.body.cls = (c.objects id).body.cls ∧ (p.1 = .ok () → o.Idle)
  failed : c.stream.failed = true → p.2.stream.failed = true ∧ p.1 ≠ .ok ()
  sound : p.1 = .ok () → p.2.stream.failed = false
  ok_iff : c.stream.failed = false → (p.1 = .ok () ↔ ∃ r, a id = some r ∧ r.Good)

theorem idle_of_conn {b : Body} : (⟨false, b⟩ : BaseReply).Idle := by simp [BaseReply.Idle]

section Own

variable {c : Connection} {a : Nat → Option Resp} {t : Nat → Nat} {id : Nat}
  {pre post : List Nat} (h : Inv c a t) (hout : c.outstandingReplies = pre ++ id :: post)
  (hidle : ∀ j ∈ pre, (c.objects j).Idle)

include h hout hidle

/-- Behind idle objects the stream starts with the unread part of an object. -/
theorem Inv.input_eq (hf : c.stream.failed = false) : ∃ gap, Gap gap ∧
    c.stream = ⟨gap ++ unread (c.objects id) (a id) ++
      post.flatMap (fun j => unread (c.objects j) (a j)), false⟩ := by
  obtain ⟨gap, hgap, hin⟩ := h.flow hf
  have hquiet : pre.flatMap (fun j => unread (c.objects j) (a j)) = [] := by
    simp only [List.flatMap_eq_nil_iff]
    intro j hj
    exact (h.live hf j).unread_of_idle (hidle j hj)
  refine ⟨gap, hgap, ?_⟩
  rw [hout, List.flatMap_append, hquiet, List.nil_append, List.flatMap_cons] at hin
  rw [List.append_assoc, ← hin, ← hf]

omit hout hidle in
/-- The reply that a waiting object is given. -/
theorem Inv.answer_of_waiting {k : Kind} {v : Value} (hf : c.stream.failed = false)
    (hobj : c.objects id = ⟨true, .single k v⟩) :
    ∃ r, a id = some r ∧ k.Accepts r ∧ r.WellFormed := by
  have hlive := h.live hf id
  rw [hobj] at hlive
  generalize ha : a id = ans at hlive
  cases hlive with
  | waiting hk hr => exact ⟨_, rfl, hk, hr⟩

/-- A single result reads its own reply, or raises. -/
theorem readSingle_reads {k : Kind} {v : Value} (hobj : c.objects id = ⟨true, .single k v⟩) :
    Reads c a t id (c.readSingle id k v) ∧
      ((c.readSingle id k v).1 = .ok () → ∃ r w, a id = some r ∧ k.value r = some w ∧
        (c.readSingle id k v).2.objects id = ⟨false, .single k w⟩) := by
  have howns : Owns ⟨false, .single k v⟩ (a id) (t id) := by
    have hown := h.owns id
    rw [hobj] at hown
    exact hown
  have hended (w : Value) : Live ⟨false, .single k w⟩ (a id) (t id) :=
    .ended rfl (fun hc => by cases hc)
  have hkeep (w : Value) (_ : (c.objects id).Idle) : (⟨false, .single k w⟩ : BaseReply).Idle :=
    idle_of_conn
  by_cases hf : c.stream.failed = true
  · obtain ⟨e, he⟩ := k.read_failed hf
    have heq : c.readSingle id k v =
        (.error e, (c.withStream c.stream).put id ⟨false, .single k v⟩) := by
      simp only [Connection.readSingle, he]
    have hm := Moved.put c c.stream id ⟨false, .single k v⟩
    rw [heq]
    refine ⟨⟨h.advance hm hout hidle (fun _ => hf) ?_ howns (fun _ _ => rfl) (hkeep v),
      ⟨_, hm, by simp [hobj, Body.cls], fun _ => idle_of_conn⟩, fun _ => ⟨hf, by simp⟩, by simp,
      fun hg => absurd hf (by simp [hg])⟩, by simp⟩
    intro hg
    exact absurd hf (by simpa using hg)
  · have hf : c.stream.failed = false := by simpa using hf
    obtain ⟨r, ha, hk, hr⟩ := h.answer_of_waiting hf hobj
    obtain ⟨gap, hgap, hin⟩ := h.input_eq hout hidle hf
    have hun : unread (c.objects id) (a id) = r.text := by rw [hobj, ha]; rfl
    rw [hun] at hin
    rcases hk.cases with ⟨w, hw⟩ | ⟨s, rfl⟩
    · obtain ⟨gap', hgap', hread⟩ := Kind.read_value hw hr hgap
        (post.flatMap fun j => unread (c.objects j) (a j))
      rw [← hin] at hread
      have heq : c.readSingle id k v = (.ok (), ((c.withStream ⟨gap' ++
          post.flatMap (fun j => unread (c.objects j) (a j)), false⟩).put id
            ⟨false, .single k w⟩).unlink id) := by
        simp only [Connection.readSingle, hread]
      have hm := Moved.put_unlink c ⟨gap' ++
        post.flatMap (fun j => unread (c.objects j) (a j)), false⟩ id (.single k w)
      have howns' : Owns ⟨false, .single k w⟩ (a id) (t id) := .inr ⟨r, ha, hw⟩
      rw [heq]
      refine ⟨⟨h.advance hm hout hidle (fun hc => absurd hc (by simp [hf])) ?_ howns'
          (fun _ _ => rfl) (hkeep w), ⟨_, hm, by simp [hobj, Body.cls], fun _ => idle_of_conn⟩,
          fun hc => absurd hc (by simp [hf]), fun _ => rfl,
          fun _ => ⟨fun _ => ⟨r, ha, Kind.good_of_value hw⟩, fun _ => rfl⟩⟩,
        fun _ => ⟨r, w, ha, hw, by simp⟩⟩
      intro _
      exact ⟨hended w, gap', hgap', by simp⟩
    · obtain ⟨e, is, hread, his⟩ := Kind.read_error k hr hgap
        (post.flatMap fun j => unread (c.objects j) (a j))
      rw [← hin] at hread
      have heq : c.readSingle id k v =
          (.error e, (c.withStream is).put id ⟨false, .single k v⟩) := by
        simp only [Connection.readSingle, hread]
      have hm := Moved.put c is id ⟨false, .single k v⟩
      rw [heq]
      refine ⟨⟨h.advance hm hout hidle (fun hc => absurd hc (by simp [hf])) ?_ howns
          (fun _ _ => rfl) (hkeep v), ⟨_, hm, by simp [hobj, Body.cls], fun _ => idle_of_conn⟩,
          fun hc => absurd hc (by simp [hf]), by simp, fun _ => ⟨by simp, ?_⟩⟩, by simp⟩
      · intro hg
        rcases his with his | ⟨gap', hgap', rfl⟩
        · exact absurd his (by simpa using hg)
        · exact ⟨hended v, gap', hgap', by simp⟩
      · rintro ⟨r, hr', hgood⟩
        rw [ha] at hr'
        cases hr'
        exact absurd hgood (by simp [Resp.Good])

end Own

end AsioCoroFrame.Redispp
