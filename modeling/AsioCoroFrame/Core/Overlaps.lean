import AsioCoroFrame.Core.Rewriting
import Mathlib.Data.Nat.Digits.Defs
import Mathlib.Data.Prod.Lex

/-!
# Overlaps of two words

An occurrence that a replacement makes lies across the border of what has been
inserted. Where the new word overlaps with the old one once at most on one
side, what has been inserted is used up from there, and the loop ends.
-/

namespace AsioCoroFrame

variable {α : Type*} {u v q r : List α} {Is : List (List α)}

/-! ## Where an occurrence may start -/

/-- An occurrence that is not in the first of two parts is in the second one or lies across their
border. -/
theorem within_or_across {x z a b : List α} (hx : ¬ u <:+: x) (h : x ++ z = a ++ (u ++ b)) :
    (∃ c, a = x ++ c ∧ z = c ++ (u ++ b)) ∨
      ∃ l p, x = a ++ l ∧ z = p ++ b ∧ u = l ++ p ∧ l ≠ [] ∧ p ≠ [] := by
  rcases List.append_eq_append_iff.mp h with ⟨c, rfl, rfl⟩ | ⟨l, rfl, hl⟩
  · exact .inl ⟨c, rfl, rfl⟩
  · rcases List.append_eq_append_iff.mp hl with ⟨c, rfl, rfl⟩ | ⟨p, rfl, rfl⟩
    · exact absurd (List.infix_append' ..) hx
    · by_cases hl : l = []
      · subst hl
        exact .inl ⟨[], by simp, rfl⟩
      · refine .inr ⟨l, p, rfl, rfl, rfl, hl, ?_⟩
        rintro rfl
        rw [List.append_nil] at hx
        exact hx (List.suffix_append ..).isInfix

/-- No end of the first list is a beginning of the second one. -/
def Apart (a b : List α) : Prop := ∀ p, p ≠ [] → p <:+ a → ¬ p <+: b

/-- No occurrence of `u` starts in `r`, whatever follows. -/
def Inert (u r : List α) : Prop := ∀ y, Clear u r y

theorem inert_of_apart {r : List α} (hr : ¬ u <:+: r) (h : Apart r u) : Inert u r := by
  intro y i hi hpre
  rw [List.drop_append_of_le_length hi.le] at hpre
  rcases List.prefix_or_prefix_of_prefix hpre (List.prefix_append (r.drop i) y) with hu | hru
  · exact hr (hu.isInfix.trans (List.drop_suffix i r).isInfix)
  · refine h _ (fun hnil => ?_) (List.drop_suffix i r) hru
    exact absurd (List.drop_eq_nil_iff.mp hnil) (Nat.not_le.mpr hi)

theorem Inert.append {r r' : List α} (h : Inert u r) (h' : Inert u r') : Inert u (r ++ r') :=
  fun y => clear_append.mpr ⟨h (r' ++ y), h' y⟩

theorem Inert.of_append {r r' : List α} (h : Inert u (r ++ r')) : Inert u r' :=
  fun y => (clear_append.mp (h y)).2

/-- An occurrence that does not start where `q` does starts behind it. -/
theorem Inert.skip_of_tail {q b x y : List α} (h : Inert u q.tail) (hne : x ≠ [])
    (hx : q ++ b = x ++ (u ++ y)) : ∃ x', x = q ++ x' ∧ b = x' ++ (u ++ y) := by
  cases q with
  | nil => exact ⟨x, rfl, hx⟩
  | cons c q =>
    obtain ⟨d, x, rfl⟩ := List.exists_cons_of_ne_nil hne
    obtain ⟨rfl, htail⟩ := List.cons.inj hx
    obtain ⟨x', rfl, hb⟩ := (h b).skip htail
    exact ⟨x', rfl, hb⟩

/-! ## Inert parts joined by a beginning of the old word -/

theorem intercalate_append_cons (q a b : List α) (Is : List (List α)) :
    q.intercalate ((a ++ b) :: Is) = a ++ q.intercalate (b :: Is) := by
  cases Is <;> simp [List.intercalate_cons_cons]

/-- What follows a beginning of inert parts joined by `q` are inert parts joined by `q`, fewer of
them or the same ones with the first one cut. -/
theorem exists_inert_suffix (hne : Is ≠ []) (hI : ∀ I ∈ Is, Inert u I) (hq : Inert u q.tail)
    {p y : List α} (h : q.intercalate Is = p ++ y) :
    ∃ Js, Js ≠ [] ∧ (∀ J ∈ Js, Inert u J) ∧ y = q.intercalate Js ∧
      (Js.length < Is.length ∨ ∃ J K, Is = (p ++ J) :: K ∧ Js = J :: K) := by
  induction Is generalizing p with
  | nil => exact absurd rfl hne
  | cons I Is ih =>
    obtain ⟨hI₀, hIs⟩ := List.forall_mem_cons.mp hI
    by_cases hnil : Is = []
    · subst hnil
      rw [List.intercalate_singleton] at h
      subst h
      exact ⟨[y], List.cons_ne_nil _ _, List.forall_mem_singleton.mpr hI₀.of_append,
        List.intercalate_singleton.symm, .inr ⟨y, [], rfl, rfl⟩⟩
    · rw [List.intercalate_cons_of_ne_nil hnil, List.append_assoc] at h
      rcases List.append_eq_append_iff.mp h with ⟨a, rfl, ha⟩ | ⟨b, rfl, rfl⟩
      · rcases List.append_eq_append_iff.mp ha with ⟨b, rfl, hb⟩ | ⟨b, hab, rfl⟩
        · obtain ⟨Js, hJs, hinert, rfl, hor⟩ := ih hnil hIs hb
          refine ⟨Js, hJs, hinert, rfl, .inl ?_⟩
          rcases hor with hlt | ⟨J, K, rfl, rfl⟩
          · exact hlt.trans (Nat.lt_succ_self _)
          · simp
        · cases a with
          | nil =>
            refine ⟨[] :: Is, List.cons_ne_nil _ _,
              List.forall_mem_cons.mpr ⟨Clear.nil _, hIs⟩, ?_,
              .inr ⟨[], Is, by simp, rfl⟩⟩
            rw [List.intercalate_cons_of_ne_nil hnil, hab]
            rfl
          | cons c a =>
            obtain ⟨K, Ks, rfl⟩ := List.exists_cons_of_ne_nil hnil
            obtain ⟨hK, hKs⟩ := List.forall_mem_cons.mp hIs
            rw [hab] at hq
            refine ⟨(b ++ K) :: Ks, List.cons_ne_nil _ _,
              List.forall_mem_cons.mpr ⟨(Inert.of_append (r := a) hq).append hK, hKs⟩,
              (intercalate_append_cons ..).symm, .inl (Nat.lt_succ_self _)⟩
      · refine ⟨b :: Is, List.cons_ne_nil _ _, List.forall_mem_cons.mpr ⟨hI₀.of_append, hIs⟩, ?_,
          .inr ⟨b, Is, rfl, rfl⟩⟩
        rw [List.intercalate_cons_of_ne_nil hnil, List.append_assoc]

/-- How many parts there are, then their lengths, those of later parts with more weight. -/
def weight (r : List α) (Is : List (List α)) : ℕ ×ₗ ℕ :=
  toLex (Is.length, Nat.ofDigits (r.length + 1) (Is.map List.length))

theorem weight_lt_of_length {Js : List (List α)} (h : Js.length < Is.length) :
    weight r Js < weight r Is :=
  Prod.Lex.toLex_lt_toLex.mpr (.inl h)

theorem weight_cons_lt {Js : List (List α)} (I : List α) (h : weight r Js < weight r Is) :
    weight r (I :: Js) < weight r (I :: Is) := by
  rcases Prod.Lex.toLex_lt_toLex.mp h with hlt | ⟨heq, hlt⟩
  · exact weight_lt_of_length (Nat.succ_lt_succ hlt)
  · refine Prod.Lex.toLex_lt_toLex.mpr (.inr ⟨congrArg (· + 1) heq, ?_⟩)
    simp only [List.map_cons, Nat.ofDigits_cons]
    exact Nat.add_lt_add_left (Nat.mul_lt_mul_of_pos_left hlt (Nat.succ_pos _)) _

/-- One part grows by less than what the next one loses. -/
theorem weight_shift_lt {p : List α} (hp : p ≠ []) (I J : List α) :
    weight r ((I ++ r) :: J :: Is) < weight r (I :: (p ++ J) :: Is) := by
  have hpos := List.length_pos_iff.mpr hp
  refine Prod.Lex.toLex_lt_toLex.mpr (.inr ⟨rfl, ?_⟩)
  simp only [List.map_cons, Nat.ofDigits_cons, List.length_append]
  nlinarith

/-- A replacement among inert parts joined by `q` leaves inert parts joined by `q`, which weigh
less. -/
theorem exists_token_step {u' : List α} (hu' : u' ≠ []) (hr : Inert (q ++ u') r)
    (hq : Inert (q ++ u') q.tail) (hne : Is ≠ []) (hI : ∀ I ∈ Is, Inert (q ++ u') I)
    {x y : List α} (h : q.intercalate Is = x ++ ((q ++ u') ++ y)) :
    ∃ Js, Js ≠ [] ∧ (∀ J ∈ Js, Inert (q ++ u') J) ∧
      x ++ ((r ++ q) ++ y) = q.intercalate Js ∧ weight r Js < weight r Is := by
  induction Is generalizing x with
  | nil => exact absurd rfl hne
  | cons I Is ih =>
    obtain ⟨hI₀, hIs⟩ := List.forall_mem_cons.mp hI
    by_cases hnil : Is = []
    · subst hnil
      rw [List.intercalate_singleton, ← List.append_nil I] at h
      obtain ⟨x', _, hx'⟩ := (hI₀ _).skip h
      simp [hu'] at hx'
    · rw [List.intercalate_cons_of_ne_nil hnil, List.append_assoc] at h
      obtain ⟨x', rfl, hx'⟩ := (hI₀ _).skip h
      by_cases hstart : x' = []
      · subst hstart
        rw [List.nil_append, List.append_assoc, List.append_cancel_left_eq] at hx'
        obtain ⟨Js, hJs, hinert, rfl, hor⟩ := exists_inert_suffix hnil hIs hq hx'
        refine ⟨(I ++ r) :: Js, List.cons_ne_nil _ _,
          List.forall_mem_cons.mpr ⟨hI₀.append hr, hinert⟩, ?_, ?_⟩
        · rw [List.intercalate_cons_of_ne_nil hJs]
          simp only [List.append_assoc, List.append_nil]
        · rcases hor with hlt | ⟨J, K, rfl, rfl⟩
          · exact weight_lt_of_length (Nat.succ_lt_succ hlt)
          · exact weight_shift_lt hu' I J
      · obtain ⟨x'', rfl, hx''⟩ := hq.skip_of_tail hstart hx'
        obtain ⟨Js, hJs, hinert, hJs', hlt⟩ := ih hnil hIs hx''
        refine ⟨I :: Js, List.cons_ne_nil _ _, List.forall_mem_cons.mpr ⟨hI₀, hinert⟩, ?_,
          weight_cons_lt I hlt⟩
        rw [List.intercalate_cons_of_ne_nil hJs, ← hJs']
        simp only [List.append_assoc]

/-! ## Words that overlap once at most on one side -/

variable [DecidableEq α]

/-- What the loop makes of a beginning of the list it has made before it comes to the rest. -/
theorem Settles.append {x y : List α} (hx : Settles (rewriteLeft u v) x)
    (hy : ∀ n, ¬ u <:+: n → Settles (rewriteLeft u v) (n ++ y)) :
    Settles (rewriteLeft u v) (x ++ y) := by
  induction hx with
  | intro x _ ih =>
    cases hs : rewriteLeft u v x with
    | none => exact hy x (rewriteLeft_eq_none.mp hs)
    | some x' => exact .of_some (rewriteLeft_append hs y) (ih x' hs)

/-- It is enough that the loop ends on the new word behind anything in which the old one does not
occur. -/
theorem settles_of_irreducible (hu : u ≠ [])
    (h : ∀ x, ¬ u <:+: x → Settles (rewriteLeft u v) (x ++ v)) (s : List α) :
    Settles (rewriteLeft u v) s := by
  suffices hs : ∀ x, ¬ u <:+: x → Settles (rewriteLeft u v) (x ++ s) by
    exact hs [] fun hnil => hu (List.infix_nil.mp hnil)
  induction s with
  | nil =>
    intro x hx
    exact .of_none (rewriteLeft_eq_none.mpr (by rwa [List.append_nil]))
  | cons a s ih =>
    intro x hx
    rw [List.append_cons]
    cases hstep : rewriteLeft u v (x ++ [a]) with
    | none => exact ih _ (rewriteLeft_eq_none.mp hstep)
    | some t =>
      refine .of_some (rewriteLeft_append hstep s) (.append ?_ ih)
      obtain ⟨x', y, hxa, rfl, _⟩ := rewriteLeft_eq_some.mp hstep
      rcases List.eq_nil_or_concat y with rfl | ⟨y, d, rfl⟩
      · obtain ⟨u', b, hu'⟩ := (List.eq_nil_or_concat u).resolve_left hu
        have hfront : x ++ [a] = (x' ++ u') ++ [b] := by
          rw [hxa, hu', List.append_nil, List.concat_eq_append, List.append_assoc]
        rw [List.append_nil]
        refine h x' fun hx' => hx ?_
        exact (List.append_inj' hfront rfl).1 ▸ hx'.trans List.infix_append_left
      · have hfront : x ++ [a] = (x' ++ (u ++ y)) ++ [d] := by
          rw [hxa, List.concat_eq_append, List.append_assoc, List.append_assoc]
        exact absurd ((List.append_inj' hfront rfl).1 ▸ List.infix_append' ..) hx

/-- An end of the old word may begin the new one, but not what is left of it behind that. -/
theorem settles_of_endOnce (hv : ¬ u <:+: v)
    (h : ∀ p r, v = p ++ r → p ≠ [] → p <:+ u → Apart u r) (s : List α) :
    Settles (rewriteLeft u v) s := by
  have hu : u ≠ [] := fun hnil => hv (hnil ▸ List.nil_infix)
  refine settles_of_irreducible hu (fun x => ?_) s
  induction hn : x.length using Nat.strong_induction_on generalizing x with
  | h n ih =>
    intro hx
    cases hstep : rewriteLeft u v (x ++ v) with
    | none => exact .of_none hstep
    | some t =>
      obtain ⟨a, r, hsplit, rfl, _⟩ := rewriteLeft_eq_some.mp hstep
      obtain ⟨l, p, rfl, hp, rfl, hl, hpne⟩ := (within_or_across hx hsplit).resolve_left
        fun ⟨c, _, hc⟩ => hv (hc ▸ List.infix_append' ..)
      have hshort : a.length < n := by
        have hpos := List.length_pos_iff.mpr hl
        rw [List.length_append] at hn
        omega
      refine .of_some hstep ?_
      rw [← List.append_assoc]
      refine .append (ih _ hshort a rfl fun ha => hx (ha.trans List.infix_append_left)) ?_
      intro m hm
      refine .of_none (rewriteLeft_eq_none.mpr fun hinf => ?_)
      have hr := h p r hp hpne (List.suffix_append l p)
      rcases List.infix_append_iff_ne_nil.mp hinf with hm' | hr' | ⟨_, q, _, hq, hlq, _, hqr⟩
      · exact hm hm'
      · exact hv (hp ▸ hr'.trans List.infix_append_right)
      · exact hr q hq (hlq ▸ List.suffix_append ..) hqr

/-- The new word ends in the only beginning of the old one that may meet it there. -/
theorem settles_of_token {u' : List α} (hu' : u' ≠ []) (hr : Inert (q ++ u') r)
    (hq : Inert (q ++ u') q.tail) (s : List α) : Settles (rewriteLeft (q ++ u') (r ++ q)) s := by
  have hu : q ++ u' ≠ [] := fun hnil => hu' (List.append_eq_nil_iff.mp hnil).2
  refine settles_of_irreducible hu (fun x hx => ?_) s
  suffices hsettles : ∀ Is, Is ≠ [] → (∀ I ∈ Is, Inert (q ++ u') I) →
      Settles (rewriteLeft (q ++ u') (r ++ q)) (x ++ q.intercalate Is) by
    have hend := hsettles [r, []] (List.cons_ne_nil _ _)
      (List.forall_mem_cons.mpr ⟨hr, List.forall_mem_singleton.mpr (Clear.nil _)⟩)
    simpa [List.intercalate_cons_cons] using hend
  induction hn : x.length using Nat.strong_induction_on generalizing x with
  | h n ihx =>
    intro Is
    induction hw : weight r Is using WellFoundedLT.induction generalizing Is with
    | ind w ihw =>
      intro hne hI
      cases hstep : rewriteLeft (q ++ u') (r ++ q) (x ++ q.intercalate Is) with
      | none => exact .of_none hstep
      | some t =>
        refine .of_some hstep ?_
        obtain ⟨a, y, hsplit, rfl, _⟩ := rewriteLeft_eq_some.mp hstep
        rcases within_or_across hx hsplit with ⟨b, rfl, hb⟩ | ⟨l, p, rfl, hp, hup, hl, _⟩
        · obtain ⟨Js, hJs, hinert, hJs', hlt⟩ := exists_token_step hu' hr hq hne hI hb
          rw [List.append_assoc, hJs']
          exact ihw _ (hw ▸ hlt) Js rfl hJs hinert
        · obtain ⟨Js, hJs, hinert, rfl, _⟩ := exists_inert_suffix hne hI hq hp
          rw [← List.intercalate_cons_of_ne_nil hJs]
          refine ihx _ ?_ a (fun ha => hx (ha.trans List.infix_append_left)) rfl _
            (List.cons_ne_nil _ _) (List.forall_mem_cons.mpr ⟨hr, hinert⟩)
          have hpos := List.length_pos_iff.mpr hl
          rw [List.length_append] at hn
          omega

/-- A beginning of the old word may end the new one, but not what is left of it before that. -/
theorem settles_of_beginOnce (hv : ¬ u <:+: v)
    (h : ∀ r q, v = r ++ q → q ≠ [] → q <+: u → Apart r u) (s : List α) :
    Settles (rewriteLeft u v) s := by
  by_cases hov : ∃ q, q ≠ [] ∧ q <:+ v ∧ q <+: u
  · obtain ⟨q, hqne, ⟨r, rfl⟩, u', rfl⟩ := hov
    have hr := h r q rfl hqne (List.prefix_append q u')
    refine settles_of_token ?_ (inert_of_apart (fun hin => ?_) hr) (inert_of_apart ?_ ?_) s
    · rintro rfl
      rw [List.append_nil] at hv
      exact hv List.infix_append_right
    · exact hv (hin.trans List.infix_append_left)
    · intro hin
      have hlen := hin.length_le
      have hpos := List.length_pos_iff.mpr hqne
      rw [List.length_append, List.length_tail] at hlen
      omega
    · intro p hp hpq hpu
      obtain ⟨c, q, rfl⟩ := List.exists_cons_of_ne_nil hqne
      obtain ⟨w, rfl⟩ : p <:+ q := hpq
      have hfirst := h (r ++ c :: w) p (by simp) hp hpu
      refine hfirst (c :: w) (List.cons_ne_nil _ _) (List.suffix_append ..) ?_
      exact ⟨p ++ u', by simp⟩
  · have hinert : Inert u v := inert_of_apart hv fun p hp hpv hpu => hov ⟨p, hp, hpv, hpu⟩
    have hu : u ≠ [] := fun hnil => hv (hnil ▸ List.nil_infix)
    simpa using settles_of_token (q := []) (r := v) hu hinert (Clear.nil _) s

end AsioCoroFrame
