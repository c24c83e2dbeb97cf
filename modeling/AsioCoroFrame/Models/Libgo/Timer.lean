import AsioCoroFrame.Core.Run
import Mathlib.Data.List.Nodup
import Mathlib.Data.List.TakeWhile
import Mathlib.Logic.Function.Basic
import Mathlib.Tactic.Common

/-!
# Timers

A timer is taken out of its map of deadlines when its time has come and called by the
thread that has taken it; any thread may cancel it before. The lock of a timer decides
between the two, and the lock of the manager guards the maps. A step is one section
under a lock, and an operation inside a callback counts as one of another thread.
-/

namespace AsioCoroFrame.Libgo

/-! ## The maps of deadlines -/

section Deadlines

variable {ι : Type} {deadline now : Int} {i : ι} {n : Nat} {l : List (Int × ι)}

/-- `multimap::insert`: behind all entries with the same key. -/
def insertDeadline (deadline : Int) (i : ι) (l : List (Int × ι)) : List (Int × ι) :=
  l.takeWhile (·.1 ≤ deadline) ++ (deadline, i) :: l.dropWhile (·.1 ≤ deadline)

/-- The loop of `GetExpired` over one map: at most `n` entries whose time has come. -/
def expired (now : Int) (n : Nat) (l : List (Int × ι)) : List (Int × ι) :=
  (l.takeWhile (·.1 ≤ now)).take n

theorem insertDeadline_perm :
    (insertDeadline deadline i l).Perm ((deadline, i) :: l) := by
  rw [insertDeadline]
  refine List.perm_middle.trans ?_
  rw [List.takeWhile_append_dropWhile]

/-- An insertion keeps the order of the deadlines. -/
theorem insertDeadline_ordered (h : l.Pairwise fun e e' => e.1 ≤ e'.1) :
    (insertDeadline deadline i l).Pairwise fun e e' => e.1 ≤ e'.1 := by
  induction l with
  | nil => exact List.pairwise_singleton ..
  | cons e l ih =>
    obtain ⟨he, hl⟩ := List.pairwise_cons.mp h
    by_cases hle : e.1 ≤ deadline
    · have hbehind : insertDeadline deadline i (e :: l) = e :: insertDeadline deadline i l := by
        simp [insertDeadline, hle]
      rw [hbehind]
      refine List.pairwise_cons.mpr ⟨fun e' he' => ?_, ih hl⟩
      rcases List.mem_cons.mp (insertDeadline_perm.mem_iff.mp he') with rfl | he'
      · exact hle
      · exact he e' he'
    · have hfront : insertDeadline deadline i (e :: l) = (deadline, i) :: e :: l := by
        simp [insertDeadline, hle]
      rw [hfront]
      have hlt : deadline ≤ e.1 := Int.le_of_lt (Int.not_le.mp hle)
      refine List.pairwise_cons.mpr ⟨fun e' he' => ?_, h⟩
      rcases List.mem_cons.mp he' with rfl | he'
      · exact hlt
      · exact Int.le_trans hlt (he e' he')

theorem expired_append (now : Int) (n : Nat) (l : List (Int × ι)) :
    expired now n l ++ l.drop (expired now n l).length = l :=
  List.prefix_iff_eq_append.mp ((List.take_prefix ..).trans (List.takeWhile_prefix _))

theorem expired_due {e : Int × ι} (h : e ∈ expired now n l) : e.1 ≤ now := by
  simpa using List.mem_takeWhile_imp (List.mem_of_mem_take h)

theorem expired_length_le : (expired now n l).length ≤ n := List.length_take_le ..

/-- An entry whose time has come is taken, unless as many as allowed have been. -/
theorem mem_expired (h : l.Pairwise fun e e' => e.1 ≤ e'.1) {e : Int × ι} (he : e ∈ l)
    (hdue : e.1 ≤ now) : e ∈ expired now n l ∨ (expired now n l).length = n := by
  have hmem : e ∈ l.takeWhile (·.1 ≤ now) := by
    induction l with
    | nil => cases he
    | cons e' l ih =>
      obtain ⟨hfirst, hl⟩ := List.pairwise_cons.mp h
      have hle : e'.1 ≤ now := by
        rcases List.mem_cons.mp he with rfl | he
        · exact hdue
        · exact Int.le_trans (hfirst e he) hdue
      rw [List.takeWhile_cons_of_pos (by simpa using hle)]
      rcases List.mem_cons.mp he with rfl | he
      · exact List.mem_cons_self
      · exact List.mem_cons_of_mem _ (ih hl he)
  rcases Nat.le_total (l.takeWhile (·.1 ≤ now)).length n with hle | hle
  · rw [expired, List.take_of_length_le hle]
    exact .inl hmem
  · exact .inr (List.length_take_of_le hle)

end Deadlines

/-! ## The code -/

/-- The two maps: `system_deadlines_` and `steady_deadlines_`. -/
inductive Clock where
  | system
  | steady
  deriving DecidableEq, Repr

/-- A timer before it is made, while it is `active_`, and afterwards. -/
inductive TimerStatus where
  | fresh
  | active
  | spent
  deriving DecidableEq, Repr

/-- Where a thread is. -/
inductive TimerSite (ι : Type) where
  /-- With the timers it has taken and not yet called. -/
  | batch (rest : List ι)
  /-- In the callback of a timer, whose lock it holds. -/
  | running (i : ι) (rest : List ι)
  /-- In front of `__Cancel`. -/
  | cancelling (i : ι)
  deriving DecidableEq, Repr

/-- `CoTimerMgr`, its timers, and the threads that use them. -/
structure CoTimerMgr (τ ι : Type) where
  deadlines : Clock → List (Int × ι)
  /-- `token_state_`. -/
  token : ι → Option Clock
  status : ι → TimerStatus
  /-- The thread that holds `fn_lock_` while it runs the callback. -/
  holder : ι → Option τ
  site : τ → TimerSite ι
  /-- How often the callback has been started. -/
  started : ι → Nat
  /-- How often the timer has been cancelled. -/
  cancelled : ι → Nat
  /-- An iterator has been erased that is not in its map. -/
  crashed : Bool

/-- What can happen next. -/
inductive TimerAction (τ ι : Type) where
  | expireAt (i : ι) (clock : Clock) (deadline : Int)
  | cancel (t : τ) (i : ι)
  | blockCancel (t : τ) (i : ι)
  | remove (t : τ)
  | getExpired (t : τ) (now : Clock → Int) (n : Nat)
  | call (t : τ)
  | finish (t : τ)

variable {τ ι : Type}

/-- A new manager. -/
def CoTimerMgr.new : CoTimerMgr τ ι where
  deadlines _ := []
  token _ := none
  status _ := .fresh
  holder _ := none
  site _ := .batch []
  started _ := 0
  cancelled _ := 0
  crashed := false

variable [DecidableEq τ] [DecidableEq ι]

/-- `ExpireAt`. -/
def CoTimerMgr.expireAt (s : CoTimerMgr τ ι) (i : ι) (clock : Clock) (deadline : Int) :
    CoTimerMgr τ ι :=
  { s with
    deadlines :=
      Function.update s.deadlines clock (insertDeadline deadline i (s.deadlines clock))
    token := Function.update s.token i (some clock)
    status := Function.update s.status i .active }

/-- `CoTimer::Cancel` or `BlockCancel` with the lock: an active timer is cancelled. -/
def CoTimerMgr.deactivate (s : CoTimerMgr τ ι) (t : τ) (i : ι) : CoTimerMgr τ ι :=
  if s.status i = .active then
    { s with
      status := Function.update s.status i .spent
      cancelled := Function.update s.cancelled i (s.cancelled i + 1)
      site := Function.update s.site t (.cancelling i) }
  else s

/-- `__Cancel`. -/
def CoTimerMgr.remove (s : CoTimerMgr τ ι) (t : τ) (i : ι) : CoTimerMgr τ ι :=
  let s := { s with site := Function.update s.site t (.batch []) }
  match s.token i with
  | none => s
  | some clock =>
    { s with
      deadlines :=
        Function.update s.deadlines clock ((s.deadlines clock).eraseP fun e => e.2 = i)
      token := Function.update s.token i none
      crashed := s.crashed || !decide (i ∈ (s.deadlines clock).map Prod.snd) }

/-- One map of `GetExpired`, with the timers taken from it. -/
def CoTimerMgr.takeExpired (s : CoTimerMgr τ ι) (clock : Clock) (now : Int) (n : Nat) :
    CoTimerMgr τ ι × List ι :=
  let taken := (expired now n (s.deadlines clock)).map Prod.snd
  ({ s with
    deadlines := Function.update s.deadlines clock ((s.deadlines clock).drop taken.length)
    token := fun i => if i ∈ taken then none else s.token i }, taken)

/-- `GetExpired`. -/
def CoTimerMgr.getExpired (s : CoTimerMgr τ ι) (t : τ) (now : Clock → Int) (n : Nat) :
    CoTimerMgr τ ι :=
  let (s, first) := s.takeExpired .system (now .system) n
  let (s, second) := s.takeExpired .steady (now .steady) (n - first.length)
  { s with site := Function.update s.site t (.batch (first ++ second)) }

/-- `CoTimer::operator()` up to the callback; the lock is tried and the timer left alone if it is
not active. -/
def CoTimerMgr.call (s : CoTimerMgr τ ι) (t : τ) (i : ι) (rest : List ι) : CoTimerMgr τ ι :=
  if s.holder i = none ∧ s.status i = .active then
    { s with
      status := Function.update s.status i .spent
      holder := Function.update s.holder i (some t)
      started := Function.update s.started i (s.started i + 1)
      site := Function.update s.site t (.running i rest) }
  else { s with site := Function.update s.site t (.batch rest) }

/-- One step. `Cancel` tries the lock and `BlockCancel` waits for it; only a timer that has been
made can be cancelled. -/
def CoTimerMgr.step (s : CoTimerMgr τ ι) : TimerAction τ ι → Option (CoTimerMgr τ ι)
  | .expireAt i clock deadline =>
    if s.status i = .fresh then some (s.expireAt i clock deadline) else none
  | .cancel t i =>
    if s.site t = .batch [] ∧ s.status i ≠ .fresh then
      some (if s.holder i = none then s.deactivate t i else s)
    else none
  | .blockCancel t i =>
    if s.site t = .batch [] ∧ s.status i ≠ .fresh ∧ s.holder i = none then
      some (s.deactivate t i)
    else none
  | .remove t =>
    match s.site t with
    | .cancelling i => some (s.remove t i)
    | _ => none
  | .getExpired t now n => if s.site t = .batch [] then some (s.getExpired t now n) else none
  | .call t =>
    match s.site t with
    | .batch (i :: rest) => some (s.call t i rest)
    | _ => none
  | .finish t =>
    match s.site t with
    | .running i rest =>
      some { s with
        holder := Function.update s.holder i none
        site := Function.update s.site t (.batch rest) }
    | _ => none

/-! ## What holds of every run -/

/-- The timers that a thread has still to call. -/
def TimerSite.rest : TimerSite ι → List ι
  | .batch rest => rest
  | .running _ rest => rest
  | .cancelling _ => []

/-- The deadlines and tokens fit. -/
structure CoTimerMgr.Indexed (s : CoTimerMgr τ ι) : Prop where
  token : ∀ {i clock}, s.token i = some clock ↔ i ∈ (s.deadlines clock).map Prod.snd
  nodup : ∀ clock, ((s.deadlines clock).map Prod.snd).Nodup
  ordered : ∀ clock, (s.deadlines clock).Pairwise fun e e' => e.1 ≤ e'.1

/-- What every state satisfies. -/
structure CoTimerMgr.Inv (s : CoTimerMgr τ ι) : Prop where
  indexed : s.Indexed
  fresh : ∀ {i}, s.status i = .fresh → s.token i = none
  count : ∀ i, s.started i + s.cancelled i = if s.status i = .spent then 1 else 0
  holder : ∀ {i t}, s.holder i = some t ↔ ∃ rest, s.site t = .running i rest
  held : ∀ {i}, s.holder i ≠ none → s.status i = .spent
  cancelling : ∀ {i t}, s.site t = .cancelling i → s.status i = .spent
  active : ∀ {i}, s.status i = .active → s.token i ≠ none ∨ ∃ t, i ∈ (s.site t).rest
  crashed : s.crashed = false

omit [DecidableEq τ] [DecidableEq ι] in
theorem CoTimerMgr.inv_new : (.new : CoTimerMgr τ ι).Inv := by
  refine ⟨⟨?_, ?_, ?_⟩, ?_, ?_, ?_, ?_, ?_, ?_, rfl⟩ <;> simp [new]

variable {s s' : CoTimerMgr τ ι} {t u : τ} {i j : ι} {x : TimerSite ι}

omit [DecidableEq τ] [DecidableEq ι] in
theorem CoTimerMgr.Indexed.congr (h : s.Indexed) (hdeadlines : s'.deadlines = s.deadlines)
    (htoken : s'.token = s.token) : s'.Indexed := by
  refine ⟨?_, ?_, ?_⟩ <;> rw [hdeadlines]
  · rw [htoken]
    exact h.token
  · exact h.nodup
  · exact h.ordered

omit [DecidableEq τ] [DecidableEq ι] in
/-- One map has changed, with the tokens of its timers. -/
theorem CoTimerMgr.Indexed.update (h : s.Indexed) {clock : Clock} {l : List (Int × ι)}
    (hdeadlines : s'.deadlines = Function.update s.deadlines clock l)
    (htoken : ∀ j, s'.token j = some clock ↔ j ∈ l.map Prod.snd)
    (hother : ∀ j c, c ≠ clock → (s'.token j = some c ↔ s.token j = some c))
    (hnodup : (l.map Prod.snd).Nodup) (hordered : l.Pairwise fun e e' => e.1 ≤ e'.1) :
    s'.Indexed := by
  refine ⟨fun {j c} => ?_, fun c => ?_, fun c => ?_⟩ <;> rw [hdeadlines]
  · by_cases hc : c = clock
    · subst hc
      rw [Function.update_self]
      exact htoken j
    · rw [Function.update_of_ne hc]
      exact (hother j c hc).trans h.token
  · by_cases hc : c = clock
    · subst hc
      rwa [Function.update_self]
    · rw [Function.update_of_ne hc]
      exact h.nodup c
  · by_cases hc : c = clock
    · subst hc
      rwa [Function.update_self]
    · rw [Function.update_of_ne hc]
      exact h.ordered c

omit [DecidableEq ι] in
/-- A thread that runs no callback before or after its step holds no timer. -/
theorem CoTimerMgr.Inv.holder_update (h : s.Inv) (ht : ∀ j rest, s.site t ≠ .running j rest)
    (hx : ∀ j rest, x ≠ .running j rest) :
    s.holder j = some u ↔ ∃ rest, Function.update s.site t x u = .running j rest := by
  rw [h.holder]
  by_cases hu : u = t
  · subst hu
    simp [ht, hx]
  · simp [hu]

omit [DecidableEq ι] in
/-- A timer that a thread keeps is not lost by its step. -/
theorem CoTimerMgr.Inv.active_update (h : s.Inv) (hj : s.status j = .active)
    (hrest : j ∈ (s.site t).rest → j ∈ x.rest) :
    s.token j ≠ none ∨ ∃ u, j ∈ (Function.update s.site t x u).rest := by
  obtain htoken | ⟨u, hu⟩ := h.active hj
  · exact .inl htoken
  · refine .inr ⟨u, ?_⟩
    by_cases hut : u = t
    · subst hut
      rw [Function.update_self]
      exact hrest hu
    · rwa [Function.update_of_ne hut]

omit [DecidableEq ι] in
/-- A thread that goes on to no `__Cancel` leaves those that do. -/
theorem CoTimerMgr.Inv.cancelling_update (h : s.Inv) (hx : ∀ j, x ≠ .cancelling j)
    (hu : Function.update s.site t x u = .cancelling j) : s.status j = .spent := by
  by_cases hut : u = t
  · subst hut
    rw [Function.update_self] at hu
    exact absurd hu (hx j)
  · rw [Function.update_of_ne hut] at hu
    exact h.cancelling hu

omit [DecidableEq τ] in
theorem CoTimerMgr.Inv.expireAt (h : s.Inv) (hi : s.status i = .fresh) (clock : Clock)
    (deadline : Int) : (s.expireAt i clock deadline).Inv := by
  have hnew (c : Clock) : i ∉ (s.deadlines c).map Prod.snd := fun hmem => by
    have htoken := h.indexed.token.mpr hmem
    rw [h.fresh hi] at htoken
    cases htoken
  have hperm : ((insertDeadline deadline i (s.deadlines clock)).map Prod.snd).Perm
      (i :: (s.deadlines clock).map Prod.snd) := insertDeadline_perm.map Prod.snd
  have hindexed : (s.expireAt i clock deadline).Indexed := by
    refine h.indexed.update rfl (fun j => ?_) (fun j c hc => ?_) ?_
      (insertDeadline_ordered (h.indexed.ordered clock))
    · by_cases hj : j = i
      · simp [CoTimerMgr.expireAt, hj, hperm.mem_iff]
      · simp [CoTimerMgr.expireAt, hj, hperm.mem_iff, h.indexed.token]
    · by_cases hj : j = i
      · simp [CoTimerMgr.expireAt, hj, Ne.symm hc, h.fresh hi]
      · simp [CoTimerMgr.expireAt, hj]
    · rw [hperm.nodup_iff]
      exact List.nodup_cons.mpr ⟨hnew clock, h.indexed.nodup clock⟩
  have hne {j : ι} (hspent : s.status j = .spent) : j ≠ i := fun hji => by
    rw [hji, hi] at hspent
    cases hspent
  refine ⟨hindexed, fun {j} hj => ?_, fun j => ?_, h.holder, fun {j} hj => ?_,
    fun {j u} hu => ?_, fun {j} hj => ?_, h.crashed⟩
  · by_cases hji : j = i
    · simp [CoTimerMgr.expireAt, hji] at hj
    · simp only [CoTimerMgr.expireAt, Function.update_of_ne hji] at hj ⊢
      exact h.fresh hj
  · by_cases hji : j = i
    · subst hji
      simpa [CoTimerMgr.expireAt, hi] using h.count j
    · simpa [CoTimerMgr.expireAt, hji] using h.count j
  · simpa [CoTimerMgr.expireAt, hne (h.held hj)] using h.held hj
  · simpa [CoTimerMgr.expireAt, hne (h.cancelling hu)] using h.cancelling hu
  · by_cases hji : j = i
    · simp [CoTimerMgr.expireAt, hji]
    · simp only [CoTimerMgr.expireAt, Function.update_of_ne hji] at hj ⊢
      exact h.active hj

/-- A cancelled timer stays in its map until `__Cancel`. -/
theorem CoTimerMgr.Inv.deactivate (h : s.Inv) (ht : s.site t = .batch []) :
    (s.deactivate t i).Inv := by
  rw [CoTimerMgr.deactivate]
  split
  · rename_i hi
    refine ⟨h.indexed.congr rfl rfl, fun {j} hj => ?_, fun j => ?_,
      h.holder_update (by simp [ht]) (by simp), fun {j} hj => ?_, fun {j u} hu => ?_,
      fun {j} hj => ?_, h.crashed⟩
    · by_cases hji : j = i
      · simp [hji] at hj
      · exact h.fresh (by simpa [hji] using hj)
    · by_cases hji : j = i
      · subst hji
        have hcount := h.count j
        simp only [hi, reduceCtorEq, if_false] at hcount
        simp only [Function.update_self, if_true]
        omega
      · simpa [hji] using h.count j
    · by_cases hji : j = i
      · simp [hji]
      · simpa [hji] using h.held hj
    · by_cases hji : j = i
      · simp [hji]
      · have hut : u ≠ t := fun hut => by
          subst hut
          simp only [Function.update_self, TimerSite.cancelling.injEq] at hu
          exact hji hu.symm
        simp only [Function.update_of_ne hut] at hu
        simpa [hji] using h.cancelling hu
    · by_cases hji : j = i
      · simp [hji] at hj
      · simp only [Function.update_of_ne hji] at hj
        refine h.active_update hj fun hmem => ?_
        rw [ht] at hmem
        cases hmem
  · exact h

theorem CoTimerMgr.Inv.remove (h : s.Inv) (ht : s.site t = .cancelling i) :
    (s.remove t i).Inv := by
  have hspent := h.cancelling ht
  have hactive {j : ι} (hj : s.status j = .active) :
      s.token j ≠ none ∨ ∃ u, j ∈ (Function.update s.site t (.batch []) u).rest := by
    refine h.active_update hj fun hmem => ?_
    rw [ht] at hmem
    cases hmem
  have hholder {j : ι} {u : τ} : s.holder j = some u ↔
      ∃ rest, Function.update s.site t (.batch []) u = .running j rest :=
    h.holder_update (by simp [ht]) (by simp)
  have hcancelling {j : ι} {u : τ} (hu : Function.update s.site t (.batch []) u = .cancelling j) :
      s.status j = .spent := h.cancelling_update (by simp) hu
  rw [CoTimerMgr.remove]
  cases htoken : s.token i with
  | none => exact ⟨h.indexed.congr rfl rfl, h.fresh, h.count, hholder, h.held, hcancelling, hactive,
      h.crashed⟩
  | some clock =>
    have hmem := h.indexed.token.mp htoken
    have herase : ((s.deadlines clock).eraseP fun e => e.2 = i).map Prod.snd =
        ((s.deadlines clock).map Prod.snd).erase i := by
      rw [List.erase_eq_eraseP', List.eraseP_map]
      congr 2
    refine ⟨?_, fun {j} hj => ?_, h.count, hholder, h.held, hcancelling, fun {j} hj => ?_, ?_⟩
    · refine h.indexed.update rfl (fun j => ?_) (fun j c hc => ?_) ?_
        ((h.indexed.ordered clock).sublist List.eraseP_sublist)
      · rw [herase, (h.indexed.nodup clock).mem_erase_iff]
        by_cases hji : j = i
        · simp [hji]
        · simp [hji, h.indexed.token]
      · by_cases hji : j = i
        · simp [hji, htoken, Ne.symm hc]
        · simp [hji]
      · rw [herase]
        exact (h.indexed.nodup clock).erase i
    · by_cases hji : j = i
      · simp [hji]
      · simpa [hji] using h.fresh hj
    · have hji : j ≠ i := fun hji => by
        rw [hji, hspent] at hj
        cases hj
      simpa [hji] using hactive hj
    · simpa [h.crashed] using hmem

omit [DecidableEq τ] in
theorem CoTimerMgr.Indexed.takeExpired (h : s.Indexed) (clock : Clock) (now : Int) (n : Nat) :
    (s.takeExpired clock now n).1.Indexed := by
  let taken := (expired now n (s.deadlines clock)).map Prod.snd
  have hsplit : taken ++ ((s.deadlines clock).drop taken.length).map Prod.snd =
      (s.deadlines clock).map Prod.snd := by
    rw [List.length_map, ← List.map_append, expired_append]
  have hnodup := h.nodup clock
  rw [← hsplit, List.nodup_append] at hnodup
  obtain ⟨_, hrest, hapart⟩ := hnodup
  refine h.update rfl (fun j => ?_) (fun j c hc => ?_) hrest
    ((h.ordered clock).sublist (List.drop_sublist ..))
  · change (if j ∈ taken then none else s.token j) = some clock ↔ _
    by_cases hj : j ∈ taken
    · simp only [hj, if_true, reduceCtorEq, false_iff]
      exact fun hj' => hapart j hj j hj' rfl
    · rw [if_neg hj, h.token, ← hsplit, List.mem_append, or_iff_right hj]
  · change (if j ∈ taken then none else s.token j) = some c ↔ _
    by_cases hj : j ∈ taken
    · have htoken := h.token.mpr (hsplit ▸ List.mem_append_left _ hj)
      simp [hj, htoken, Ne.symm hc]
    · rw [if_neg hj]

/-- A timer keeps its token or is taken. -/
theorem CoTimerMgr.getExpired_spec (s : CoTimerMgr τ ι) (t : τ) (now : Clock → Int) (n : Nat) :
    ∃ taken, (s.getExpired t now n).site = Function.update s.site t (.batch taken) ∧
      ∀ j, (s.getExpired t now n).token j = if j ∈ taken then none else s.token j := by
  let first := s.takeExpired .system (now .system) n
  let second := first.1.takeExpired .steady (now .steady) (n - first.2.length)
  refine ⟨first.2 ++ second.2, rfl, fun j => ?_⟩
  change (if j ∈ second.2 then none else if j ∈ first.2 then none else s.token j) = _
  by_cases hfirst : j ∈ first.2 <;> by_cases hsecond : j ∈ second.2 <;> simp [hfirst, hsecond]

theorem CoTimerMgr.Inv.getExpired (h : s.Inv) (ht : s.site t = .batch []) (now : Clock → Int)
    (n : Nat) : (s.getExpired t now n).Inv := by
  have hindexed := (h.indexed.takeExpired .system (now .system) n).takeExpired .steady
    (now .steady) (n - (s.takeExpired .system (now .system) n).2.length)
  obtain ⟨taken, hsite, htoken⟩ := s.getExpired_spec t now n
  refine ⟨hindexed.congr rfl rfl, fun {j} hj => ?_, h.count,
    h.holder_update (by simp [ht]) (by simp), h.held,
    fun hu => h.cancelling_update (by simp) hu, fun {j} hj => ?_, h.crashed⟩
  · rw [htoken, h.fresh hj, ite_self]
  · rw [htoken, hsite]
    by_cases hin : j ∈ taken
    · refine .inr ⟨t, ?_⟩
      rw [Function.update_self]
      exact hin
    · rw [if_neg hin]
      refine h.active_update hj fun hmem => ?_
      rw [ht] at hmem
      cases hmem

theorem CoTimerMgr.Inv.call (h : s.Inv) {rest : List ι} (ht : s.site t = .batch (i :: rest)) :
    (s.call t i rest).Inv := by
  rw [CoTimerMgr.call]
  split
  · rename_i hi
    obtain ⟨hfree, hi⟩ := hi
    refine ⟨h.indexed.congr rfl rfl, fun {j} hj => ?_, fun j => ?_, fun {j u} => ?_,
      fun {j} hj => ?_, fun {j u} hu => ?_, fun {j} hj => ?_, h.crashed⟩
    · by_cases hji : j = i
      · simp [hji] at hj
      · exact h.fresh (by simpa [hji] using hj)
    · by_cases hji : j = i
      · subst hji
        have hcount := h.count j
        simp only [hi, reduceCtorEq, if_false] at hcount
        simp only [Function.update_self, if_true]
        omega
      · simpa [hji] using h.count j
    · by_cases hut : u = t
      · subst hut
        by_cases hji : j = i
        · simp [hji]
        · have hnot : s.holder j ≠ some u := fun hj => by
            obtain ⟨rest', hrun⟩ := h.holder.mp hj
            rw [ht] at hrun
            cases hrun
          simp [hji, hnot, Ne.symm hji]
      · by_cases hji : j = i
        · subst hji
          have hnot : ¬∃ rest', s.site u = .running j rest' := fun hrun => by
            rw [← h.holder, hfree] at hrun
            cases hrun
          simp only [Function.update_self, Function.update_of_ne hut, Option.some.injEq]
          exact iff_of_false (Ne.symm hut) hnot
        · simpa [hut, hji] using h.holder
    · by_cases hji : j = i
      · simp [hji]
      · simp only [Function.update_of_ne hji] at hj ⊢
        exact h.held hj
    · have hspent := h.cancelling_update (by simp) hu
      by_cases hji : j = i
      · simp [hji]
      · simpa [hji] using hspent
    · by_cases hji : j = i
      · simp [hji] at hj
      · simp only [Function.update_of_ne hji] at hj
        refine h.active_update hj fun hmem => ?_
        rw [ht] at hmem
        exact (List.mem_cons.mp hmem).resolve_left hji
  · rename_i hi
    refine ⟨h.indexed.congr rfl rfl, h.fresh, h.count,
      h.holder_update (by simp [ht]) (by simp), h.held,
      fun hu => h.cancelling_update (by simp) hu, fun {j} hj => ?_, h.crashed⟩
    refine h.active_update hj fun hmem => ?_
    rw [ht] at hmem
    refine (List.mem_cons.mp hmem).resolve_left fun hji => hi ?_
    subst hji
    refine ⟨?_, hj⟩
    by_contra hheld
    rw [h.held hheld] at hj
    cases hj

theorem CoTimerMgr.Inv.finish (h : s.Inv) {rest : List ι} (ht : s.site t = .running i rest) :
    ({ s with
        holder := Function.update s.holder i none
        site := Function.update s.site t (.batch rest) } : CoTimerMgr τ ι).Inv := by
  refine ⟨h.indexed.congr rfl rfl, h.fresh, h.count, fun {j u} => ?_, fun {j} hj => ?_,
    fun hu => h.cancelling_update (by simp) hu, fun {j} hj => ?_, h.crashed⟩
  · by_cases hut : u = t
    · subst hut
      by_cases hji : j = i
      · simp [hji]
      · have hnot : s.holder j ≠ some u := fun hj => by
          obtain ⟨rest', hrun⟩ := h.holder.mp hj
          rw [ht, TimerSite.running.injEq] at hrun
          exact hji hrun.1.symm
        simp [hji, hnot]
    · by_cases hji : j = i
      · subst hji
        have hnot : ¬∃ rest', s.site u = .running j rest' := fun hrun => by
          rw [← h.holder, h.holder.mpr ⟨rest, ht⟩, Option.some.injEq] at hrun
          exact hut hrun.symm
        simpa [hut] using hnot
      · simpa [hut, hji] using h.holder
  · by_cases hji : j = i
    · simp [hji] at hj
    · simp only [Function.update_of_ne hji] at hj
      exact h.held hj
  · refine h.active_update hj fun hmem => ?_
    rw [ht] at hmem
    exact hmem

/-- One step keeps the invariant. -/
theorem CoTimerMgr.Inv.step (h : s.Inv) {a : TimerAction τ ι} (hstep : s.step a = some s') :
    s'.Inv := by
  cases a with
  | expireAt i clock deadline =>
    rw [CoTimerMgr.step, Option.ite_none_right_eq_some, Option.some.injEq] at hstep
    obtain ⟨hi, rfl⟩ := hstep
    exact h.expireAt hi clock deadline
  | cancel t i =>
    rw [CoTimerMgr.step, Option.ite_none_right_eq_some, Option.some.injEq] at hstep
    obtain ⟨⟨ht, _⟩, rfl⟩ := hstep
    split
    · exact h.deactivate ht
    · exact h
  | blockCancel t i =>
    rw [CoTimerMgr.step, Option.ite_none_right_eq_some, Option.some.injEq] at hstep
    obtain ⟨⟨ht, _⟩, rfl⟩ := hstep
    exact h.deactivate ht
  | remove t =>
    rw [CoTimerMgr.step] at hstep
    cases ht : s.site t with
    | cancelling i =>
      rw [ht] at hstep
      cases hstep
      exact h.remove ht
    | batch | running => simp [ht] at hstep
  | getExpired t now n =>
    rw [CoTimerMgr.step, Option.ite_none_right_eq_some, Option.some.injEq] at hstep
    obtain ⟨ht, rfl⟩ := hstep
    exact h.getExpired ht now n
  | call t =>
    rw [CoTimerMgr.step] at hstep
    split at hstep
    · rename_i i rest ht
      cases hstep
      exact h.call ht
    · cases hstep
  | finish t =>
    rw [CoTimerMgr.step] at hstep
    split at hstep
    · rename_i i rest ht
      cases hstep
      exact h.finish ht
    · cases hstep

theorem CoTimerMgr.inv_of_run {as : List (TimerAction τ ι)}
    (h : Run CoTimerMgr.step (fun _ _ => True) .new as s) : s.Inv :=
  h.invariant inv_new fun _ _ _ hs _ hstep => hs.step hstep

/-- Under every interleaving of the threads: a timer is called or cancelled, and this once; no two
threads are in its callback; no iterator is erased that is not in its map; and a timer that has been
neither called nor cancelled is in one of the maps or taken by a thread that will call it. -/
theorem timers_fire_once {as : List (TimerAction τ ι)}
    (h : Run CoTimerMgr.step (fun _ _ => True) .new as s) :
    (∀ i, s.started i + s.cancelled i = if s.status i = .spent then 1 else 0) ∧
      (∀ i t u rest rest', s.site t = .running i rest → s.site u = .running i rest' → t = u) ∧
      s.crashed = false ∧
      ∀ i, s.status i = .active →
        (∃ clock, i ∈ (s.deadlines clock).map Prod.snd) ∨ ∃ t, i ∈ (s.site t).rest := by
  have hs := CoTimerMgr.inv_of_run h
  refine ⟨hs.count, fun i t u rest rest' ht hu => ?_, hs.crashed, fun i hi => ?_⟩
  · have hheld := hs.holder.mpr ⟨rest, ht⟩
    rw [hs.holder.mpr ⟨rest', hu⟩, Option.some.injEq] at hheld
    exact hheld.symm
  · refine (hs.active hi).imp_left fun htoken => ?_
    obtain ⟨clock, hclock⟩ := Option.ne_none_iff_exists'.mp htoken
    exact ⟨clock, hs.indexed.token.mp hclock⟩

/-- A thread takes two timers; while it is in the callback of the first, the second is cancelled. -/
def cancelActions : List (TimerAction Bool Nat) :=
  [.expireAt 7 .steady 10, .expireAt 8 .system 3, .getExpired true (fun _ => 10) 128, .call true,
    .cancel false 7, .finish true, .call true, .remove false]

/-- The guarantee applied to them. -/
theorem timers_fire_once_cancelled :
    ∃ s : CoTimerMgr Bool Nat, (s.started 8, s.cancelled 8) = (1, 0) ∧
      (s.started 7, s.cancelled 7) = (0, 1) ∧
      (∀ i, s.started i + s.cancelled i = if s.status i = .spent then 1 else 0) ∧
      (∀ i t u rest rest', s.site t = .running i rest → s.site u = .running i rest' → t = u) ∧
      s.crashed = false ∧
      ∀ i, s.status i = .active →
        (∃ clock, i ∈ (s.deadlines clock).map Prod.snd) ∨ ∃ t, i ∈ (s.site t).rest := by
  have hlog : (runFrom CoTimerMgr.step cancelActions .new).map
      (fun s => ((s.started 8, s.cancelled 8), (s.started 7, s.cancelled 7))) =
        some ((1, 0), (0, 1)) := by
    decide +kernel
  obtain ⟨s, hs, he⟩ := Option.map_eq_some_iff.mp hlog
  rw [Prod.mk.injEq] at he
  have hrun : Run CoTimerMgr.step (fun _ _ => True) .new cancelActions s :=
    Run.of_runFrom hs fun _ _ _ _ _ _ => trivial
  exact ⟨s, he.1, he.2, timers_fire_once hrun⟩

/-! ## After a cancellation -/

/-- The timer is not active and its callback is not running. -/
structure CoTimerMgr.Settled (i : ι) (n : Nat) (s : CoTimerMgr τ ι) : Prop where
  status : s.status i = .spent
  holder : s.holder i = none
  started : s.started i = n

omit [DecidableEq τ] [DecidableEq ι] in
theorem CoTimerMgr.Settled.ne {n : Nat} (h : s.Settled i n) (hj : s.status j ≠ .spent) :
    i ≠ j := fun hij => hj (hij ▸ h.status)

theorem CoTimerMgr.Settled.deactivate {n : Nat} (h : s.Settled i n) :
    (s.deactivate t j).Settled i n := by
  rw [CoTimerMgr.deactivate]
  split
  · rename_i hj
    have hij : i ≠ j := h.ne (by simp [hj])
    exact ⟨by simpa [hij] using h.status, h.holder, h.started⟩
  · exact h

/-- Such a timer stays as it is. -/
theorem CoTimerMgr.Settled.step {n : Nat} (h : s.Settled i n) {a : TimerAction τ ι}
    (hstep : s.step a = some s') : s'.Settled i n := by
  cases a with
  | expireAt j clock deadline =>
    rw [CoTimerMgr.step, Option.ite_none_right_eq_some, Option.some.injEq] at hstep
    obtain ⟨hj, rfl⟩ := hstep
    have hij : i ≠ j := h.ne (by simp [hj])
    exact ⟨by simpa [CoTimerMgr.expireAt, hij] using h.status, h.holder, h.started⟩
  | cancel t j =>
    rw [CoTimerMgr.step, Option.ite_none_right_eq_some, Option.some.injEq] at hstep
    obtain ⟨_, rfl⟩ := hstep
    split
    · exact h.deactivate
    · exact h
  | blockCancel t j =>
    rw [CoTimerMgr.step, Option.ite_none_right_eq_some, Option.some.injEq] at hstep
    obtain ⟨_, rfl⟩ := hstep
    exact h.deactivate
  | remove t =>
    rw [CoTimerMgr.step] at hstep
    split at hstep
    · rename_i j ht
      cases hstep
      rw [CoTimerMgr.remove]
      split <;> exact ⟨h.status, h.holder, h.started⟩
    · cases hstep
  | getExpired t now n =>
    rw [CoTimerMgr.step, Option.ite_none_right_eq_some, Option.some.injEq] at hstep
    obtain ⟨_, rfl⟩ := hstep
    exact ⟨h.status, h.holder, h.started⟩
  | call t =>
    rw [CoTimerMgr.step] at hstep
    split at hstep
    · rename_i j rest ht
      cases hstep
      rw [CoTimerMgr.call]
      split
      · rename_i hj
        have hij : i ≠ j := h.ne (by simp [hj.2])
        exact ⟨by simpa [hij] using h.status, by simpa [hij] using h.holder,
          by simpa [hij] using h.started⟩
      · exact ⟨h.status, h.holder, h.started⟩
    · cases hstep
  | finish t =>
    rw [CoTimerMgr.step] at hstep
    split at hstep
    · rename_i j rest ht
      cases hstep
      refine ⟨h.status, ?_, h.started⟩
      by_cases hij : i = j
      · simp [hij]
      · simpa [hij] using h.holder
    · cases hstep

/-- Once `BlockCancel` has come through, whatever it returns, the callback is running nowhere, and
in no continuation of the run is it started again. -/
theorem block_cancel_settles {as bs : List (TimerAction τ ι)} {s₁ : CoTimerMgr τ ι}
    (h : Run CoTimerMgr.step (fun _ _ => True) .new as s)
    (hcancel : s.step (.blockCancel t i) = some s₁)
    (hrun : Run CoTimerMgr.step (fun _ _ => True) s₁ bs s') :
    s'.started i = s.started i ∧ ∀ u rest, s'.site u ≠ .running i rest := by
  have hs := CoTimerMgr.inv_of_run h
  have hs₁ := hs.step hcancel
  rw [CoTimerMgr.step, Option.ite_none_right_eq_some, Option.some.injEq] at hcancel
  obtain ⟨⟨_, hmade, hfree⟩, rfl⟩ := hcancel
  have hsettled : (s.deactivate t i).Settled i (s.started i) := by
    rw [CoTimerMgr.deactivate]
    split
    · exact ⟨by simp, hfree, rfl⟩
    · rename_i hi
      refine ⟨?_, hfree, rfl⟩
      cases hstatus : s.status i with
      | fresh => exact absurd hstatus hmade
      | active => exact absurd hstatus hi
      | spent => rfl
  have hend : s'.Inv ∧ s'.Settled i (s.started i) := by
    refine hrun.invariant (P := fun m => m.Inv ∧ m.Settled i (s.started i)) ⟨hs₁, hsettled⟩ ?_
    exact fun _ _ _ hm _ hstep => ⟨hm.1.step hstep, hm.2.step hstep⟩
  refine ⟨hend.2.started, fun u rest hu => ?_⟩
  have hheld := hend.1.holder.mpr ⟨rest, hu⟩
  rw [hend.2.holder] at hheld
  cases hheld

/-- A timer that has been taken is cancelled before it is called. -/
theorem block_cancel_settles_taken :
    ∃ s s₁ s' : CoTimerMgr Bool Nat, s.site true = .batch [7] ∧
      s.step (.blockCancel false 7) = some s₁ ∧
      runFrom CoTimerMgr.step [.remove false, .call true] s₁ = some s' ∧
      s'.started 7 = s.started 7 ∧ ∀ u rest, s'.site u ≠ .running 7 rest := by
  have hlog : ((runFrom CoTimerMgr.step
      [.expireAt 7 .steady 10, .getExpired true (fun _ => 10) 128] .new).bind fun s =>
        (s.step (.blockCancel false 7)).bind fun s₁ =>
          (runFrom CoTimerMgr.step [.remove false, .call true] s₁).map fun _ =>
            (s.site true : TimerSite Nat)) = some (.batch [7]) := by
    decide +kernel
  obtain ⟨s, hs, hlog⟩ := Option.bind_eq_some_iff.mp hlog
  obtain ⟨s₁, hs₁, hlog⟩ := Option.bind_eq_some_iff.mp hlog
  obtain ⟨s', hs', hsite⟩ := Option.map_eq_some_iff.mp hlog
  exact ⟨s, s₁, s', hsite, hs₁, hs', block_cancel_settles
    (.of_runFrom hs fun _ _ _ _ _ _ => trivial) hs₁ (.of_runFrom hs' fun _ _ _ _ _ _ => trivial)⟩

/-! ## What is taken -/

end AsioCoroFrame.Libgo
