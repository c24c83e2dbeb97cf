import AsioCoroFrame.Core.Run
import AsioCoroFrame.Core.Tally
import AsioCoroFrame.Models.Libgo.BlockObject

/-!
# Channels between coroutines

A channel is a queue and two `BlockObject`s, one with a signal for each free place and
one with a signal for each element. A reader first adds a free place of its own, so
that a channel without capacity still passes elements on. A step is one section under
a lock; `queue_lock_` only makes the sections on the queue one at a time.
-/

namespace AsioCoroFrame.Libgo

/-! ## The code -/

/-- The two `BlockObject`s of a channel: `write_block_` and `read_block_`. -/
inductive Side where
  | write
  | read
  deriving DecidableEq, Repr

/-- What is waited for: a place for an element, or an element. -/
inductive Wanted (α : Type) where
  | place (v : α)
  | element
  deriving DecidableEq, Repr

/-- Where a task is inside `CoBlockWait` or `CoBlockWaitTimed`. -/
inductive Phase where
  /-- In front of the test of the signals. -/
  | testing
  /-- The test has failed and the task is being switched out. -/
  | leaving
  /-- In the queue of the object. -/
  | queued
  deriving DecidableEq, Repr

/-- The kinds of operations: the operators, the `Timed` and the `Try` functions. -/
inductive Kind where
  | plain
  | timed
  | try_
  deriving DecidableEq, Repr

/-- Where a task is. -/
inductive Site (α : Type) where
  | outside
  | waiting (want : Wanted α) (timed : Bool) (phase : Phase)
  /-- `TryPush` in front of its test. -/
  | trying (v : α)
  /-- A writer that has a place. -/
  | storing (v : α)
  /-- A writer that has stored and is about to signal it. -/
  | announcing
  /-- A reader about to signal its place. -/
  | popping (kind : Kind)
  /-- In the loop of `TryPop` and of a `TimedPop` that has timed out: about to test for an
  element. -/
  | retrying
  /-- In that loop: about to take its place back. -/
  | withdrawing
  /-- A reader that has an element. -/
  | taking
  deriving DecidableEq, Repr

/-- The object that is waited on. -/
def Wanted.side {α : Type} : Wanted α → Side
  | .place _ => .write
  | .element => .read

/-- Where a wait that has been given a signal goes on. -/
def Wanted.granted {α : Type} : Wanted α → Site α
  | .place v => .storing v
  | .element => .taking

/-- Where a timed wait that returns `false` goes on. -/
def Wanted.refused {α : Type} : Wanted α → Site α
  | .place _ => .outside
  | .element => .withdrawing

/-- Where a task that has been taken out of a queue goes on. -/
def Site.granted {α : Type} : Site α → Site α
  | .waiting want _ _ => want.granted
  | site => site

/-- A channel and the tasks that use it. -/
structure Channel (τ α : Type) where
  blocks : Side → BlockObject τ
  /-- `queue_`, front first. -/
  queue : List α
  site : τ → Site α
  /-- What has been stored so far. -/
  stored : List α
  /-- What has been taken so far. -/
  taken : List α
  /-- The signals taken by waits that have returned `false` all the same. -/
  lost : Side → Nat

variable {τ α : Type} [DecidableEq τ]

/-- A new channel. -/
def Channel.new (capacity : Nat) : Channel τ α where
  blocks
    | .write => .new capacity (2 ^ 64 - 1)
    | .read => .new 0 (2 ^ 64 - 1)
  queue := []
  site := fun _ => .outside
  stored := []
  taken := []
  lost := fun _ => 0

/-- A task goes on at another place. -/
def Channel.move (s : Channel τ α) (t : τ) (site : Site α) : Channel τ α :=
  { s with site := Function.update s.site t site }

/-- One of the objects has changed. -/
def Channel.setBlock (s : Channel τ α) (side : Side) (b : BlockObject τ) : Channel τ α :=
  { s with blocks := Function.update s.blocks side b }

/-- `Wakeup` on one of the objects; a task taken out of the queue goes on with the signal. -/
def Channel.signal (s : Channel τ α) (side : Side) : Channel τ α :=
  match (s.blocks side).wakeup with
  | (b, none, _) => s.setBlock side b
  | (b, some t, _) => (s.setBlock side b).move t (s.site t).granted

/-- The operations of a channel. -/
inductive Operation (α : Type) where
  | push (kind : Kind) (v : α)
  | pop (kind : Kind)
  deriving DecidableEq, Repr

/-- Where an operation begins. -/
def Operation.start : Operation α → Site α
  | .push .plain v => .waiting (.place v) false .testing
  | .push .timed v => .waiting (.place v) true .testing
  | .push .try_ v => .trying v
  | .pop kind => .popping kind

/-- Where a reader goes on after it has signalled its place. -/
def Kind.afterPlace : Kind → Site α
  | .plain => .waiting .element false .testing
  | .timed => .waiting .element true .testing
  | .try_ => .retrying

/-- What can happen next: a task calls an operation, goes one section further, or its time is
up. -/
inductive Action (τ α : Type) where
  | call (t : τ) (op : Operation α)
  | go (t : τ)
  | expire (t : τ)

/-- The test of the signals in `CoBlockWait` and `CoBlockWaitTimed`. A thread outside of the
coroutines polls, and its timed wait returns `false` whether or not it has taken a signal. -/
def Channel.test (native : τ → Bool) (s : Channel τ α) (t : τ) (want : Wanted α) (timed : Bool) :
    Channel τ α :=
  match (s.blocks want.side).tryBlockWait with
  | some b =>
    if native t && timed then
      { (s.setBlock want.side b).move t want.refused with
        lost := Function.update s.lost want.side (s.lost want.side + 1) }
    else (s.setBlock want.side b).move t want.granted
  | none => if native t then s else s.move t (.waiting want timed .leaving)

/-- The next section of a task; a queued task waits for others, and `front()` of an empty queue is
undefined. -/
def Channel.go (native : τ → Bool) (s : Channel τ α) (t : τ) : Option (Channel τ α) :=
  match s.site t with
  | .outside => none
  | .waiting want timed .testing => some (s.test native t want timed)
  | .waiting want timed .leaving =>
    match (s.blocks want.side).addWaitTask t with
    | (b, false) => some ((s.setBlock want.side b).move t want.granted)
    | (b, true) => some ((s.setBlock want.side b).move t (.waiting want timed .queued))
  | .waiting _ _ .queued => none
  | .trying v =>
    match (s.blocks .write).tryBlockWait with
    | some b => some ((s.setBlock .write b).move t (.storing v))
    | none => some (s.move t .outside)
  | .storing v =>
    some { s.move t .announcing with queue := s.queue ++ [v], stored := s.stored ++ [v] }
  | .announcing => some ((s.move t .outside).signal .read)
  | .popping kind => some ((s.move t kind.afterPlace).signal .write)
  | .retrying =>
    match (s.blocks .read).tryBlockWait with
    | some b => some ((s.setBlock .read b).move t .taking)
    | none => some (s.move t .withdrawing)
  | .withdrawing =>
    match (s.blocks .write).tryBlockWait with
    | some b => some ((s.setBlock .write b).move t .outside)
    | none => some (s.move t .retrying)
  | .taking =>
    match s.queue with
    | [] => none
    | v :: queue => some { s.move t .outside with queue := queue, taken := s.taken ++ [v] }

/-- The time of a wait is up: the timer takes the task out of the queue, or the polling ends. -/
def Channel.expire (native : τ → Bool) (s : Channel τ α) (t : τ) : Option (Channel τ α) :=
  match s.site t with
  | .waiting want true .queued =>
    ((s.blocks want.side).cancelWait t).map fun b => (s.setBlock want.side b).move t want.refused
  | .waiting want true .testing => if native t then some (s.move t want.refused) else none
  | _ => none

/-- One step. -/
def Channel.step (native : τ → Bool) (s : Channel τ α) : Action τ α → Option (Channel τ α)
  | .call t op => if s.site t matches .outside then some (s.move t op.start) else none
  | .go t => s.go native t
  | .expire t => s.expire native t

/-! ## The tasks in the queues -/

/-- The object whose queue a task at this place is in. -/
def Site.queuedOn : Site α → Option Side
  | .waiting want _ .queued => some want.side
  | _ => none

/-- The queues hold the tasks that are queued, and no task is queued beside a signal. -/
structure Channel.Waiters (s : Channel τ α) : Prop where
  sound : ∀ side, (s.blocks side).Sound
  queued : ∀ side t, t ∈ (s.blocks side).waitQueue ↔ (s.site t).queuedOn = some side

@[simp] theorem Wanted.granted_queuedOn (want : Wanted α) : want.granted.queuedOn = none := by
  cases want <;> rfl

@[simp] theorem Wanted.refused_queuedOn (want : Wanted α) : want.refused.queuedOn = none := by
  cases want <;> rfl

@[simp] theorem Operation.start_queuedOn (op : Operation α) : op.start.queuedOn = none := by
  cases op with
  | push kind v => cases kind <;> rfl
  | pop kind => rfl

@[simp] theorem Kind.afterPlace_queuedOn (kind : Kind) :
    (kind.afterPlace : Site α).queuedOn = none := by
  cases kind <;> rfl

theorem Site.queuedOn_eq_some {site : Site α} {side : Side} (h : site.queuedOn = some side) :
    ∃ want timed, site = .waiting want timed .queued ∧ want.side = side := by
  unfold queuedOn at h
  split at h
  · cases h
    exact ⟨_, _, rfl, rfl⟩
  · cases h

section Waiters

variable {s : Channel τ α} {t : τ} {side : Side}

theorem Channel.Waiters.move (h : s.Waiters) {x : Site α} (hy : (s.site t).queuedOn = none)
    (hx : x.queuedOn = none) : (s.move t x).Waiters := by
  refine ⟨h.sound, fun side u => ?_⟩
  by_cases hu : u = t
  · subst hu
    change _ ↔ (Function.update s.site u x u).queuedOn = some side
    rw [Function.update_self, hx, ← hy]
    exact h.queued side u
  · change _ ↔ (Function.update s.site t x u).queuedOn = some side
    rw [Function.update_of_ne hu]
    exact h.queued side u

omit [DecidableEq τ] in
/-- A change of one object that leaves its queue. -/
theorem Channel.Waiters.setBlock (h : s.Waiters) {b : BlockObject τ} (hb : b.Sound)
    (hqueue : b.waitQueue = (s.blocks side).waitQueue) : (s.setBlock side b).Waiters := by
  refine ⟨fun side' => ?_, fun side' u => ?_⟩
  · by_cases hside : side' = side
    · subst hside
      simpa [Channel.setBlock] using hb
    · simpa [Channel.setBlock, hside] using h.sound side'
  · by_cases hside : side' = side
    · subst hside
      simpa [Channel.setBlock, hqueue] using h.queued side' u
    · simpa [Channel.setBlock, hside] using h.queued side' u

omit [DecidableEq τ] in
theorem Channel.Waiters.take (h : s.Waiters) {b : BlockObject τ}
    (htry : (s.blocks side).tryBlockWait = some b) : (s.setBlock side b).Waiters :=
  h.setBlock ((h.sound side).tryBlockWait htry) (BlockObject.tryBlockWait_eq_some htry).2.1

/-- A task joins or leaves a queue together with its place. -/
theorem Channel.Waiters.requeue (h : s.Waiters) {b : BlockObject τ} {x : Site α} (hb : b.Sound)
    (hother : ∀ u, u ≠ t → (u ∈ b.waitQueue ↔ u ∈ (s.blocks side).waitQueue))
    (hself : t ∈ b.waitQueue ↔ x.queuedOn = some side)
    (hy : ∀ side', side' ≠ side → (s.site t).queuedOn ≠ some side')
    (hx : ∀ side', side' ≠ side → x.queuedOn ≠ some side') :
    ((s.setBlock side b).move t x).Waiters := by
  refine ⟨fun side' => ?_, fun side' u => ?_⟩
  · by_cases hside : side' = side
    · subst hside
      simpa [Channel.setBlock, Channel.move] using hb
    · simpa [Channel.setBlock, Channel.move, hside] using h.sound side'
  · by_cases hside : side' = side
    · subst hside
      by_cases hu : u = t
      · subst hu
        simpa [Channel.setBlock, Channel.move] using hself
      · simpa [Channel.setBlock, Channel.move, hu, hother u hu] using h.queued side' u
    · by_cases hu : u = t
      · subst hu
        have hleft := h.queued side' u
        simp only [hy side' hside, iff_false] at hleft
        simpa [Channel.setBlock, Channel.move, hside, hx side' hside] using hleft
      · simpa [Channel.setBlock, Channel.move, hside, hu] using h.queued side' u

/-- What `Wakeup` does to a channel that has room for one more signal. -/
theorem Channel.signal_cases (h : s.Waiters)
    (hroom : (s.blocks side).wakeups < (s.blocks side).maxWakeups) :
    ((s.blocks side).waitQueue = [] ∧ s.signal side = s.setBlock side
        { s.blocks side with wakeups := (s.blocks side).wakeups + 1 }) ∨
      ∃ t q want timed, (s.blocks side).waitQueue = t :: q ∧
        s.site t = .waiting want timed .queued ∧ want.side = side ∧
        s.signal side =
          (s.setBlock side { s.blocks side with waitQueue := q }).move t want.granted := by
  rcases BlockObject.wakeup_cases hroom with ⟨hnil, hwake⟩ | ⟨t, q, hcons, hwake⟩
  · exact .inl ⟨hnil, by rw [signal, hwake]⟩
  · have hmem : t ∈ (s.blocks side).waitQueue := hcons ▸ List.mem_cons_self
    obtain ⟨want, timed, hsite, hside⟩ := Site.queuedOn_eq_some ((h.queued side t).mp hmem)
    refine .inr ⟨t, q, want, timed, hcons, hsite, hside, ?_⟩
    rw [signal, hwake]
    dsimp only
    rw [hsite]
    rfl

theorem Channel.Waiters.signal (h : s.Waiters)
    (hroom : (s.blocks side).wakeups < (s.blocks side).maxWakeups) : (s.signal side).Waiters := by
  have hsound := (h.sound side).wakeup hroom
  rcases Channel.signal_cases h hroom with ⟨hnil, hs⟩ | ⟨t, q, want, timed, hcons, hsite, hside, hs⟩
  · rw [hs]
    exact h.setBlock ⟨fun _ => hnil, (h.sound side).once⟩ rfl
  · have honce := (h.sound side).once
    rw [hcons, List.nodup_cons] at honce
    have hb : ({ s.blocks side with waitQueue := q } : BlockObject τ).Sound := by
      refine ⟨fun hpos => ?_, honce.2⟩
      have hempty := (h.sound side).handed hpos
      rw [hcons] at hempty
      cases hempty
    rw [hs]
    refine h.requeue hb (fun u hu => ?_) ?_ (fun side' hne => ?_) fun side' _ => ?_
    · rw [hcons, List.mem_cons, or_iff_right hu]
    · simpa using honce.1
    · rw [hsite]
      simpa [Site.queuedOn, hside] using hne.symm
    · simp

/-- No object has as many signals as it can keep. -/
def Channel.Room (s : Channel τ α) : Prop :=
  ∀ side, (s.blocks side).wakeups < (s.blocks side).maxWakeups

theorem Channel.Waiters.test {native : τ → Bool} (h : s.Waiters) {want : Wanted α} {timed : Bool}
    (hsite : s.site t = .waiting want timed .testing) :
    (s.test native t want timed).Waiters := by
  have hnone : (s.site t).queuedOn = none := by rw [hsite]; rfl
  unfold Channel.test
  split
  · rename_i b htry
    have hblock := h.take htry
    split
    · have hmove := hblock.move (t := t) (x := want.refused) hnone (by simp)
      exact ⟨hmove.sound, hmove.queued⟩
    · exact hblock.move hnone (by simp)
  · split
    · exact h
    · exact h.move hnone rfl

theorem Channel.Waiters.go {native : τ → Bool} (h : s.Waiters) (hroom : s.Room) {s' : Channel τ α}
    (hs : s.go native t = some s') : s'.Waiters := by
  unfold Channel.go at hs
  split at hs
  · cases hs
  · rename_i want timed hsite
    cases hs
    exact h.test hsite
  · rename_i want timed hsite
    have hnone : (s.site t).queuedOn = none := by rw [hsite]; rfl
    have hout : t ∉ (s.blocks want.side).waitQueue := by
      rw [h.queued, hnone]
      simp
    rcases (s.blocks want.side).addWaitTask_cases t with ⟨b, hadd, htry⟩ | ⟨hzero, hadd⟩
    · rw [hadd] at hs
      cases hs
      exact (h.take htry).move hnone (by simp)
    · have hsound := (h.sound want.side).addWaitTask hout
      rw [hadd] at hs hsound
      cases hs
      refine h.requeue hsound (fun u hu => ?_) ?_ (fun side' _ => ?_) fun side' hne => ?_
      · simp [hu]
      · simp [Site.queuedOn]
      · simp [hnone]
      · simpa [Site.queuedOn] using hne.symm
  · cases hs
  · rename_i v hsite
    have hnone : (s.site t).queuedOn = none := by rw [hsite]; rfl
    split at hs
    · rename_i b htry
      cases hs
      exact (h.take htry).move hnone rfl
    · cases hs
      exact h.move hnone rfl
  · rename_i v hsite
    cases hs
    have hmove := h.move (t := t) (x := .announcing) (by rw [hsite]; rfl) rfl
    exact ⟨hmove.sound, hmove.queued⟩
  · rename_i hsite
    cases hs
    exact (h.move (t := t) (x := .outside) (by rw [hsite]; rfl) rfl).signal (hroom .read)
  · rename_i kind hsite
    cases hs
    exact (h.move (t := t) (x := kind.afterPlace) (by rw [hsite]; rfl) (by simp)).signal
      (hroom .write)
  · rename_i hsite
    have hnone : (s.site t).queuedOn = none := by rw [hsite]; rfl
    split at hs
    · rename_i b htry
      cases hs
      exact (h.take htry).move hnone rfl
    · cases hs
      exact h.move hnone rfl
  · rename_i hsite
    have hnone : (s.site t).queuedOn = none := by rw [hsite]; rfl
    split at hs
    · rename_i b htry
      cases hs
      exact (h.take htry).move hnone rfl
    · cases hs
      exact h.move hnone rfl
  · rename_i hsite
    split at hs
    · cases hs
    · cases hs
      have hmove := h.move (t := t) (x := .outside) (by rw [hsite]; rfl) rfl
      exact ⟨hmove.sound, hmove.queued⟩

theorem Channel.Waiters.expire {native : τ → Bool} (h : s.Waiters) {s' : Channel τ α}
    (hs : s.expire native t = some s') : s'.Waiters := by
  unfold Channel.expire at hs
  split at hs
  · rename_i want hsite
    obtain ⟨b, hcancel, rfl⟩ := Option.map_eq_some_iff.mp hs
    obtain ⟨hsound, _, rfl⟩ := (h.sound want.side).cancelWait hcancel
    refine h.requeue hsound (fun u hu => ?_) ?_ (fun side' hne => ?_) fun side' _ => ?_
    · exact List.mem_erase_of_ne hu
    · simpa using List.Nodup.not_mem_erase (h.sound want.side).once
    · rw [hsite]
      simpa [Site.queuedOn] using hne.symm
    · simp
  · rename_i want hsite
    split at hs
    · cases hs
      exact h.move (by rw [hsite]; rfl) (by simp)
    · cases hs
  · cases hs

theorem Channel.Waiters.step {native : τ → Bool} (h : s.Waiters) (hroom : s.Room)
    {a : Action τ α} {s' : Channel τ α} (hs : s.step native a = some s') : s'.Waiters := by
  cases a with
  | call t op =>
    rw [Channel.step, Option.ite_none_right_eq_some, Option.some.injEq] at hs
    obtain ⟨hsite, rfl⟩ := hs
    refine h.move ?_ (by simp)
    cases hx : s.site t with
    | outside => rfl
    | _ => simp [hx] at hsite
  | go t => exact h.go hroom hs
  | expire t => exact h.expire hs

end Waiters

/-! ## The signals and the elements -/

/-- The signals of an object that a task at this place holds. -/
def Site.token : Side → Site α → Nat
  | .write, .storing _ => 1
  | .read, .taking => 1
  | _, _ => 0

/-- The elements stored by a task at this place and not signalled. -/
def Site.announces : Site α → Nat
  | .announcing => 1
  | _ => 0

/-- The places added by a reader that has taken neither an element nor its place back. -/
def Site.adds : Site α → Nat
  | .waiting .element _ _ | .retrying | .withdrawing | .taking => 1
  | _ => 0

section Balance

variable [Fintype τ] {s s' : Channel τ α} {t : τ}

/-- The places there are: free, given to a writer, filled or lost. -/
def Channel.places (s : Channel τ α) : Nat :=
  (s.blocks .write).wakeups + tally (Site.token .write) s.site + s.queue.length + s.lost .write

/-- The places that readers have added. -/
def Channel.added (s : Channel τ α) : Nat := tally Site.adds s.site

/-- The elements there are: signalled, given to a reader, not yet signalled or lost. -/
def Channel.elements (s : Channel τ α) : Nat :=
  (s.blocks .read).wakeups + tally (Site.token .read) s.site + tally Site.announces s.site +
    s.lost .read

/-- A change after which `p` places and `e` elements are still to be signalled. -/
structure Channel.Owing (p e : Nat) (s s' : Channel τ α) : Prop where
  places : s'.places + s.added + p = s.places + s'.added
  elements : s'.elements + s.queue.length + e = s.elements + s'.queue.length

/-- A task moves from one place to another, and the numbers change along with it. -/
theorem Channel.owing_of_move {p e : Nat} {x y : Site α} (hy : s.site t = y)
    (hx : s'.site = Function.update s.site t x)
    (hp : (s'.blocks .write).wakeups + x.token .write + s'.queue.length + s'.lost .write + y.adds +
      p = (s.blocks .write).wakeups + y.token .write + s.queue.length + s.lost .write + x.adds)
    (he : (s'.blocks .read).wakeups + x.token .read + x.announces + s'.lost .read +
      s.queue.length + e = (s.blocks .read).wakeups + y.token .read + y.announces +
        s.lost .read + s'.queue.length) : Owing p e s s' := by
  have hwrite := tally_update (Site.token .write) s.site t x
  have hread := tally_update (Site.token .read) s.site t x
  have hannounces := tally_update Site.announces s.site t x
  have hadds := tally_update Site.adds s.site t x
  rw [hy, ← hx] at hwrite hread hannounces hadds
  constructor
  · unfold places added
    omega
  · unfold elements
    omega

/-- A signal is counted wherever it goes. -/
theorem Channel.Waiters.signal_counts {side : Side} (h : s.Waiters)
    (hroom : (s.blocks side).wakeups < (s.blocks side).maxWakeups) :
    (s.signal side).queue = s.queue ∧ (s.signal side).added = s.added ∧
      (s.signal side).places = s.places + (if side = .write then 1 else 0) ∧
      (s.signal side).elements = s.elements + if side = .read then 1 else 0 := by
  rcases Channel.signal_cases h hroom with ⟨_, hs⟩ | ⟨u, q, want, timed, _, hsite, rfl, hs⟩
  · rw [hs]
    refine ⟨rfl, rfl, ?_, ?_⟩ <;> cases side <;>
      simp [Channel.places, Channel.elements, Channel.setBlock] <;> omega
  · have hwrite := tally_update (Site.token .write) s.site u want.granted
    have hread := tally_update (Site.token .read) s.site u want.granted
    have hannounces := tally_update Site.announces s.site u want.granted
    have hadds := tally_update Site.adds s.site u want.granted
    rw [hsite] at hwrite hread hannounces hadds
    rw [hs]
    cases want with
    | place v =>
      simp only [Wanted.granted, Site.token, Site.announces, Site.adds]
        at hwrite hread hannounces hadds
      refine ⟨rfl, hadds, ?_, ?_⟩ <;>
        simp [Channel.places, Channel.elements, Channel.move, Channel.setBlock, Wanted.side,
          Wanted.granted] <;> omega
    | element =>
      simp only [Wanted.granted, Site.token, Site.announces, Site.adds]
        at hwrite hread hannounces hadds
      refine ⟨rfl, ?_, ?_, ?_⟩ <;>
        simp [Channel.places, Channel.added, Channel.elements, Channel.move, Channel.setBlock,
          Wanted.side, Wanted.granted] <;> omega

/-- The signal of a place that was still to come. -/
theorem Channel.Owing.place (h : Owing 1 0 s s') (hw : s'.Waiters) (hroom : s'.Room) :
    Owing 0 0 s (s'.signal .write) := by
  obtain ⟨hqueue, hadded, hplaces, helements⟩ := hw.signal_counts (hroom .write)
  have hp := h.places
  have he := h.elements
  refine ⟨?_, ?_⟩
  · rw [hplaces, hadded, if_pos rfl]
    omega
  · rw [helements, hqueue, if_neg (by decide)]
    omega

/-- The signal of an element that was still to come. -/
theorem Channel.Owing.element (h : Owing 0 1 s s') (hw : s'.Waiters) (hroom : s'.Room) :
    Owing 0 0 s (s'.signal .read) := by
  obtain ⟨hqueue, hadded, hplaces, helements⟩ := hw.signal_counts (hroom .read)
  have hp := h.places
  have he := h.elements
  refine ⟨?_, ?_⟩
  · rw [hplaces, hadded, if_neg (by decide)]
    omega
  · rw [helements, hqueue, if_pos rfl]
    omega

omit [DecidableEq τ] in
theorem Channel.owing_refl (s : Channel τ α) : Owing 0 0 s s := ⟨rfl, by omega⟩

/-- A task takes a signal that is there. -/
theorem Channel.owing_granted {want : Wanted α} {timed : Bool} {phase : Phase} {b : BlockObject τ}
    (hsite : s.site t = .waiting want timed phase)
    (htry : (s.blocks want.side).tryBlockWait = some b) :
    Owing 0 0 s ((s.setBlock want.side b).move t want.granted) := by
  obtain ⟨hwakeups, _, _⟩ := BlockObject.tryBlockWait_eq_some htry
  refine owing_of_move hsite rfl ?_ ?_ <;> cases want <;>
    simp [move, setBlock, Wanted.side, Wanted.granted, Site.token, Site.announces, Site.adds]
      at hwakeups ⊢ <;> omega

/-- A wait returns `false` without a signal. -/
theorem Channel.owing_refused {want : Wanted α} {timed : Bool} {phase : Phase}
    (hsite : s.site t = .waiting want timed phase) {b : BlockObject τ}
    (hb : b.wakeups = (s.blocks want.side).wakeups) :
    Owing 0 0 s ((s.setBlock want.side b).move t want.refused) := by
  refine owing_of_move hsite rfl ?_ ?_ <;> cases want <;>
    simp [move, setBlock, Wanted.side, Wanted.refused, Site.token, Site.announces, Site.adds]
      at hb ⊢ <;> omega

theorem Channel.owing_test {native : τ → Bool} {want : Wanted α} {timed : Bool}
    (hsite : s.site t = .waiting want timed .testing) :
    Owing 0 0 s (s.test native t want timed) := by
  unfold test
  split
  · rename_i b htry
    split
    · obtain ⟨hwakeups, _, _⟩ := BlockObject.tryBlockWait_eq_some htry
      refine owing_of_move hsite rfl ?_ ?_ <;> cases want <;>
        simp [move, setBlock, Wanted.side, Wanted.refused, Site.token, Site.announces, Site.adds]
          at hwakeups ⊢ <;> omega
    · exact owing_granted hsite htry
  · split
    · exact owing_refl s
    · refine owing_of_move hsite rfl ?_ ?_ <;> cases want <;>
        simp [move, Site.token, Site.announces, Site.adds]

/-- Two places of one weight. -/
theorem Channel.owing_idle {x y : Site α} (hy : s.site t = y)
    (htoken : ∀ side, x.token side = y.token side) (hannounces : x.announces = y.announces)
    (hadds : x.adds = y.adds) : Owing 0 0 s (s.move t x) := by
  refine owing_of_move hy rfl ?_ ?_
  · simp [move, htoken, hadds]
  · simp [move, htoken, hannounces]

theorem Channel.Waiters.owing_go {native : τ → Bool} (h : s.Waiters) (hroom : s.Room)
    (hs : s.go native t = some s') : Owing 0 0 s s' := by
  unfold Channel.go at hs
  split at hs
  · cases hs
  · rename_i want timed hsite
    cases hs
    exact owing_test hsite
  · rename_i want timed hsite
    rcases (s.blocks want.side).addWaitTask_cases t with ⟨b, hadd, htry⟩ | ⟨hzero, hadd⟩
    · rw [hadd] at hs
      cases hs
      exact owing_granted hsite htry
    · rw [hadd] at hs
      cases hs
      refine owing_of_move hsite rfl ?_ ?_ <;> cases want <;>
        simp [Channel.move, Channel.setBlock, Wanted.side, Site.token, Site.announces, Site.adds]
  · cases hs
  · rename_i v hsite
    split at hs
    · rename_i b htry
      obtain ⟨hwakeups, _, _⟩ := BlockObject.tryBlockWait_eq_some htry
      cases hs
      refine owing_of_move hsite rfl ?_ ?_ <;>
        simp [Channel.move, Channel.setBlock, Site.token, Site.announces, Site.adds, hwakeups]
    · cases hs
      exact owing_idle hsite (fun side => by cases side <;> rfl) rfl rfl
  · rename_i v hsite
    cases hs
    refine owing_of_move hsite rfl ?_ ?_ <;>
      simp [Channel.move, Site.token, Site.announces, Site.adds] <;> omega
  · rename_i hsite
    cases hs
    have hwaiters := h.move (t := t) (x := .outside) (by rw [hsite]; rfl) rfl
    refine Owing.element (owing_of_move hsite rfl ?_ ?_) hwaiters hroom <;>
      simp [Channel.move, Site.token, Site.announces, Site.adds]
    omega
  · rename_i kind hsite
    cases hs
    have hwaiters := h.move (t := t) (x := kind.afterPlace) (by rw [hsite]; rfl) (by simp)
    refine Owing.place (owing_of_move hsite rfl ?_ ?_) hwaiters hroom <;> cases kind <;>
      simp [Channel.move, Kind.afterPlace, Site.token, Site.announces, Site.adds]
  · rename_i hsite
    split at hs
    · rename_i b htry
      obtain ⟨hwakeups, _, _⟩ := BlockObject.tryBlockWait_eq_some htry
      cases hs
      refine owing_of_move hsite rfl ?_ ?_ <;>
        simp [Channel.move, Channel.setBlock, Site.token, Site.announces, Site.adds, hwakeups]
    · cases hs
      exact owing_idle hsite (fun side => by cases side <;> rfl) rfl rfl
  · rename_i hsite
    split at hs
    · rename_i b htry
      obtain ⟨hwakeups, _, _⟩ := BlockObject.tryBlockWait_eq_some htry
      cases hs
      refine owing_of_move hsite rfl ?_ ?_ <;>
        simp [Channel.move, Channel.setBlock, Site.token, Site.announces, Site.adds, hwakeups]
      omega
    · cases hs
      exact owing_idle hsite (fun side => by cases side <;> rfl) rfl rfl
  · rename_i hsite
    split at hs
    · cases hs
    · rename_i v queue hqueue
      cases hs
      refine owing_of_move hsite rfl ?_ ?_ <;>
        simp [Channel.move, Site.token, Site.announces, Site.adds, hqueue] <;> omega

theorem Channel.owing_expire {native : τ → Bool} (hs : s.expire native t = some s') :
    Owing 0 0 s s' := by
  unfold expire at hs
  split at hs
  · rename_i want hsite
    obtain ⟨b, hcancel, rfl⟩ := Option.map_eq_some_iff.mp hs
    rw [BlockObject.cancelWait, Option.ite_none_right_eq_some, Option.some.injEq] at hcancel
    obtain ⟨_, rfl⟩ := hcancel
    exact owing_refused hsite rfl
  · rename_i want hsite
    split at hs
    · cases hs
      refine owing_idle hsite ?_ ?_ ?_
      · intro side
        cases want <;> cases side <;> rfl
      · cases want <;> rfl
      · cases want <;> rfl
    · cases hs
  · cases hs

theorem Channel.Waiters.owing_step {native : τ → Bool} (h : s.Waiters) (hroom : s.Room)
    {a : Action τ α} (hs : s.step native a = some s') : Owing 0 0 s s' := by
  cases a with
  | call t op =>
    rw [Channel.step, Option.ite_none_right_eq_some, Option.some.injEq] at hs
    obtain ⟨hsite, rfl⟩ := hs
    have houtside : s.site t = .outside := by
      cases hx : s.site t with
      | outside => rfl
      | _ => simp [hx] at hsite
    cases op with
    | push kind v =>
      cases kind <;> exact owing_idle houtside (fun side => by cases side <;> rfl) rfl rfl
    | pop kind => exact owing_idle houtside (fun side => by cases side <;> rfl) rfl rfl
  | go t => exact h.owing_go hroom hs
  | expire t => exact owing_expire hs

/-! ## What a channel delivers -/

omit [Fintype τ] in
/-- A signal leaves the elements alone. -/
theorem Channel.signal_frame (s : Channel τ α) (side : Side) :
    (s.signal side).queue = s.queue ∧ (s.signal side).stored = s.stored ∧
      (s.signal side).taken = s.taken ∧ (s.signal side).lost = s.lost := by
  unfold signal
  split <;> exact ⟨rfl, rfl, rfl, rfl⟩

omit [Fintype τ] in
/-- The elements in the queue are those stored and not taken, in their order. -/
theorem Channel.order_step {native : τ → Bool} {a : Action τ α} (h : s.stored = s.taken ++ s.queue)
    (hs : s.step native a = some s') : s'.stored = s'.taken ++ s'.queue := by
  cases a with
  | call t op =>
    rw [step, Option.ite_none_right_eq_some, Option.some.injEq] at hs
    obtain ⟨_, rfl⟩ := hs
    exact h
  | expire t =>
    unfold step expire at hs
    dsimp only at hs
    split at hs
    · obtain ⟨b, _, rfl⟩ := Option.map_eq_some_iff.mp hs
      exact h
    · split at hs
      · cases hs
        exact h
      · cases hs
    · cases hs
  | go t =>
    unfold step go at hs
    dsimp only at hs
    split at hs
    · cases hs
    · cases hs
      unfold test
      split
      · split <;> exact h
      · split <;> exact h
    · split at hs <;> (cases hs; exact h)
    · cases hs
    · split at hs <;> (cases hs; exact h)
    · cases hs
      change s.stored ++ _ = s.taken ++ (s.queue ++ _)
      rw [h, List.append_assoc]
    · cases hs
      obtain ⟨hqueue, hstored, htaken, _⟩ := (s.move t .outside).signal_frame .read
      rw [hqueue, hstored, htaken]
      exact h
    · rename_i kind _
      cases hs
      obtain ⟨hqueue, hstored, htaken, _⟩ := (s.move t kind.afterPlace).signal_frame .write
      rw [hqueue, hstored, htaken]
      exact h
    · split at hs <;> (cases hs; exact h)
    · split at hs <;> (cases hs; exact h)
    · split at hs
      · cases hs
      · rename_i v queue hqueue
        cases hs
        change s.stored = s.taken ++ [v] ++ queue
        rw [h, hqueue, List.append_assoc]
        rfl

omit [DecidableEq τ] [Fintype τ] in
theorem Channel.maxWakeups_setBlock (s : Channel τ α) {side : Side} {b : BlockObject τ}
    (hb : b.maxWakeups = (s.blocks side).maxWakeups) (side' : Side) :
    ((s.setBlock side b).blocks side').maxWakeups = (s.blocks side').maxWakeups := by
  by_cases hside : side' = side
  · subst hside
    simpa [setBlock] using hb
  · simp [setBlock, hside]

omit [DecidableEq τ] [Fintype τ] in
theorem Channel.maxWakeups_take {side : Side} {b : BlockObject τ}
    (htry : (s.blocks side).tryBlockWait = some b) (side' : Side) :
    ((s.setBlock side b).blocks side').maxWakeups = (s.blocks side').maxWakeups :=
  s.maxWakeups_setBlock (BlockObject.tryBlockWait_eq_some htry).2.2 side'

omit [Fintype τ] in
theorem Channel.maxWakeups_signal (s : Channel τ α) (side side' : Side) :
    ((s.signal side).blocks side').maxWakeups = (s.blocks side').maxWakeups := by
  have hwake := (s.blocks side).wakeup_maxWakeups
  unfold signal
  split <;> (rename_i h; rw [h] at hwake; exact s.maxWakeups_setBlock hwake side')

omit [Fintype τ] in
/-- How many signals an object may keep never changes. -/
theorem Channel.maxWakeups_step {native : τ → Bool} {a : Action τ α}
    (hs : s.step native a = some s') (side : Side) :
    (s'.blocks side).maxWakeups = (s.blocks side).maxWakeups := by
  cases a with
  | call t op =>
    rw [step, Option.ite_none_right_eq_some, Option.some.injEq] at hs
    obtain ⟨_, rfl⟩ := hs
    rfl
  | expire t =>
    unfold step expire at hs
    dsimp only at hs
    split at hs
    · rename_i want hsite
      obtain ⟨b, hcancel, rfl⟩ := Option.map_eq_some_iff.mp hs
      rw [BlockObject.cancelWait, Option.ite_none_right_eq_some, Option.some.injEq] at hcancel
      obtain ⟨_, rfl⟩ := hcancel
      exact s.maxWakeups_setBlock (by rfl) side
    · split at hs
      · cases hs
        rfl
      · cases hs
    · cases hs
  | go t =>
    unfold step go at hs
    dsimp only at hs
    split at hs
    · cases hs
    · rename_i want timed hsite
      cases hs
      unfold test
      split
      · rename_i b htry
        split <;> exact maxWakeups_take htry side
      · split <;> rfl
    · rename_i want timed hsite
      rcases (s.blocks want.side).addWaitTask_cases t with ⟨b, hadd, htry⟩ | ⟨_, hadd⟩
      · rw [hadd] at hs
        cases hs
        exact maxWakeups_take htry side
      · rw [hadd] at hs
        cases hs
        exact s.maxWakeups_setBlock (by rfl) side
    · cases hs
    · split at hs
      · rename_i b htry
        cases hs
        exact maxWakeups_take htry side
      · cases hs
        rfl
    · cases hs
      rfl
    · cases hs
      exact (s.move t .outside).maxWakeups_signal .read side
    · rename_i kind _
      cases hs
      exact (s.move t kind.afterPlace).maxWakeups_signal .write side
    · split at hs
      · rename_i b htry
        cases hs
        exact maxWakeups_take htry side
      · cases hs
        rfl
    · split at hs
      · rename_i b htry
        cases hs
        exact maxWakeups_take htry side
      · cases hs
        rfl
    · split at hs
      · cases hs
      · cases hs
        rfl

/-- What every state of a channel satisfies. -/
structure Channel.Inv (capacity : Nat) (s : Channel τ α) : Prop where
  waiters : s.Waiters
  places : s.places = capacity + s.added
  elements : s.elements = s.queue.length
  order : s.stored = s.taken ++ s.queue
  bound : ∀ side, (s.blocks side).maxWakeups = 2 ^ 64 - 1

omit [DecidableEq τ] in
theorem Channel.inv_new (capacity : Nat) : (new capacity : Channel τ α).Inv capacity where
  waiters := by
    refine ⟨fun side => ?_, fun side t => ?_⟩
    · cases side <;> exact BlockObject.sound_new ..
    · cases side <;> simp [new, BlockObject.new, Site.queuedOn]
  places := by
    have hadds : tally Site.adds (new capacity : Channel τ α).site = 0 := tally_eq_zero fun _ => rfl
    have htoken : tally (Site.token .write) (new capacity : Channel τ α).site = 0 :=
      tally_eq_zero fun _ => rfl
    simp only [Channel.places, added, hadds, htoken]
    simp [new, BlockObject.new]
  elements := by
    have hannounces : tally Site.announces (new capacity : Channel τ α).site = 0 :=
      tally_eq_zero fun _ => rfl
    have htoken : tally (Site.token .read) (new capacity : Channel τ α).site = 0 :=
      tally_eq_zero fun _ => rfl
    simp only [Channel.elements, hannounces, htoken]
    simp [new, BlockObject.new]
  order := rfl
  bound := by
    intro side
    cases side <;> rfl

omit [DecidableEq τ] in
/-- Each free place is one of the channel's own or of a reader, and each signal of an element has
an element, so the counters stay below their bound. -/
theorem Channel.Inv.room {capacity : Nat} (h : s.Inv capacity)
    (hsize : capacity + Fintype.card τ < 2 ^ 64 - 1) : s.Room := by
  have hadded : s.added ≤ Fintype.card τ := by
    refine tally_le_card fun site => ?_
    unfold Site.adds
    split <;> decide
  have hplaces := h.places
  have helements := h.elements
  unfold Channel.places at hplaces
  unfold Channel.elements at helements
  intro side
  rw [h.bound]
  cases side <;> omega

theorem Channel.inv_of_run {native : τ → Bool} {capacity : Nat} {as : List (Action τ α)}
    (hsize : capacity + Fintype.card τ < 2 ^ 64 - 1)
    (h : Run (step native) (fun _ _ => True) (new capacity) as s) : s.Inv capacity := by
  refine h.invariant (inv_new capacity) fun s a s' hs _ hstep => ?_
  have hroom := hs.room hsize
  obtain ⟨hplaces, helements⟩ := hs.waiters.owing_step hroom hstep
  have hp := hs.places
  have he := hs.elements
  refine ⟨hs.waiters.step hroom hstep, by omega, by omega, order_step hs.order hstep,
    fun side => ?_⟩
  rw [maxWakeups_step hstep, hs.bound]

/-- Under every interleaving of writers and readers of all kinds: the elements taken are the first
ones stored, each once and in their order; no reader takes from an empty queue; and the places,
those of readers included, are all accounted for, the ones lost by timed waits of plain threads
being gone for good. -/
theorem channel_delivers {native : τ → Bool} {capacity : Nat} {as : List (Action τ α)}
    (hsize : capacity + Fintype.card τ < 2 ^ 64 - 1)
    (h : Run (Channel.step native) (fun _ _ => True) (.new capacity) as s) :
    s.stored = s.taken ++ s.queue ∧ (∀ t, s.site t = .taking → s.queue ≠ []) ∧
      (s.blocks .write).wakeups + tally (Site.token .write) s.site + s.queue.length +
        s.lost .write = capacity + tally Site.adds s.site := by
  have hs := Channel.inv_of_run hsize h
  refine ⟨hs.order, fun t ht hnil => ?_, hs.places⟩
  have helements := hs.elements
  have htoken := le_tally (Site.token .read) s.site t
  rw [ht] at htoken
  rw [hnil, List.length_nil] at helements
  unfold Channel.elements at helements
  simp only [Site.token] at htoken
  omega

/-- The guarantee applied to a channel without capacity, whose writer waits for its reader. -/
theorem channel_delivers_handoff :
    ∃ s : Channel Bool Nat, s.taken = [7] ∧ s.lost .write = 0 ∧ s.stored = s.taken ++ s.queue ∧
      (∀ t, s.site t = .taking → s.queue ≠ []) ∧
      (s.blocks .write).wakeups + tally (Site.token .write) s.site + s.queue.length +
        s.lost .write = 0 + tally Site.adds s.site := by
  have hrun : ∃ s : Channel Bool Nat, s.taken = [7] ∧ s.lost .write = 0 ∧
      Run (Channel.step fun _ => false) (fun _ _ => True) (.new 0)
        [.call false (.push .plain 7), .go false, .go false, .call true (.pop .timed), .go true,
          .go false, .go true, .go true, .go false, .go true] s := by
    have hruns : (runFrom (Channel.step fun _ => false) [.call false (.push .plain 7), .go false,
        .go false, .call true (.pop .timed), .go true, .go false, .go true, .go true, .go false,
        .go true] (.new 0 : Channel Bool Nat)).isSome := rfl
    obtain ⟨s, hs⟩ := Option.isSome_iff_exists.mp hruns
    refine ⟨s, ?_, ?_, .of_runFrom hs fun _ _ _ _ _ _ => trivial⟩ <;> (cases hs; rfl)
  obtain ⟨s, htaken, hlost, hrun⟩ := hrun
  exact ⟨s, htaken, hlost, channel_delivers (by decide) hrun⟩

omit [Fintype τ] in
/-- A timed wait of a coroutine loses no signal. -/
theorem Channel.lost_eq_zero {capacity : Nat} {as : List (Action τ α)}
    (h : Run (step fun _ => false) (fun _ _ => True) (new capacity) as s) :
    ∀ side, s.lost side = 0 := by
  refine h.invariant (P := fun s => ∀ side, s.lost side = 0) (fun _ => rfl) ?_
  intro s a s' hs _ hstep
  cases a with
  | call t op =>
    rw [step, Option.ite_none_right_eq_some, Option.some.injEq] at hstep
    obtain ⟨_, rfl⟩ := hstep
    exact hs
  | expire t =>
    unfold step expire at hstep
    dsimp only at hstep
    split at hstep
    · obtain ⟨b, _, rfl⟩ := Option.map_eq_some_iff.mp hstep
      exact hs
    · cases hstep
    · cases hstep
  | go t =>
    unfold step go at hstep
    dsimp only at hstep
    split at hstep
    · cases hstep
    · cases hstep
      unfold test
      split <;> exact hs
    · split at hstep <;> (cases hstep; exact hs)
    · cases hstep
    · split at hstep <;> (cases hstep; exact hs)
    · cases hstep
      exact hs
    · cases hstep
      rw [((s.move t .outside).signal_frame .read).2.2.2]
      exact hs
    · cases hstep
      rw [(Channel.signal_frame _ .write).2.2.2]
      exact hs
    · split at hstep <;> (cases hstep; exact hs)
    · split at hstep <;> (cases hstep; exact hs)
    · split at hstep
      · cases hstep
      · cases hstep
        exact hs

/-- Nobody is inside an operation except in a queue. -/
def Channel.Quiescent (s : Channel τ α) : Prop :=
  ∀ t, s.site t = .outside ∨ ∃ want timed, s.site t = .waiting want timed .queued

/-- Where coroutines alone use a channel and all of them have come to rest, a reader is left
waiting only if the channel is empty and no writer waits, and a writer only if the channel is full
and no reader waits: no wake-up has been lost. -/
theorem channel_no_lost_wakeup {capacity : Nat} {as : List (Action τ α)}
    (hsize : capacity + Fintype.card τ < 2 ^ 64 - 1)
    (h : Run (Channel.step fun _ => false) (fun _ _ => True) (.new capacity) as s)
    (hrest : s.Quiescent) :
    (∀ t timed, s.site t = .waiting .element timed .queued → s.queue = [] ∧
      ∀ u v timed', s.site u ≠ .waiting (.place v) timed' .queued) ∧
    ∀ t v timed, s.site t = .waiting (.place v) timed .queued → s.queue.length = capacity ∧
      ∀ u timed', s.site u ≠ .waiting .element timed' .queued := by
  have hs := Channel.inv_of_run hsize h
  have hlost := Channel.lost_eq_zero h
  have hplaces := hs.places
  have helements := hs.elements
  have hidle : tally (Site.token .write) s.site = 0 ∧ tally (Site.token .read) s.site = 0 ∧
      tally Site.announces s.site = 0 := by
    refine ⟨tally_eq_zero fun t => ?_, tally_eq_zero fun t => ?_, tally_eq_zero fun t => ?_⟩ <;>
      rcases hrest t with ht | ⟨want, timed, ht⟩ <;> rw [ht] <;> rfl
  obtain ⟨htokenWrite, htokenRead, hannounces⟩ := hidle
  simp only [Channel.places, Channel.added, Channel.elements, htokenWrite, htokenRead, hannounces,
    hlost] at hplaces helements
  have hreader {t : τ} {timed : Bool} (ht : s.site t = .waiting .element timed .queued) :
      (s.blocks .read).wakeups = 0 ∧ 1 ≤ tally Site.adds s.site := by
    have hmem := (hs.waiters.queued .read t).mpr (by rw [ht]; rfl)
    have hadds := le_tally Site.adds s.site t
    rw [ht] at hadds
    refine ⟨?_, hadds⟩
    by_contra hpos
    rw [(hs.waiters.sound .read).handed (Nat.pos_of_ne_zero hpos)] at hmem
    cases hmem
  have hwriter {t : τ} {v : α} {timed : Bool} (ht : s.site t = .waiting (.place v) timed .queued) :
      (s.blocks .write).wakeups = 0 := by
    have hmem := (hs.waiters.queued .write t).mpr (by rw [ht]; rfl)
    by_contra hpos
    rw [(hs.waiters.sound .write).handed (Nat.pos_of_ne_zero hpos)] at hmem
    cases hmem
  have hapart {t u : τ} {v : α} {timed timed' : Bool}
      (ht : s.site t = .waiting .element timed .queued)
      (hu : s.site u = .waiting (.place v) timed' .queued) : False := by
    have := hreader ht
    have := hwriter hu
    omega
  refine ⟨fun t timed ht => ⟨?_, fun u v timed' hu => hapart ht hu⟩,
    fun t v timed ht => ⟨?_, fun u timed' hu => hapart hu ht⟩⟩
  · have := hreader ht
    exact List.eq_nil_of_length_eq_zero (by omega)
  · have hadds : tally Site.adds s.site = 0 := by
      refine tally_eq_zero fun u => ?_
      rcases hrest u with hu | ⟨want, timed', hu⟩
      · rw [hu]
        rfl
      · cases want with
        | place v' =>
          rw [hu]
          rfl
        | element => exact (hapart hu ht).elim
    have := hwriter ht
    omega

/-- The guarantee applied to two readers that wait on an empty channel. -/
theorem channel_no_lost_wakeup_readers :
    ∃ s : Channel Bool Nat, (∀ t, ∃ timed, s.site t = .waiting .element timed .queued) ∧
      (∀ t timed, s.site t = .waiting .element timed .queued → s.queue = [] ∧
        ∀ u v timed', s.site u ≠ .waiting (.place v) timed' .queued) ∧
      ∀ t v timed, s.site t = .waiting (.place v) timed .queued → s.queue.length = 1 ∧
        ∀ u timed', s.site u ≠ .waiting .element timed' .queued := by
  have hrun : ∃ s : Channel Bool Nat,
      (∀ t, s.site t = .waiting .element t .queued) ∧
        Run (Channel.step fun _ => false) (fun _ _ => True) (.new 1)
          [.call false (.pop .plain), .go false, .go false, .go false,
            .call true (.pop .timed), .go true, .go true, .go true] s := by
    refine ⟨_, ?_, .of_runFrom rfl fun _ _ _ _ _ _ => trivial⟩
    intro t
    cases t <;> rfl
  obtain ⟨s, hsite, hrun⟩ := hrun
  exact ⟨s, fun t => ⟨t, hsite t⟩,
    channel_no_lost_wakeup (by decide) hrun fun t => .inr ⟨_, _, hsite t⟩⟩

end Balance

end AsioCoroFrame.Libgo
