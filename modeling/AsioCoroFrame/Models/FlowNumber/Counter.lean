import AsioCoroFrame.Core.Run
import AsioCoroFrame.Models.FlowNumber.Handler
import Mathlib.Data.List.Chain
import Mathlib.Data.List.TakeWhile
import Mathlib.Logic.Function.Basic

/-!
# Concurrent requests on one Redis counter

Any number of handlers run for the same company and type. Redis executes each
single command atomically on one integer counter, so a run is an arbitrary
order of the handlers' commands. The log keeps every executed command with the
counter right after it; it is bookkeeping of the run, not state of the program.
-/

namespace AsioCoroFrame.FlowNumber

open Cluster

/-- The two commands issued on the counter's key. -/
inductive CounterOp where
  | incr
  | get
  deriving DecidableEq, Repr

/-- The command denoted by a format, for the counter stored under `key`. -/
def opOf (key format : Bytes) : Option CounterOp :=
  if format = ascii "incr " ++ key then some .incr
  else if format = ascii "get " ++ key then some .get
  else none

/-- Redis executes one command on the counter, a 64-bit signed integer. -/
def redisExec : CounterOp → Int → RedisReply × Int
  | .incr, c =>
    if c < 2 ^ 63 - 1 then (.integer (c + 1), c + 1)
    else (.error (ascii "ERR increment or decrement would overflow"), c)
  | .get, c => (.string (intText c), c)

/-- One executed command, with the counter right after it. -/
structure Entry (ι : Type) where
  /-- The request that issued the command. -/
  request : ι
  op : CounterOp
  counter : Int
  deriving DecidableEq, Repr

/-- The shared counter and the handlers in flight. -/
structure System (ι : Type) where
  counter : Int
  thread : ι → Script Outcome
  log : List (Entry ι)

variable {ι : Type} [DecidableEq ι]

/-- Every request starts its handler on its own path. -/
def initial (start : Int) (path : ι → Bytes) : System ι :=
  ⟨start, fun i => flowNumber (path i), []⟩

/-- Request `i` has its next command executed and resumes with the reply. -/
def step (key : Bytes) (s : System ι) (i : ι) : Option (System ι) :=
  match s.thread i with
  | .done _ => none
  | .call q k => (opOf key q.format).map fun op =>
    let r := redisExec op s.counter
    ⟨r.2, Function.update s.thread i (k (.ok (some r.1))), s.log ++ [⟨i, op, r.2⟩]⟩

/-- The command is answered successfully: an increment does not overflow. -/
def Succeeds (key : Bytes) (s : System ι) (i : ι) : Prop :=
  ∀ q k, s.thread i = .call q k → opOf key q.format = some .incr → s.counter < 2 ^ 63 - 1

/-- The commands of a schedule: the first turn of a request increments, the next one reads. -/
def opsFrom (seen : List ι) : List ι → List CounterOp
  | [] => []
  | i :: is => (if i ∈ seen then .get else .incr) :: opsFrom (i :: seen) is

theorem opsFrom_snoc (seen is : List ι) (i : ι) :
    opsFrom seen (is ++ [i]) =
      opsFrom seen is ++ [if i ∈ seen ∨ i ∈ is then .get else .incr] := by
  induction is generalizing seen with
  | nil => simp [opsFrom]
  | cons j is ih =>
    have hmem : (i ∈ j :: seen ∨ i ∈ is) ↔ (i ∈ seen ∨ i ∈ j :: is) := by
      simp only [List.mem_cons]
      tauto
    simp only [List.cons_append, opsFrom, ih, hmem]

/-! ## The commands of one key -/

theorem opOf_incr (id : Bytes) :
    opOf (cString id) (cString (ascii "incr " ++ id)) = some .incr := by
  simp [opOf, cString_append id (show (0 : Byte) ∉ ascii "incr " by decide)]

theorem opOf_get (id : Bytes) : opOf (cString id) (cString (ascii "get " ++ id)) = some .get := by
  rw [cString_append id (show (0 : Byte) ∉ ascii "get " by decide)]
  have hne : ascii "get " ++ cString id ≠ ascii "incr " ++ cString id := by
    intro h
    have hget : ascii "get " = [103, 101, 116, 32] := by decide
    have hincr : ascii "incr " = [105, 110, 99, 114, 32] := by decide
    exact absurd (congrArg List.head? h) (by simp [hget, hincr])
  simp [opOf, hne]

/-- Integers are printed without NUL bytes, so `reply->str` is read to its end. -/
theorem cString_intText (c : Int) : cString (intText c) = intText c := by
  have hz (n : Nat) : (0 : Byte) ∉ decimal n := not_mem_decimal n (by decide)
  have hall : (0 : Byte) ∉ intText c := by
    cases c with
    | ofNat n => exact hz n
    | negSucc n => simpa [intText] using hz (n + 1)
  simpa [cString] using cString_append [] hall

/-! ## The invariant of a run -/

/-- Where a request stands, read off its own executed commands. -/
inductive Phase (id : Bytes) : List (Entry ι) → Script Outcome → Prop
  | fresh : Phase id [] (allocate id)
  | incremented {a} : a.op = .incr → Phase id [a] (readBack id)
  | finished {a b} : a.op = .incr → b.op = .get →
      Phase id [a, b] (.done (.value (intText b.counter)))

/-- The counter never falls, and rises at each increment. -/
def Before (e f : Entry ι) : Prop := e.counter ≤ f.counter ∧ (f.op = .incr → e.counter < f.counter)

/-- The own commands of one request, in order. -/
def System.own (s : System ι) (i : ι) : List (Entry ι) := s.log.filter (·.request = i)

/-- What every reachable state satisfies. -/
structure Inv (id : Bytes) (start : Int) (s : System ι) : Prop where
  counter_eq : s.counter = start + s.log.countP (·.op = .incr)
  bounded : ∀ e ∈ s.log, e.counter ≤ s.counter
  ordered : s.log.Pairwise Before
  last_eq : ∀ e ∈ s.log.getLast?, e.counter = s.counter
  repeated : s.log.IsChain fun e f => f.op = .get → f.counter = e.counter
  phase : ∀ i, Phase id (s.own i) (s.thread i)
  ops_eq : s.log.map (·.op) = opsFrom [] (s.log.map (·.request))

/-- The state after an increment by request `i`. -/
def System.afterIncr (s : System ι) (id : Bytes) (i : ι) : System ι :=
  ⟨s.counter + 1, Function.update s.thread i (readBack id), s.log ++ [⟨i, .incr, s.counter + 1⟩]⟩

/-- The state after a read by request `i`. -/
def System.afterGet (s : System ι) (i : ι) : System ι :=
  ⟨s.counter, Function.update s.thread i (.done (.value (intText s.counter))),
    s.log ++ [⟨i, .get, s.counter⟩]⟩

/-- A successful step is the increment of a fresh request or the read of an incremented one. -/
theorem step_cases {id : Bytes} {s s' : System ι} {i : ι}
    (hp : Phase id (s.own i) (s.thread i)) (hok : Succeeds (cString id) s i)
    (h : step (cString id) s i = some s') :
    (s.own i = [] ∧ s' = s.afterIncr id i) ∨
      (∃ a, s.own i = [a] ∧ a.op = .incr ∧ s' = s.afterGet i) := by
  generalize hown : s.own i = own at hp
  generalize ht : s.thread i = t at hp
  cases hp with
  | fresh =>
    have hc := hok _ _ ht (opOf_incr id)
    simp only [step, ht, allocate, opOf_incr, Option.map_some, redisExec, hc, ite_true,
      Option.some.injEq] at h
    exact .inl ⟨rfl, h.symm⟩
  | incremented ha =>
    simp only [step, ht, readBack, opOf_get, Option.map_some, redisExec, finish, RedisReply.str,
      cString_intText, Option.some.injEq] at h
    exact .inr ⟨_, rfl, ha, h.symm⟩
  | finished => simp [step, ht] at h

/-- Only the moving request's own commands grow. -/
theorem own_snoc {s s' : System ι} {e : Entry ι} (h : s'.log = s.log ++ [e]) (i : ι) :
    s'.own i = s.own i ++ (if e.request = i then [e] else []) := by
  simp only [System.own, h, List.filter_append, List.filter_cons, List.filter_nil,
    decide_eq_true_eq]

theorem mem_requests_iff (s : System ι) (i : ι) :
    i ∈ s.log.map (·.request) ↔ s.own i ≠ [] := by
  simp [System.own, List.filter_eq_nil_iff]

/-- A log extended by one command whose counter is the new one. -/
theorem Inv.snoc {id : Bytes} {start : Int} {s s' : System ι} (h : Inv id start s) {e : Entry ι}
    (hlog : s'.log = s.log ++ [e]) (hc : e.counter = s'.counter)
    (hincr : e.op = .incr → s'.counter = s.counter + 1 ∧ s.own e.request = [])
    (hget : e.op = .get → s'.counter = s.counter ∧ s.own e.request ≠ [])
    (hphase : ∀ i, Phase id (s'.own i) (s'.thread i)) : Inv id start s' := by
  have hle : s.counter ≤ s'.counter := by
    cases hop : e.op with
    | incr => have := (hincr hop).1; omega
    | get => exact (hget hop).1.ge
  refine ⟨?_, ?_, ?_, ?_, ?_, hphase, ?_⟩
  · have := h.counter_eq
    cases hop : e.op with
    | incr => simp [hlog, hop, (hincr hop).1, this]; omega
    | get => simp [hlog, hop, (hget hop).1, this]
  · intro f hf
    rw [hlog, List.mem_append, List.mem_singleton] at hf
    rcases hf with hf | rfl
    · exact (h.bounded f hf).trans hle
    · exact hc.le
  · rw [hlog, List.pairwise_append]
    refine ⟨h.ordered, List.pairwise_singleton _ _, ?_⟩
    intro f hf g hg
    rw [List.mem_singleton] at hg
    subst hg
    have hb := h.bounded f hf
    refine ⟨by omega, fun hop => ?_⟩
    have := (hincr hop).1
    omega
  · intro f hf
    simp only [hlog, List.getLast?_append, List.getLast?_singleton, Option.some_or,
      Option.mem_def, Option.some.injEq] at hf
    exact hf ▸ hc
  · rw [hlog]
    refine h.repeated.append (List.isChain_singleton _) ?_
    intro f hf g hg hop
    simp only [List.head?_cons, Option.mem_def, Option.some.injEq] at hg
    subst hg
    rw [hc, (hget hop).1, h.last_eq f hf]
  · rw [hlog, List.map_append, List.map_append, List.map_singleton, List.map_singleton,
      opsFrom_snoc, h.ops_eq]
    have hmem := mem_requests_iff s e.request
    cases hop : e.op with
    | incr => simp [hmem, (hincr hop).2]
    | get => simp [hmem, (hget hop).2]

/-- Every successful step keeps the invariant. -/
theorem Inv.step {id : Bytes} {start : Int} {s s' : System ι} {i : ι} (h : Inv id start s)
    (hok : Succeeds (cString id) s i) (hs : step (cString id) s i = some s') :
    Inv id start s' := by
  rcases step_cases (h.phase i) hok hs with ⟨hown, rfl⟩ | ⟨a, hown, ha, rfl⟩
  · refine h.snoc rfl rfl (fun _ => ⟨rfl, hown⟩) (by simp) fun j => ?_
    rw [own_snoc (s := s) rfl]
    by_cases hj : i = j
    · subst j
      simpa [System.afterIncr, hown] using Phase.incremented rfl
    · simpa [System.afterIncr, hj, Ne.symm hj] using h.phase j
  · refine h.snoc rfl rfl (by simp) (fun _ => ⟨rfl, by simp [hown]⟩) fun j => ?_
    rw [own_snoc (s := s) rfl]
    by_cases hj : i = j
    · subst j
      simpa [System.afterGet, hown] using Phase.finished (b := ⟨i, .get, s.counter⟩) ha rfl
    · simpa [System.afterGet, hj, Ne.symm hj] using h.phase j

end AsioCoroFrame.FlowNumber
