import AsioCoroFrame.Core.Lists
import AsioCoroFrame.Models.FlowNumber.Counter

/-!
# Which flow numbers a run hands out

A request returns the counter as it stands at its read, not the number its own
increment produced. Reads therefore respect real time, but two reads with no
increment between them return the same number.
-/

namespace AsioCoroFrame.FlowNumber

open Cluster

variable {ι : Type} [DecidableEq ι] {company type : Bytes} {path : ι → Bytes} {start : Int}
  {is : List ι} {s : System ι}

/-- All requests name the same company and type, whatever follows in their paths. -/
def SameCounter (company type : Bytes) (path : ι → Bytes) : Prop :=
  ∀ i, ∃ rest, segments (path i) = .ok (company :: type :: rest)

/-- The runs of any number of requests for one company and type, every reply a success. -/
def FlowRun (company type : Bytes) (path : ι → Bytes) (start : Int) (is : List ι)
    (s : System ι) : Prop :=
  Run (step (cString (idName company type))) (Succeeds (cString (idName company type)))
    (initial start path) is s

/-- In the order in which Redis executes the commands, no read directly follows a read. -/
def NoConsecutiveReads (is : List ι) : Prop :=
  (opsFrom [] is).IsChain fun a b => ¬ (a = .get ∧ b = .get)

theorem inv_initial (hpath : SameCounter company type path) :
    Inv (idName company type) start (initial start path) := by
  refine ⟨by simp [initial], by simp [initial], by simp [initial], by simp [initial],
    by simp [initial], fun i => ?_, rfl⟩
  obtain ⟨rest, hrest⟩ := hpath i
  simpa [initial, flowNumber, hrest, System.own] using Phase.fresh

/-- Every run keeps the invariant of the counter. -/
theorem FlowRun.inv (hpath : SameCounter company type path)
    (h : FlowRun company type path start is s) : Inv (idName company type) start s :=
  Run.invariant (inv_initial hpath) (fun _ _ _ hi hok hs => hi.step hok hs) h

/-- The log lists exactly the scheduled requests. -/
theorem FlowRun.requests_eq (h : FlowRun company type path start is s) :
    s.log.map (·.request) = is := by
  induction h with
  | nil => rfl
  | @snoc is s i s' _ _ hs ih =>
    simp only [step] at hs
    split at hs
    · cases hs
    · obtain ⟨op, _, rfl⟩ := Option.map_eq_some_iff.mp hs
      simp [ih]

/-- A returned value is the counter at the request's own read. -/
theorem Inv.returned {id : Bytes} (h : Inv id start s) {i : ι} {v : Bytes}
    (hv : s.thread i = .done (.value v)) :
    ∃ a b, s.own i = [a, b] ∧ a.op = .incr ∧ b.op = .get ∧ v = intText b.counter := by
  have hp := h.phase i
  generalize hown : s.own i = own at hp
  rw [hv] at hp
  cases hp with
  | finished ha hb => exact ⟨_, _, rfl, ha, hb, rfl⟩

/-- A request that has read has returned the counter of that read. -/
theorem Inv.thread_of_get {id : Bytes} (h : Inv id start s) {e : Entry ι} (he : e ∈ s.log)
    (hop : e.op = .get) : s.thread e.request = .done (.value (intText e.counter)) := by
  have hmem : e ∈ s.own e.request := by simp [System.own, he]
  have hp := h.phase e.request
  generalize s.own e.request = own at hp hmem
  generalize s.thread e.request = t at hp
  cases hp with
  | fresh => cases hmem
  | incremented ha =>
    rw [List.mem_singleton] at hmem
    simp [← hmem, hop] at ha
  | @finished a b ha hb =>
    rcases List.mem_pair.mp hmem with rfl | rfl
    · simp [hop] at ha
    · rfl

/-- A request reads at most once. -/
theorem Inv.get_request_ne {id : Bytes} (h : Inv id start s) {e f : Entry ι}
    (hef : [e, f].Sublist s.log) (he : e.op = .get) : e.request ≠ f.request := by
  intro hreq
  have hsub : [e, f].Sublist (s.own f.request) := by
    simpa [System.own, hreq] using hef.filter (fun g => decide (g.request = f.request))
  have hp := h.phase f.request
  generalize s.own f.request = own at hp hsub
  generalize s.thread f.request = t at hp
  cases hp with
  | fresh => cases hsub
  | incremented ha => simpa using hsub.length_le
  | finished ha hb =>
    have heq := hsub.eq_of_length (by simp)
    simp only [List.cons.injEq] at heq
    rw [← heq.1, he] at ha
    cases ha

/-- Along the log the counter never falls. -/
theorem Inv.before {id : Bytes} (h : Inv id start s) {pre mid post : List (Entry ι)}
    {e f : Entry ι} (hlog : s.log = pre ++ e :: (mid ++ f :: post)) : Before e f := by
  have ho := h.ordered
  rw [hlog, List.pairwise_append, List.pairwise_cons] at ho
  exact ho.2.1.1 f (by simp)

/-- A request's own two commands keep the order of the log. -/
theorem Inv.own_before {id : Bytes} (h : Inv id start s) {i : ι} {a b : Entry ι}
    (hown : s.own i = [a, b]) : Before a b := by
  have ho := h.ordered.filter (fun e => decide (e.request = i))
  change (s.own i).Pairwise Before at ho
  rw [hown] at ho
  exact List.pairwise_pair.mp ho

/-- The condition on the schedule is a condition on the commands it executes. -/
theorem Inv.noConsecutiveReads_iff {id : Bytes} (h : Inv id start s)
    (hreq : s.log.map (·.request) = is) :
    NoConsecutiveReads is ↔ s.log.IsChain fun e f => ¬ (e.op = .get ∧ f.op = .get) := by
  rw [NoConsecutiveReads, ← hreq, ← h.ops_eq, List.isChain_map]

/-- Without consecutive reads, a later read returns a greater number: the command right
before it is an increment executed after the earlier read. -/
theorem Inv.get_counter_lt {id : Bytes} (h : Inv id start s)
    (hc : s.log.IsChain fun e f => ¬ (e.op = .get ∧ f.op = .get))
    {pre mid post : List (Entry ι)} {e f : Entry ι}
    (hlog : s.log = pre ++ e :: (mid ++ f :: post)) (he : e.op = .get) (hf : f.op = .get) :
    e.counter < f.counter := by
  rcases List.eq_nil_or_concat mid with rfl | ⟨mid, x, rfl⟩
  · have hpair : [e, f] <:+: s.log := ⟨pre, post, by simp [hlog]⟩
    exact absurd ⟨he, hf⟩ (isChain_neighbours hc hpair)
  · rw [List.concat_eq_append] at hlog
    have hpair : [x, f] <:+: s.log := ⟨pre ++ e :: mid, post, by simp [hlog]⟩
    have hx : x.op = .incr := by
      cases hop : x.op with
      | incr => rfl
      | get => exact absurd ⟨hop, hf⟩ (isChain_neighbours hc hpair)
    have hex : s.log = pre ++ e :: (mid ++ x :: (f :: post)) := by simp [hlog]
    have hxf : s.log = (pre ++ e :: mid) ++ x :: ([] ++ f :: post) := by simp [hlog]
    exact ((h.before hex).2 hx).trans_le (h.before hxf).1

/-- The returned flow numbers are pairwise different exactly when no read directly follows
a read in the order in which Redis executes the commands. -/
theorem flowNo_distinct_iff (hpath : SameCounter company type path)
    (hrun : FlowRun company type path start is s) :
    (∀ i j v w, i ≠ j → s.thread i = .done (.value v) → s.thread j = .done (.value w) → v ≠ w) ↔
      NoConsecutiveReads is := by
  have hinv := hrun.inv hpath
  rw [hinv.noConsecutiveReads_iff hrun.requests_eq]
  constructor
  · intro hd
    refine (List.isChain_isInfix s.log).imp fun e f hinf => ?_
    rintro ⟨he, hf⟩
    have heq : f.counter = e.counter := isChain_neighbours hinv.repeated hinf hf
    have hne := hinv.get_request_ne hinf.sublist he
    have hve := hinv.thread_of_get (hinf.subset (by simp)) he
    have hvf := hinv.thread_of_get (hinf.subset (by simp)) hf
    exact hd _ _ _ _ hne hve hvf (by rw [heq])
  · intro hc i j v w hij hi hj hvw
    obtain ⟨a, b, hown, _, hb, rfl⟩ := hinv.returned hi
    obtain ⟨a', b', hown', _, hb', rfl⟩ := hinv.returned hj
    have hmem : b ∈ s.log ∧ b.request = i := by
      simpa [System.own] using (show b ∈ s.own i by simp [hown])
    have hmem' : b' ∈ s.log ∧ b'.request = j := by
      simpa [System.own] using (show b' ∈ s.own j by simp [hown'])
    have hne : b ≠ b' := by
      rintro rfl
      exact hij (hmem.2.symm.trans hmem'.2)
    have heq := intText_injective hvw
    obtain ⟨pre, mid, post, hlog | hlog⟩ := exists_split_of_mem_of_ne hmem.1 hmem'.1 hne
    · exact absurd heq (hinv.get_counter_lt hc hlog hb hb').ne
    · exact absurd heq (hinv.get_counter_lt hc hlog hb' hb).ne'

/-- The path of the documented `curl` calls. -/
def samplePath : Bytes := ascii "/flowNo/us/so"

theorem sameCounter_samplePath :
    SameCounter (ascii "us") (ascii "so") fun _ : Bool => samplePath :=
  fun _ => ⟨[], rfl⟩

/-- A run in which both requests increment before either reads: both return `2`. -/
theorem exists_run_repeated :
    ∃ s : System Bool,
      FlowRun (ascii "us") (ascii "so") (fun _ => samplePath) 0 [false, true, false, true] s ∧
      s.thread false = .done (.value (ascii "2")) ∧
      s.thread true = .done (.value (ascii "2")) := by
  refine ⟨_, .snoc (.snoc (.snoc (.snoc .nil ?_ rfl) ?_ rfl) ?_ rfl) ?_ rfl, rfl, rfl⟩ <;>
    exact fun _ _ _ _ => by decide

/-- Flow numbers can be handed out twice. -/
theorem flowNo_repeated :
    ¬ ∀ (is : List Bool) (s : System Bool),
      FlowRun (ascii "us") (ascii "so") (fun _ => samplePath) 0 is s →
      ∀ i j v w, i ≠ j → s.thread i = .done (.value v) → s.thread j = .done (.value w) →
        v ≠ w := by
  intro h
  obtain ⟨s, hrun, hf, ht⟩ := exists_run_repeated
  exact h _ s hrun false true _ _ (by decide) hf ht rfl

/-- The criterion applied to that run: its schedule has two reads in a row. -/
theorem flowNo_distinct_iff_two_requests :
    ∃ s : System Bool,
      FlowRun (ascii "us") (ascii "so") (fun _ => samplePath) 0 [false, true, false, true] s ∧
      ((∀ i j v w, i ≠ j → s.thread i = .done (.value v) → s.thread j = .done (.value w) →
        v ≠ w) ↔ NoConsecutiveReads [false, true, false, true]) := by
  obtain ⟨s, hrun, _⟩ := exists_run_repeated
  exact ⟨s, hrun, flowNo_distinct_iff sameCounter_samplePath hrun⟩

end AsioCoroFrame.FlowNumber
