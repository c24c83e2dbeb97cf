import AsioCoroFrame.Models.Redispp.Lifetime

/-!
# Every object reads its own reply

In every run of a session that keeps to `Keeps`, whatever the order in which
results are asked for, a result is the value of the reply to the command of its
object, and an enumerator gives the elements of its own reply from the first to
the last.
-/

namespace AsioCoroFrame.Redispp

/-- A connection on which nothing has happened. -/
theorem inv_new (bufferSize : Nat) :
    Inv (.new bufferSize) (Session.new bufferSize).answer (Session.new bufferSize).taken :=
  ⟨List.nodup_nil, by simp [Connection.new], fun _ _ => ⟨rfl, rfl⟩, by simp [Connection.new],
    fun _ => rfl, fun _ _ => .ended rfl fun hc => (by cases hc),
    fun _ => ⟨[], gap_nil, rfl⟩, by simp [Connection.new], rfl⟩

/-- Every step that keeps to the rules keeps the replies apart. -/
theorem step_inv {s s' : Session} {act : Action} (h : Inv s.conn s.answer s.taken)
    (hok : Keeps s act) (hstep : step s act = some s') : Inv s'.conn s'.answer s'.taken := by
  cases act with
  | issue cls r ans =>
    obtain ⟨hinv, hstream, hcon⟩ := executeCommand_inv h r
    simp only [step] at hstep
    rcases hexec : s.conn.executeCommand r with ⟨e | ⟨⟩, c⟩
    · rw [hexec] at hstep hinv
      cases hstep
      exact hinv
    · rw [hexec] at hstep hinv
      simp only at hstep
      split_ifs at hstep with hf
      · cases hstep
        have hres := construct_inv hinv cls [] (s.answer c.constructed)
          fun hg => absurd hf (by simpa using hg)
        rw [Function.update_eq_self] at hres
        refine hres.congr ?_ rfl rfl rfl rfl
        simp [Connection.arrive]
      · cases hstep
        exact construct_inv hinv cls ans.text (some ans) fun _ => ⟨ans, rfl, rfl, hok.1, hok.2⟩
  | result id =>
    simp only [step] at hstep
    rcases hobj : s.conn.objects id with ⟨conn, b⟩
    rw [hobj] at hstep
    cases b with
    | single k v =>
      cases hstep
      cases conn with
      | false => rwa [result_stored hobj]
      | true => exact (result_waiting h hobj).inv
    | gone | multi | queued => cases hstep
  | next id =>
    simp only [step] at hstep
    rcases hobj : s.conn.objects id with ⟨conn, b⟩
    rw [hobj] at hstep
    cases b with
    | multi hd n p =>
      have hinv := (next_gives h hobj).inv
      simp only at hstep
      rcases hone : s.conn.next id with ⟨e | (_ | x), c⟩
      · rw [hone] at hstep hinv
        cases hstep
        simpa [given] using hinv
      · rw [hone] at hstep hinv
        cases hstep
        simpa [given] using hinv
      · rw [hone] at hstep hinv
        cases hstep
        exact hinv
    | gone | single | queued => cases hstep
  | copy src =>
    simp only [step] at hstep
    split_ifs at hstep with hcls
    cases hstep
    exact copy_inv h hcls
  | assign dst src =>
    simp only [step] at hstep
    split_ifs at hstep with hbad
    obtain ⟨hne, hcls, hsame⟩ : dst ≠ src ∧ (s.conn.objects src).body.cls ≠ none ∧
        (s.conn.objects dst).body.cls = (s.conn.objects src).body.cls := by
      rw [not_or, not_or, not_not] at hbad
      exact hbad
    obtain ⟨hdone, hraised⟩ := assign_inv h hne hcls hsame hok.1 hok.2
    rcases hone : s.conn.assign dst src with ⟨e | ⟨⟩, c⟩
    · rw [hone] at hstep hraised
      cases hstep
      exact hraised (by simp)
    · rw [hone] at hstep hdone
      cases hstep
      exact hdone rfl
  | destroy id =>
    simp only [step] at hstep
    split_ifs at hstep with hcls
    cases hstep
    exact destroy_inv h hcls hok

/-- In every run that keeps to the rules the replies are kept apart. -/
theorem run_inv {bufferSize : Nat} {as : List Action} {s : Session}
    (h : Run step Keeps (Session.new bufferSize) as s) : Inv s.conn s.answer s.taken :=
  Run.invariant (P := fun s => Inv s.conn s.answer s.taken) (inv_new bufferSize)
    (fun _ _ _ hinv hok hstep => step_inv hinv hok hstep) h

/-- Three commands whose replies are asked for out of order. -/
def sampleRun : List Action :=
  [.issue .multi ⟨ascii "Keys", [.string (ascii "*")]⟩ (.multi (some [some (ascii "a"), none])),
    .issue (.single .void) ⟨ascii "Set", [.string (ascii "a"), .string (ascii "1")]⟩
      (.status (ascii "OK")),
    .issue (.single .int) ⟨ascii "Incr", [.string (ascii "a")]⟩ (.integer 2),
    .next 0]

/-- The state after some actions, where each of them is a step. -/
def Session.after (s : Session) (as : List Action) : Session := (runFrom step as s).getD s

theorem Session.runFrom_after {s : Session} {as : List Action}
    (h : (runFrom step as s).isSome = true) : runFrom step as s = some (s.after as) := by
  obtain ⟨s', hs⟩ := Option.isSome_iff_exists.mp h
  rw [Session.after, hs, Option.getD_some]

theorem Session.step_after {s : Session} {act : Action} (h : (step s act).isSome = true) :
    step s act = some (s.after [act]) := by
  obtain ⟨s', hs⟩ := Option.isSome_iff_exists.mp h
  simp [Session.after, runFrom, hs]

/-- Where the sample run ends. -/
def sampleSession : Session := (Session.new 4096).after sampleRun

theorem runFrom_sampleRun : runFrom step sampleRun (Session.new 4096) = some sampleSession :=
  Session.runFrom_after (by decide +kernel)

/-- The sample run keeps to the rules. -/
theorem sampleRun_run : Run step Keeps (Session.new 4096) sampleRun sampleSession := by
  refine .of_runFrom runFrom_sampleRun fun pre act post heq s _ => ?_
  have hmem : act ∈ sampleRun := by simp [heq]
  simp only [sampleRun, List.mem_cons, List.not_mem_nil, or_false] at hmem
  rcases hmem with rfl | rfl | rfl | rfl
  · refine ⟨.inl ⟨_, rfl⟩, by decide, ?_⟩
    rintro e he b rfl
    simp only [List.mem_cons, Option.some.injEq, reduceCtorEq, List.not_mem_nil, or_false] at he
    rw [he]
    decide
  · exact ⟨.inl rfl, (by decide : cr ∉ ascii "OK")⟩
  · exact ⟨.inl rfl, by decide, by decide⟩
  · trivial

end AsioCoroFrame.Redispp
