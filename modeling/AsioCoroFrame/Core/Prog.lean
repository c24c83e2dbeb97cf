import Mathlib.Tactic.Common

/-!
# Resumable programs

A program stops at each question it asks its environment, which is where
another thread may be scheduled. A discipline tells how the resources of a
program change with each answer and when a question may be asked; a program
that obeys it does so for every answer of the environment, and programs that
obey it compose. Where every allowed question is answered, a program that obeys
never raises.
-/

namespace AsioCoroFrame

/-- A program that asks questions, resumes on their answers and returns an `R`. -/
inductive Prog (Q : Type) (A : Q → Type) (R : Type) where
  /-- The program has returned. -/
  | done (r : R)
  /-- The program waits for the answer to a question. -/
  | call (q : Q) (k : A q → Prog Q A R)

variable {Q Q' : Type} {A : Q → Type} {A' : Q' → Type} {R S σ : Type}

/-- Post-process the result, leaving the questions as they are. -/
def Prog.map (f : R → S) : Prog Q A R → Prog Q A S
  | .done r => .done (f r)
  | .call q k => .call q fun a => (k a).map f

/-- Run one program after another. -/
def Prog.bind : Prog Q A R → (R → Prog Q A S) → Prog Q A S
  | .done r, f => f r
  | .call q k, f => .call q fun a => (k a).bind f

instance : Monad (Prog Q A) where
  pure := .done
  bind := Prog.bind

instance : LawfulMonad (Prog Q A) :=
  LawfulMonad.mk' (Prog Q A)
    (fun p => by
      change p.bind Prog.done = p
      induction p with
      | done r => rfl
      | call q k ih => exact congrArg (Prog.call q) (funext ih))
    (fun _ _ => rfl)
    (fun p f g => by
      change (p.bind f).bind g = p.bind fun r => (f r).bind g
      induction p with
      | done r => rfl
      | call q k ih => exact congrArg (Prog.call q) (funext ih))

/-- Ask one question and return its answer. -/
def Prog.ask (q : Q) : Prog Q A (A q) := .call q .done

/-- Answer every question by a program of a lower layer. -/
def Prog.interpret (h : (q : Q) → Prog Q' A' (A q)) : Prog Q A R → Prog Q' A' R
  | .done r => .done r
  | .call q k => (h q).bind fun a => (k a).interpret h

/-- Run a program against fixed answers: the questions it asks, in order, and its result. -/
def Prog.run (answer : (q : Q) → A q) : Prog Q A R → List Q × R
  | .done r => ([], r)
  | .call q k => (q :: ((k (answer q)).run answer).1, ((k (answer q)).run answer).2)

/-- Run a program on a state: each step answers its question or raises, which ends the run. -/
def Prog.exec (step : (q : Q) → σ → Option (A q) × σ) : Prog Q A R → σ → Option R × σ
  | .done r, s => (some r, s)
  | .call q k, s =>
    match step q s with
    | (some a, s') => (k a).exec step s'
    | (none, s') => (none, s')

/-- How the resources `σ` of a program change, and when a question may be asked. -/
structure Discipline (Q : Type) (A : Q → Type) (σ : Type) where
  allowed : Q → σ → Prop
  after : (q : Q) → A q → σ → σ

/-- Whatever the answers, only allowed questions are asked and the program returns as `fin`
requires of its resources. -/
def Prog.Obeys (D : Discipline Q A σ) (fin : σ → Prop) : σ → Prog Q A R → Prop
  | s, .done _ => fin s
  | s, .call q k => D.allowed q s ∧ ∀ a, (k a).Obeys D fin (D.after q a s)

variable {D : Discipline Q A σ} {fin fin' : σ → Prop}

/-- Post-processing changes nothing about the questions. -/
theorem Prog.run_map (answer : (q : Q) → A q) (f : R → S) (p : Prog Q A R) :
    (p.map f).run answer = ((p.run answer).1, f (p.run answer).2) := by
  induction p with
  | done r => rfl
  | call q k ih => simp only [map, run, ih]

theorem Prog.run_bind (answer : (q : Q) → A q) (p : Prog Q A R) (f : R → Prog Q A S) :
    (p.bind f).run answer =
      ((p.run answer).1 ++ ((f (p.run answer).2).run answer).1,
        ((f (p.run answer).2).run answer).2) := by
  induction p with
  | done r => rfl
  | call q k ih => simp only [bind, run, ih, List.cons_append]

/-- A program over a lower layer returns what it returns when each question is answered by what
the lower layer returns for it. -/
theorem Prog.run_interpret (h : (q : Q) → Prog Q' A' (A q)) (answer : (q : Q') → A' q)
    (p : Prog Q A R) :
    ((p.interpret h).run answer).2 = (p.run fun q => ((h q).run answer).2).2 := by
  induction p with
  | done r => rfl
  | call q k ih => simp only [interpret, run, run_bind, ih]

section Exec

variable (step : (q : Q) → σ → Option (A q) × σ)

@[simp] theorem Prog.exec_ask (q : Q) (s : σ) :
    (Prog.ask q : Prog Q A (A q)).exec step s = step q s := by
  rcases h : step q s with ⟨_ | a, s'⟩ <;> simp [ask, exec, h]

/-- What follows runs where the first part has returned. -/
theorem Prog.exec_bind (p : Prog Q A R) (f : R → Prog Q A S) (s : σ) :
    (p >>= f).exec step s =
      match p.exec step s with
      | (some r, s') => (f r).exec step s'
      | (none, s') => (none, s') := by
  change (p.bind f).exec step s = _
  induction p generalizing s with
  | done r => rfl
  | call q k ih =>
    simp only [bind, exec]
    rcases step q s with ⟨_ | a, s'⟩
    · rfl
    · exact ih a s'

/-- A run on a state with more in it is the run on the part that the steps look at. -/
theorem Prog.exec_project {τ : Type} {step : (q : Q) → σ → Option (A q) × σ}
    {step' : (q : Q) → τ → Option (A q) × τ} (f : τ → σ)
    (hstep : ∀ q t, (step' q t).1 = (step q (f t)).1 ∧ f (step' q t).2 = (step q (f t)).2)
    (p : Prog Q A R) (t : τ) :
    (p.exec step' t).1 = (p.exec step (f t)).1 ∧ f (p.exec step' t).2 = (p.exec step (f t)).2 := by
  induction p generalizing t with
  | done r => exact ⟨rfl, rfl⟩
  | call q k ih =>
    obtain ⟨hans, hstate⟩ := hstep q t
    simp only [exec]
    rcases h' : step' q t with ⟨a', t'⟩
    rcases h : step q (f t) with ⟨a, s⟩
    rw [h', h] at hans hstate
    subst hans
    subst hstate
    cases a' with
    | none => exact ⟨rfl, rfl⟩
    | some a => exact ih a t'

end Exec

/-- A program obeys a discipline when its parts do, one after the other. -/
theorem Prog.Obeys.bind {p : Prog Q A R} {f : R → Prog Q A S} {s : σ}
    (hp : p.Obeys D fin s) (hf : ∀ r s', fin s' → (f r).Obeys D fin' s') :
    (p.bind f).Obeys D fin' s := by
  induction p generalizing s with
  | done r => exact hf r s hp
  | call q k ih => exact ⟨hp.1, fun a => ih a (hp.2 a)⟩

/-- A lower layer that gives back what it takes may be called any number of times. -/
theorem Prog.Obeys.interpret {D : Discipline Q' A' σ} {h : (q : Q) → Prog Q' A' (A q)} {s : σ}
    (hh : ∀ q, (h q).Obeys D (· = s) s) (p : Prog Q A R) :
    (p.interpret h).Obeys D (· = s) s := by
  induction p with
  | done r => exact rfl
  | call q k ih =>
    refine (hh q).bind fun a s' hs' => ?_
    subst hs'
    exact ih a

/-- A program that obeys a discipline never raises, when every allowed question is answered and
the resources keep describing the state. -/
theorem Prog.Obeys.exec {τ : Type} {D : Discipline Q A τ} {fin : τ → Prop}
    {step : (q : Q) → σ → Option (A q) × σ} {Rel : τ → σ → Prop}
    (hstep : ∀ q t s, Rel t s → D.allowed q t →
      ∃ a s', step q s = (some a, s') ∧ Rel (D.after q a t) s')
    {p : Prog Q A R} {t : τ} {s : σ} (hp : p.Obeys D fin t) (hs : Rel t s) :
    ∃ r s', p.exec step s = (some r, s') := by
  induction p generalizing t s with
  | done r => exact ⟨r, s, rfl⟩
  | call q k ih =>
    obtain ⟨a, s', ha, hs'⟩ := hstep q t s hs hp.1
    simp only [Prog.exec, ha]
    exact ih a (hp.2 a) hs'

end AsioCoroFrame
