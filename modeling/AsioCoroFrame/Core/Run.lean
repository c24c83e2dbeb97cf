import Mathlib.Data.List.Induction
import Mathlib.Tactic.Common

/-!
# Runs of a deterministic labelled system

A system is a partial step function on labelled actions. A run records its
actions oldest first and may be restricted to the actions that meet a
condition in the state they start from. An interleaving of any number of
threads is a run whose actions name the thread that moves.
-/

namespace AsioCoroFrame

section Run

variable {σ α : Type*}

/-- The runs from `s₀` all of whose actions meet `ok` where they are taken. -/
inductive Run (step : σ → α → Option σ) (ok : σ → α → Prop) (s₀ : σ) : List α → σ → Prop
  | nil : Run step ok s₀ [] s₀
  | snoc {as s a s'} : Run step ok s₀ as s → ok s a → step s a = some s' →
      Run step ok s₀ (as ++ [a]) s'

variable {step : σ → α → Option σ} {ok : σ → α → Prop} {s₀ : σ}

/-- What holds at the start and survives every admitted step holds along every run. -/
theorem Run.invariant {P : σ → Prop} (h₀ : P s₀)
    (hstep : ∀ s a s', P s → ok s a → step s a = some s' → P s')
    {as : List α} {s : σ} (h : Run step ok s₀ as s) : P s := by
  induction h with
  | nil => exact h₀
  | snoc _ hok hs ih => exact hstep _ _ _ ih hok hs

theorem Run.nil_iff {s : σ} : Run step ok s₀ [] s ↔ s = s₀ := by
  constructor
  · intro h
    generalize he : ([] : List α) = as at h
    cases h with
    | nil => rfl
    | snoc => simp at he
  · rintro rfl
    exact .nil

theorem Run.snoc_iff {as : List α} {a : α} {s : σ} :
    Run step ok s₀ (as ++ [a]) s ↔ ∃ m, Run step ok s₀ as m ∧ ok m a ∧ step m a = some s := by
  constructor
  · intro h
    generalize he : as ++ [a] = bs at h
    cases h with
    | nil => simp at he
    | snoc h hok hs =>
      obtain ⟨rfl, ha⟩ := List.append_inj' he rfl
      obtain rfl := List.head_eq_of_cons_eq ha
      exact ⟨_, h, hok, hs⟩
  · rintro ⟨m, h, hok, hs⟩
    exact .snoc h hok hs

/-- A run passes through a state after each of its beginnings. -/
theorem Run.split {as bs : List α} {s : σ} (h : Run step ok s₀ (as ++ bs) s) :
    ∃ m, Run step ok s₀ as m ∧ Run step ok m bs s := by
  induction bs using List.reverseRecOn generalizing s with
  | nil => exact ⟨s, by simpa using h, .nil⟩
  | append_singleton bs b ih =>
    rw [← List.append_assoc, Run.snoc_iff] at h
    obtain ⟨s', h, hok, hs⟩ := h
    obtain ⟨m, ha, hb⟩ := ih h
    exact ⟨m, ha, .snoc hb hok hs⟩

/-- The first action of a run is admitted where the run starts. -/
theorem Run.head_ok {a : α} {as : List α} {s : σ} (h : Run step ok s₀ (a :: as) s) : ok s₀ a := by
  obtain ⟨m, ha, _⟩ := Run.split (show Run step ok s₀ ([a] ++ as) s from h)
  obtain ⟨s', hnil, hok, _⟩ := Run.snoc_iff.mp (show Run step ok s₀ ([] ++ [a]) m from ha)
  exact Run.nil_iff.mp hnil ▸ hok

/-- Execute a list of actions. -/
def runFrom (step : σ → α → Option σ) : List α → σ → Option σ
  | [], s => some s
  | a :: as, s => (step s a).bind (runFrom step as)

theorem runFrom_append (as bs : List α) (s : σ) :
    runFrom step (as ++ bs) s = (runFrom step as s).bind (runFrom step bs) := by
  induction as generalizing s with
  | nil => rfl
  | cons a as ih =>
    cases h : step s a with
    | none => simp [runFrom, h]
    | some s' => simp [runFrom, h, ih]

/-- A run executes to its last state. -/
theorem Run.runFrom_eq {as : List α} {s : σ} (h : Run step ok s₀ as s) :
    runFrom step as s₀ = some s := by
  induction h with
  | nil => rfl
  | snoc _ _ hs ih => simp [runFrom_append, ih, runFrom, hs]

/-- A run is determined by its actions. -/
theorem Run.unique {as : List α} {s s' : σ} (h : Run step ok s₀ as s) (h' : Run step ok s₀ as s') :
    s = s' := Option.some.inj (h.runFrom_eq.symm.trans h'.runFrom_eq)

/-- A property that each step keeps exactly when it is a good one holds in all states of a run
exactly when all steps of the run are good ones. -/
theorem Run.always_iff {P : σ → Prop} {good : σ → α → Prop} (h₀ : P s₀)
    (hstep : ∀ s a s', P s → step s a = some s' → (P s' ↔ good s a)) {as : List α} {s : σ}
    (h : Run step ok s₀ as s) :
    (∀ pre m, pre <+: as → Run step ok s₀ pre m → P m) ↔
      ∀ pre a m, pre ++ [a] <+: as → Run step ok s₀ pre m → good m a := by
  induction h with
  | nil =>
    simp only [List.prefix_nil, List.append_eq_nil_iff, List.cons_ne_self, and_false,
      false_imp_iff, implies_true, iff_true]
    rintro pre m rfl hm
    exact Run.nil_iff.mp hm ▸ h₀
  | @snoc as s a s' h hok hs ih =>
    have hlast := Run.snoc h hok hs
    constructor
    · intro hall pre b m hpre hm
      rcases List.prefix_concat_iff.mp hpre with he | hpre
      · obtain ⟨rfl, hb⟩ := List.append_inj' he rfl
        obtain rfl := List.head_eq_of_cons_eq hb
        obtain rfl := h.unique hm
        have hP := hall pre s (List.prefix_append ..) h
        exact (hstep s b s' hP hs).mp (hall _ s' (List.prefix_refl _) hlast)
      · have hbefore : ∀ pre m, pre <+: as → Run step ok s₀ pre m → P m :=
          fun pre m hpre => hall pre m (hpre.trans (List.prefix_append ..))
        exact ih.mp hbefore pre b m hpre hm
    · intro hgood pre m hpre hm
      have hbefore := ih.mpr fun pre b m hpre =>
        hgood pre b m (hpre.trans (List.prefix_append ..))
      rcases List.prefix_concat_iff.mp hpre with rfl | hpre
      · obtain rfl := hlast.unique hm
        have hP := hbefore as s (List.prefix_refl _) h
        exact (hstep s a s' hP hs).mpr (hgood as a s (List.prefix_refl _) h)
      · exact hbefore pre m hpre hm

/-- An execution is a run once each of its actions is admitted where it starts. -/
theorem Run.of_runFrom {as : List α} {s : σ} (h : runFrom step as s₀ = some s)
    (hok : ∀ pre a post, as = pre ++ a :: post → ∀ s', runFrom step pre s₀ = some s' → ok s' a) :
    Run step ok s₀ as s := by
  induction as using List.reverseRecOn generalizing s with
  | nil =>
    cases h
    exact .nil
  | append_singleton as a ih =>
    rw [runFrom_append, Option.bind_eq_some_iff] at h
    obtain ⟨s', hs', ha⟩ := h
    simp only [runFrom, Option.bind_eq_some_iff] at ha
    obtain ⟨s'', hstep, ha⟩ := ha
    cases ha
    refine .snoc (ih hs' ?_) (hok as a [] rfl s' hs') hstep
    intro pre b post he
    exact hok pre b (post ++ [a]) (by simp [he])

end Run

end AsioCoroFrame
