import AsioCoroFrame.Models.Report.Passes

/-!
# What a program does to a row

Two conditions on the content of the database describe a program that starts
from a given row: under one it completes, under the other it leaves the row as
it was. They are read off the program operation by operation: a query adds a
bound row to both, a test a premise, an assignment an equation to the second.
-/

namespace AsioCoroFrame.Report

/-! ## Reading the first row of a result -/

/-- The first row of the answer to a query. -/
def firstRow (db : Content) (q : Query) : Option Row := (db q.text)[0]?

/-- The answer to a query has a first row, and it is as required. -/
def Found (db : Content) (q : Query) (P : Row → Prop) : Prop :=
  ∃ row, firstRow db q = some row ∧ P row

/-- If the answer to a query has a first row, it is as required. -/
def Each (db : Content) (q : Query) (P : Row → Prop) : Prop :=
  ∀ row, firstRow db q = some row → P row

/-- The result of a query, with the cursor on its first row. -/
def fetched (db : Content) (q : Query) : ResultSet := ⟨q.columns, db q.text, 1⟩

variable {db : Content} {q : Query} {row : Row} {column : String} {cs : List String}
  {data e d : ReportData}

/-- Run a program while no query fails. -/
abbrev runOn (db : Content) {R : Type} (p : RowProg R) (s : Session) : Option R × Session :=
  p.exec (step (answers db)) s

theorem run_bind_some {R R' : Type} {p : RowProg R} {k : R → RowProg R'} {s s' : Session} {r : R}
    (h : runOn db p s = (some r, s')) : runOn db (p >>= k) s = runOn db (k r) s' := by
  rw [runOn] at h
  rw [runOn, Prog.exec_bind, h]

theorem run_bind_none {R R' : Type} {p : RowProg R} {k : R → RowProg R'} {s s' : Session}
    (h : runOn db p s = (none, s')) : runOn db (p >>= k) s = (none, s') := by
  rw [runOn] at h
  rw [runOn, Prog.exec_bind, h]

theorem cell_fetched (hc : column ∈ q.columns) :
    (fetched db q).cell column = (firstRow db q).map fun row => row column := by
  simp [ResultSet.cell, fetched, hc, ResultSet.current, firstRow]

theorem cell_fetched_none (h : firstRow db q = none) : (fetched db q).cell column = none := by
  unfold firstRow at h
  simp [ResultSet.cell, fetched, ResultSet.current, h]

theorem rows_fetched_some (h : firstRow db q = some row) : ¬ (fetched db q).rows.length < 1 := by
  unfold firstRow at h
  exact Nat.not_lt.2 (List.getElem?_eq_some_iff.1 h).1

theorem rows_fetched_none (h : firstRow db q = none) : (fetched db q).rows.length < 1 := by
  unfold firstRow at h
  exact Nat.lt_one_iff.2 (Nat.eq_zero_of_le_zero (List.getElem?_eq_none_iff.1 h))

theorem Row.text_of_none (h : row column = none) : row.text column = [] := by
  simp [Row.text, h]

section Reads

variable {R : Type}

theorem run_rowsCount {k : Nat → RowProg R} {s : Session} :
    runOn db (rowsCount >>= k) s = runOn db (k s.res.rows.length) s := rfl

theorem run_isNull {k : Bool → RowProg R} (hc : column ∈ q.columns)
    (h : firstRow db q = some row) :
    runOn db (isNull column >>= k) ⟨e, fetched db q⟩ =
      runOn db (k (row column).isNone) ⟨e, fetched db q⟩ := by
  apply run_bind_some
  simp only [isNull, Prog.exec_ask, step, cell_fetched hc, h, Option.map_some]

theorem run_getString {k : Bytes → RowProg R} (hc : column ∈ q.columns)
    (h : firstRow db q = some row) :
    runOn db (getString column >>= k) ⟨e, fetched db q⟩ =
      runOn db (k (row.text column)) ⟨e, fetched db q⟩ := by
  apply run_bind_some
  simp only [getString, Prog.exec_ask, step, cell_fetched hc, h, Option.map_some]
  rfl

theorem run_getStringAt {k : Bytes → RowProg R} {i : Nat} (hi : q.columns[i]? = some column)
    (h : firstRow db q = some row) :
    runOn db (getStringAt (i + 1) >>= k) ⟨e, fetched db q⟩ =
      runOn db (k (row.text column)) ⟨e, fetched db q⟩ := by
  have hcol : (fetched db q).columnAt (i + 1) = some column := hi
  apply run_bind_some
  simp only [getStringAt, Prog.exec_ask, step, hcol, Option.bind_some,
    cell_fetched (List.mem_of_getElem? hi), h, Option.map_some]
  rfl

theorem run_blank {k : Bool → RowProg R} (hq : q.columns = column :: cs)
    (h : firstRow db q = some row) :
    runOn db (blank column >>= k) ⟨e, fetched db q⟩ =
      runOn db (k (decide (row.text column = []))) ⟨e, fetched db q⟩ := by
  rw [blank, bind_assoc, run_isNull (by simp [hq]) h]
  cases hcell : row column with
  | none => simp [Row.text_of_none hcell]
  | some v =>
    simp only [Option.isNone_some, Bool.false_eq_true, if_false, bind_assoc]
    have hcol : q.columns[0]? = some column := by simp [hq]
    rw [run_getStringAt hcol h]
    rfl

theorem run_missing {k : Bool → RowProg R} (hq : q.columns = column :: cs)
    (h : firstRow db q = some row) :
    runOn db (missing column >>= k) ⟨e, fetched db q⟩ =
      runOn db (k (decide (row.text column = []))) ⟨e, fetched db q⟩ := by
  rw [missing, bind_assoc, run_rowsCount, if_neg (rows_fetched_some h)]
  exact run_blank hq h

/-- Without a row the long test says so. -/
theorem run_missing_none {k : Bool → RowProg R} (h : firstRow db q = none) :
    runOn db (missing column >>= k) ⟨e, fetched db q⟩ = runOn db (k true) ⟨e, fetched db q⟩ := by
  rw [missing, bind_assoc, run_rowsCount, if_pos (rows_fetched_none h)]
  rfl

end Reads

/-! ## Reading without a row -/

/-- A program that raises before it has done anything. -/
def Raises (db : Content) {R : Type} (p : RowProg R) (res : ResultSet) : Prop :=
  ∀ e, runOn db p ⟨e, res⟩ = (none, ⟨e, res⟩)

section Raises

variable {R : Type}

theorem raises_isNull {k : Bool → RowProg R} (h : firstRow db q = none) :
    Raises db (isNull column >>= k) (fetched db q) := by
  intro e
  apply run_bind_none
  simp [isNull, step, cell_fetched_none h]

theorem raises_getString {k : Bytes → RowProg R} (h : firstRow db q = none) :
    Raises db (getString column >>= k) (fetched db q) := by
  intro e
  apply run_bind_none
  simp [getString, step, cell_fetched_none h]

theorem raises_getStringAt {k : Bytes → RowProg R} {i : Nat} (h : firstRow db q = none) :
    Raises db (getStringAt i >>= k) (fetched db q) := by
  intro e
  apply run_bind_none
  cases hcol : (fetched db q).columnAt i with
  | none => simp [getStringAt, step, hcol]
  | some column => simp [getStringAt, step, hcol, cell_fetched_none h]

theorem raises_blank {k : Bool → RowProg R} (h : firstRow db q = none) :
    Raises db (blank column >>= k) (fetched db q) := by
  rw [blank, bind_assoc]
  exact raises_isNull h

theorem raises_setUnlessNull {k : Unit → RowProg R} {f : Field} (h : firstRow db q = none) :
    Raises db (setUnlessNull f column >>= k) (fetched db q) := by
  rw [setUnlessNull, bind_assoc]
  exact raises_isNull h

end Raises

/-! ## Assignments -/

/-- A program that does no more than assign one member, when a condition holds. -/
def Assigns (db : Content) (p : RowProg Unit) (res : ResultSet) (f : Field) (P : Prop)
    [Decidable P] (v : Bytes) : Prop :=
  ∀ e, runOn db p ⟨e, res⟩ = (some (), ⟨if P then Function.update e f v else e, res⟩)

theorem assigns_set (res : ResultSet) (f : Field) (v : Bytes) :
    Assigns db (set f v) res f True v := fun _ => rfl

theorem assigns_setUnlessNull (f : Field) (hc : column ∈ q.columns)
    (h : firstRow db q = some row) :
    Assigns db (setUnlessNull f column) (fetched db q) f (row column ≠ none) (row.text column) := by
  intro e
  rw [setUnlessNull, run_isNull hc h]
  cases hcell : row column with
  | none => rfl
  | some v =>
    simp only [Option.isNone_some, Bool.false_eq_true, if_false]
    rw [run_getString hc h]
    rfl

theorem assigns_setUnlessMissing (f : Field) (hq : q.columns = column :: cs)
    (h : firstRow db q = some row) :
    Assigns db (setUnlessMissing f column) (fetched db q) f (row.text column ≠ [])
      (row.text column) := by
  intro e
  rw [setUnlessMissing, run_missing hq h]
  by_cases hcell : row.text column = []
  · simp only [hcell, decide_true, if_true, ne_eq, not_true_eq_false, if_false]
    rfl
  · simp only [hcell, decide_false, Bool.false_eq_true, if_false, ne_eq, not_false_eq_true, if_true]
    rw [run_getString (by simp [hq]) h]
    rfl

theorem assigns_setAccountName (id : Bytes) (h : firstRow db (customerQuery id) = some row) :
    Assigns db setAccountName (fetched db (customerQuery id)) .accountName
      (row.text "trade_name" ≠ []) (row.text "trade_name") := by
  intro e
  have hcol : (customerQuery id).columns[1]? = some "trade_name" := rfl
  rw [setAccountName, run_isNull (List.mem_of_getElem? hcol) h]
  cases hcell : row "trade_name" with
  | none =>
    simp only [Row.text_of_none hcell, Option.isNone_none, if_true, ne_eq, not_true_eq_false,
      if_false]
    rfl
  | some v =>
    simp only [Option.isNone_some, Bool.false_eq_true, if_false]
    rw [run_getStringAt hcol h]
    by_cases ht : row.text "trade_name" = []
    · simp only [ht, if_true, ne_eq, not_true_eq_false, if_false]
      rfl
    · simp only [ht, if_false, ne_eq, not_false_eq_true, if_true]
      rw [run_getStringAt hcol h]
      rfl

/-- A program assigns no other members than these. -/
def writes (F : List Field) : Discipline Op Ans Unit where
  allowed
    | .set f _, _ => f ∈ F
    | _, _ => True
  after _ _ _ := ()

/-- Two rows agree on the members that are not listed. -/
def AgreeOff (F : List Field) (e data : ReportData) : Prop := ∀ g ∉ F, e g = data g

/-- What a program does not assign stays as it is. -/
theorem agreeOff_of_writes {F : List Field} {p : RowProg Unit}
    (hp : p.Obeys (writes F) (fun _ => True) ()) (s : Session) :
    AgreeOff F (runOn db p s).2.data s.data := by
  induction p generalizing s with
  | done r => exact fun _ _ => rfl
  | call op k ih =>
    intro g hg
    have hop : (step (answers db) op s).2.data g = s.data g := by
      cases op with
      | set f v =>
        have hf : f ∈ F := hp.1
        exact Function.update_of_ne (ne_of_mem_of_not_mem hf hg).symm _ _
      | _ => rfl
    simp only [Prog.exec]
    rcases hstep : step (answers db) op s with ⟨_ | a, s'⟩
    · rw [hstep] at hop
      exact hop
    · rw [hstep] at hop
      exact (ih a (hp.2 a) s' g hg).trans hop

/-! ## The two conditions of a program -/

/-- Started on a row that agrees with `data` but on the members assigned before, a program
completes under `complete`, and what it leaves is `data` when it began with `data` and `settled`
holds. -/
structure Spec (db : Content) (data : ReportData) (assigned : List Field) (p : RowProg Unit)
    (res : ResultSet) (complete settled : Prop) : Prop where
  ends : ∀ e, AgreeOff assigned e data → ((runOn db p ⟨e, res⟩).1 = some () ↔ complete)
  keeps : ∀ e, AgreeOff assigned e data →
    ((runOn db p ⟨e, res⟩).2.data = data ↔ e = data ∧ settled)

variable {F F' : List Field} {C C₁ C₂ S S₁ S₂ : Prop} {res : ResultSet} {p : RowProg Unit}

theorem Spec.of_run {p' : RowProg Unit} {res' : ResultSet}
    (h : ∀ e, AgreeOff F e data → runOn db p ⟨e, res⟩ = runOn db p' ⟨e, res'⟩)
    (hp : Spec db data F p' res' C S) : Spec db data F p res C S := by
  constructor
  · intro e he
    rw [h e he]
    exact hp.ends e he
  · intro e he
    rw [h e he]
    exact hp.keeps e he

theorem Spec.congr {C' S' : Prop} (hp : Spec db data F p res C S) (hC : C ↔ C') (hS : S ↔ S') :
    Spec db data F p res C' S' := by
  rwa [← propext hC, ← propext hS]

theorem spec_pure : Spec db data F (pure ()) res True True := by
  constructor
  · exact fun e _ => iff_of_true rfl trivial
  · intro e _
    rw [and_true]
    rfl

theorem spec_raises (h : Raises db p res) : Spec db data F p res False True := by
  constructor
  · intro e _
    simp [h e]
  · intro e _
    rw [h e, and_true]

/-- An assignment gives the row another value exactly where it differs. -/
theorem update_eq_iff {f : Field} {v : Bytes} (hf : e f = data f) :
    Function.update e f v = data ↔ e = data ∧ data f = v := by
  constructor
  · rintro rfl
    have hv : e f = v := by simpa using hf
    rw [← hv, Function.update_eq_self]
    exact ⟨rfl, rfl⟩
  · rintro ⟨rfl, rfl⟩
    exact Function.update_eq_self _ _

/-- What follows a program runs where it has completed. -/
theorem spec_seq {k : Unit → RowProg Unit} (hw : p.Obeys (writes F') (fun _ => True) ())
    (hp : Spec db data F p res C₁ S₁)
    (hk : ∀ res', Spec db data (F' ++ F) (k ()) res' C₂ S₂) :
    Spec db data F (p >>= k) res (C₁ ∧ C₂) (S₁ ∧ (C₁ → S₂)) := by
  have hagree {e : ReportData} (he : AgreeOff F e data) :
      AgreeOff (F' ++ F) (runOn db p ⟨e, res⟩).2.data data := by
    intro g hg
    rw [List.mem_append, not_or] at hg
    exact (agreeOff_of_writes hw _ g hg.1).trans (he g hg.2)
  constructor
  · intro e he
    rcases hrun : runOn db p ⟨e, res⟩ with ⟨_ | _, s'⟩
    · have hC : ¬ C₁ := fun h => by simpa [hrun] using (hp.ends e he).2 h
      simp [run_bind_none hrun, hC]
    · have hC : C₁ := (hp.ends e he).1 (by rw [hrun])
      have hs := hagree he
      rw [hrun] at hs
      rw [run_bind_some hrun, and_iff_right hC]
      exact (hk s'.res).ends _ hs
  · intro e he
    have hkeeps := hp.keeps e he
    rcases hrun : runOn db p ⟨e, res⟩ with ⟨_ | _, s'⟩
    · have hC : ¬ C₁ := fun h => by simpa [hrun] using (hp.ends e he).2 h
      rw [hrun] at hkeeps
      simpa [run_bind_none hrun, hC] using hkeeps
    · have hC : C₁ := (hp.ends e he).1 (by rw [hrun])
      have hs := hagree he
      rw [hrun] at hs hkeeps
      rw [run_bind_some hrun, forall_prop_of_true hC, ← and_assoc, ← hkeeps]
      exact (hk s'.res).keeps _ hs

/-- An assignment adds an equation to what leaves the row as it was. -/
theorem spec_assign {k : Unit → RowProg Unit} {f : Field} {P : Prop} [Decidable P] {v : Bytes}
    (hp : Assigns db p res f P v) (hf : f ∉ F) (hk : Spec db data (f :: F) (k ()) res C S) :
    Spec db data F (p >>= k) res C ((P → data f = v) ∧ S) := by
  have hagree {e : ReportData} (he : AgreeOff F e data) :
      AgreeOff (f :: F) (if P then Function.update e f v else e) data := by
    intro g hg
    rw [List.mem_cons, not_or] at hg
    split_ifs
    · rw [Function.update_of_ne hg.1, he g hg.2]
    · exact he g hg.2
  constructor
  · intro e he
    rw [run_bind_some (hp e)]
    exact hk.ends _ (hagree he)
  · intro e he
    rw [run_bind_some (hp e), hk.keeps _ (hagree he), ← and_assoc]
    apply and_congr_left
    intro _
    by_cases hP : P
    · simp only [if_pos hP, forall_prop_of_true hP]
      exact update_eq_iff (he f hf)
    · simp [hP]

theorem spec_set {k : Unit → RowProg Unit} {f : Field} {v : Bytes} (hf : f ∉ F)
    (hk : Spec db data (f :: F) (k ()) res C S) :
    Spec db data F (set f v >>= k) res C (data f = v ∧ S) :=
  Spec.congr (spec_assign (assigns_set _ f v) hf hk) Iff.rfl (by simp)

/-- The last assignment of a program. -/
theorem spec_assign_last {f : Field} {P : Prop} [Decidable P] {v : Bytes}
    (hp : Assigns db p res f P v) (hf : f ∉ F) :
    Spec db data F p res True (P → data f = v) := by
  have hseq : Spec db data F (p >>= pure) res True ((P → data f = v) ∧ True) :=
    spec_assign hp hf spec_pure
  simpa using hseq

theorem spec_set_last {f : Field} {v : Bytes} (hf : f ∉ F) :
    Spec db data F (set f v) res True (data f = v) :=
  Spec.congr (spec_assign_last (assigns_set _ f v) hf) Iff.rfl (by simp)

section Queries

variable {k : Unit → RowProg Unit} {Cr Sr : Row → Prop}

/-- A query whose row is read right away. -/
theorem spec_found (hnone : firstRow db q = none → Raises db (k ()) (fetched db q))
    (hrow : ∀ row, firstRow db q = some row →
      Spec db data F (k ()) (fetched db q) (Cr row) (Sr row)) :
    Spec db data F (query q >>= fun _ => next >>= k) res (Found db q Cr) (Each db q Sr) := by
  have hfetch : ∀ e, runOn db (query q >>= fun _ => next >>= k) ⟨e, res⟩ =
      runOn db (k ()) ⟨e, fetched db q⟩ := fun _ => rfl
  apply Spec.of_run fun e _ => hfetch e
  cases h : firstRow db q with
  | none =>
    have : Spec db data F (k ()) (fetched db q) False True := spec_raises (hnone h)
    simpa [Found, Each, h] using this
  | some row => simpa [Found, Each, h] using hrow row h

/-- A query whose row is looked for before it is read. -/
theorem spec_looked (hnone : firstRow db q = none → Spec db data F (k ()) (fetched db q) True True)
    (hrow : ∀ row, firstRow db q = some row →
      Spec db data F (k ()) (fetched db q) (Cr row) (Sr row)) :
    Spec db data F (query q >>= fun _ => next >>= k) res (Each db q Cr) (Each db q Sr) := by
  have hfetch : ∀ e, runOn db (query q >>= fun _ => next >>= k) ⟨e, res⟩ =
      runOn db (k ()) ⟨e, fetched db q⟩ := fun _ => rfl
  apply Spec.of_run fun e _ => hfetch e
  cases h : firstRow db q with
  | none => simpa [Each, h] using hnone h
  | some row => simpa [Each, h] using hrow row h

end Queries

section Columns

variable {k : Bytes → RowProg Unit}

theorem spec_get {f : Field} (hf : f ∉ F) (hk : Spec db data F (k (data f)) res C S) :
    Spec db data F (get f >>= k) res C S := by
  apply Spec.of_run _ hk
  intro e he
  rw [← he f hf]
  rfl

theorem spec_getString (hc : column ∈ q.columns) (h : firstRow db q = some row)
    (hk : Spec db data F (k (row.text column)) (fetched db q) C S) :
    Spec db data F (getString column >>= k) (fetched db q) C S :=
  Spec.of_run (fun _ _ => run_getString hc h) hk

theorem spec_getStringAt {i : Nat} (hi : q.columns[i]? = some column)
    (h : firstRow db q = some row)
    (hk : Spec db data F (k (row.text column)) (fetched db q) C S) :
    Spec db data F (getStringAt (i + 1) >>= k) (fetched db q) C S :=
  Spec.of_run (fun _ _ => run_getStringAt hi h) hk

/-- A test that ends the program is a premise of both conditions. -/
theorem spec_unless {b : Bool} {P : Prop} (hb : b = false ↔ P)
    (hp : P → Spec db data F p res C S) :
    Spec db data F (if b = true then pure () else p) res (P → C) (P → S) := by
  cases b with
  | true =>
    have hP : ¬ P := fun h => nomatch hb.2 h
    simpa [hP] using spec_pure
  | false =>
    have hP : P := hb.1 rfl
    simpa [hP] using hp hP

theorem spec_unlessNull (hc : column ∈ q.columns) (h : firstRow db q = some row)
    (hp : row column ≠ none → Spec db data F p (fetched db q) C S) :
    Spec db data F (isNull column >>= fun b => if b = true then pure () else p)
      (fetched db q) (row column ≠ none → C) (row column ≠ none → S) := by
  apply Spec.of_run fun _ _ => run_isNull hc h
  apply spec_unless _ hp
  cases row column <;> simp

theorem spec_unlessBlank (hq : q.columns = column :: cs) (h : firstRow db q = some row)
    (hp : row.text column ≠ [] → Spec db data F p (fetched db q) C S) :
    Spec db data F (blank column >>= fun b => if b = true then pure () else p)
      (fetched db q) (row.text column ≠ [] → C) (row.text column ≠ [] → S) := by
  apply Spec.of_run fun _ _ => run_blank hq h
  exact spec_unless (by simp) hp

theorem spec_unlessMissing (hq : q.columns = column :: cs) (h : firstRow db q = some row)
    (hp : row.text column ≠ [] → Spec db data F p (fetched db q) C S) :
    Spec db data F (missing column >>= fun b => if b = true then pure () else p)
      (fetched db q) (row.text column ≠ [] → C) (row.text column ≠ [] → S) := by
  apply Spec.of_run fun _ _ => run_missing hq h
  exact spec_unless (by simp) hp

end Columns

end AsioCoroFrame.Report
