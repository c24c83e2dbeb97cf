import AsioCoroFrame.Models.Report.Passes

/-!
# Passes that look before they read

Reading a column needs the cursor on a row, and a positive `rowsCount()` tells
that there is one. Four of the passes ask for the count before every read, so
they raise on no database whose queries all succeed.
-/

namespace AsioCoroFrame.Report

/-- What a program knows of `m_res`. -/
structure Cursor where
  columns : List String
  /-- The calls of `next()` since the query. -/
  passed : Nat
  /-- A count of rows that the result is known to have. -/
  known : Nat

/-- Columns are read on rows that are known to exist. -/
def guarded : Discipline Op Ans Cursor where
  allowed
    | .isNull column, c | .getString column, c =>
      0 < c.passed ∧ c.passed ≤ c.known ∧ column ∈ c.columns
    | .getStringAt index, c =>
      0 < c.passed ∧ c.passed ≤ c.known ∧ 0 < index ∧ index ≤ c.columns.length
    | .query _, _ | .next, _ | .rowsCount, _ | .get _, _ | .set _ _, _ => True
  after
    | .query q, _, _ => ⟨q.columns, 0, 0⟩
    | .next, _, c => { c with passed := c.passed + 1 }
    | .rowsCount, n, c => { c with known := n }
    | .isNull _, _, c | .getString _, _, c | .getStringAt _, _, c | .get _, _, c
    | .set _ _, _, c => c

/-- The result is where the cursor says. -/
def At (c : Cursor) (s : Session) : Prop :=
  s.res.columns = c.columns ∧ s.res.pos = c.passed ∧ c.known ≤ s.res.rows.length

/-- A known row has a cell in every column. -/
theorem At.cell {c : Cursor} {s : Session} (h : At c s) (hpos : 0 < c.passed)
    (hle : c.passed ≤ c.known) {column : String} (hc : column ∈ c.columns) :
    ∃ v, s.res.cell column = some v := by
  obtain ⟨hcols, hpassed, hknown⟩ := h
  have hlt : s.res.pos - 1 < s.res.rows.length := by omega
  refine ⟨s.res.rows[s.res.pos - 1] column, ?_⟩
  rw [ResultSet.cell, hcols, if_pos hc, ResultSet.current, if_neg (by omega),
    List.getElem?_eq_getElem hlt]
  rfl

/-- An allowed operation succeeds, and the cursor follows it. -/
theorem At.step {db : Content} (op : Op) (c : Cursor) (s : Session) (h : At c s)
    (ha : guarded.allowed op c) :
    ∃ a s', step (answers db) op s = (some a, s') ∧ At (guarded.after op a c) s' := by
  cases op with
  | query q => exact ⟨(), _, rfl, rfl, rfl, Nat.zero_le _⟩
  | next => exact ⟨(), _, rfl, h.1, congrArg (· + 1) h.2.1, h.2.2⟩
  | rowsCount => exact ⟨_, _, rfl, h.1, h.2.1, le_rfl⟩
  | isNull column =>
    obtain ⟨v, hv⟩ := h.cell ha.1 ha.2.1 ha.2.2
    exact ⟨v.isNone, s, by simp [Report.step, hv], h⟩
  | getString column =>
    obtain ⟨v, hv⟩ := h.cell ha.1 ha.2.1 ha.2.2
    exact ⟨v.getD [], s, by simp [Report.step, hv], h⟩
  | getStringAt index =>
    obtain ⟨hpos, hle, hindex, hcols⟩ := ha
    obtain ⟨i, rfl⟩ := Nat.exists_eq_succ_of_ne_zero hindex.ne'
    obtain ⟨v, hv⟩ := h.cell hpos hle (List.getElem_mem hcols)
    refine ⟨v.getD [], s, ?_, h⟩
    simp [Report.step, ResultSet.columnAt, h.1, List.getElem?_eq_getElem hcols, hv]
  | get f => exact ⟨_, _, rfl, h⟩
  | set f v => exact ⟨(), _, rfl, h⟩

/-- A program that looks before it reads. -/
abbrev Looks (p : RowProg Unit) (c : Cursor) : Prop := p.Obeys guarded (fun _ => True) c

theorem looks_get {f : Field} {k : Bytes → RowProg Unit} {c : Cursor} (h : ∀ v, Looks (k v) c) :
    Looks (get f >>= k) c := ⟨trivial, h⟩

theorem looks_set_bind {f : Field} {v : Bytes} {k : Unit → RowProg Unit} {c : Cursor}
    (h : Looks (k ()) c) : Looks (set f v >>= k) c := ⟨trivial, fun _ => h⟩

theorem looks_set {f : Field} {v : Bytes} {c : Cursor} : Looks (set f v) c :=
  ⟨trivial, fun _ => trivial⟩

theorem looks_fetch {q : Query} {k : Unit → RowProg Unit} {c : Cursor}
    (h : Looks (k ()) ⟨q.columns, 1, 0⟩) : Looks (query q >>= fun _ => next >>= k) c :=
  ⟨trivial, fun _ => ⟨trivial, fun _ => h⟩⟩

/-- After the long test, either nothing is known, or there is a row to read from. -/
theorem looks_missing {column : String} {cs : List String} {k : Bool → RowProg Unit}
    (htrue : ∀ n, Looks (k true) ⟨column :: cs, 1, n⟩)
    (hfalse : ∀ n, 0 < n → Looks (k false) ⟨column :: cs, 1, n⟩) :
    Looks (missing column >>= k) ⟨column :: cs, 1, 0⟩ := by
  refine ⟨trivial, fun (n : Nat) => ?_⟩
  change Looks ((if n < 1 then pure true else blank column) >>= k) ⟨column :: cs, 1, n⟩
  split_ifs with hn
  · exact htrue n
  · have hn : 0 < n := by omega
    refine ⟨⟨Nat.one_pos, hn, List.mem_cons_self⟩, fun (b : Bool) => ?_⟩
    change Looks ((if b = true then pure true else do return (← getStringAt 1) = []) >>= k)
      ⟨column :: cs, 1, n⟩
    split_ifs with hb
    · exact htrue n
    · refine ⟨⟨Nat.one_pos, hn, Nat.one_pos, Nat.succ_pos _⟩, fun (v : Bytes) => ?_⟩
      change Looks (k (decide (v = []))) ⟨column :: cs, 1, n⟩
      cases hv : decide (v = []) with
      | true => exact htrue n
      | false => exact hfalse n hn

theorem looks_getString {column : String} {cs : List String} {k : Bytes → RowProg Unit} {n : Nat}
    (hn : 0 < n) (hc : column ∈ cs) (h : ∀ v, Looks (k v) ⟨cs, 1, n⟩) :
    Looks (getString column >>= k) ⟨cs, 1, n⟩ := ⟨⟨Nat.one_pos, hn, hc⟩, h⟩

theorem looks_getStringAt {column : String} {cs : List String} {k : Bytes → RowProg Unit} {n : Nat}
    (hn : 0 < n) (h : ∀ v, Looks (k v) ⟨column :: cs, 1, n⟩) :
    Looks (getStringAt 1 >>= k) ⟨column :: cs, 1, n⟩ :=
  ⟨⟨Nat.one_pos, hn, Nat.one_pos, Nat.succ_pos _⟩, h⟩

/-- The long test in front of a return. -/
theorem looks_unlessMissing {column : String} {cs : List String} {p : RowProg Unit}
    (hp : ∀ n, 0 < n → Looks p ⟨column :: cs, 1, n⟩) :
    Looks (missing column >>= fun b => if b = true then pure () else p) ⟨column :: cs, 1, 0⟩ :=
  looks_missing (fun _ => trivial) hp

theorem looks_setUnlessMissing (f : Field) {column : String} {cs : List String} :
    Looks (setUnlessMissing f column) ⟨column :: cs, 1, 0⟩ := by
  apply looks_unlessMissing
  intro n hn
  apply looks_getString hn List.mem_cons_self
  exact fun v => looks_set

/-- A look-up that passes the first column on. -/
theorem looks_chain {q : Query} {column : String} {cs : List String} {k : Bytes → RowProg Unit}
    {c : Cursor} (hq : q.columns = column :: cs)
    (hk : ∀ v n, 0 < n → Looks (k v) ⟨column :: cs, 1, n⟩) :
    Looks (query q >>= fun _ => next >>= fun _ => missing column >>= fun b =>
      if b = true then pure () else getStringAt 1 >>= k) c := by
  apply looks_fetch
  rw [hq]
  apply looks_unlessMissing
  intro n hn
  apply looks_getStringAt hn
  exact fun v => hk v n hn

/-- What follows may have lost track of the result. -/
theorem looks_seq {p : RowProg Unit} {k : Unit → RowProg Unit} {c : Cursor} (hp : Looks p c)
    (hk : ∀ c', Looks (k ()) c') : Looks (p >>= k) c :=
  Prog.Obeys.bind hp fun _ c' _ => hk c'

/-! ## The four passes -/

theorem dealWithApprovedStatus_looks (c : Cursor) : Looks dealWithApprovedStatus c := by
  apply looks_get
  intro id
  apply looks_chain rfl
  exact fun status n hn => looks_set

theorem dealWithTradeTermInfo_looks (c : Cursor) : Looks dealWithTradeTermInfo c := by
  apply looks_get
  intro id
  apply looks_chain rfl
  intro term n hn
  apply looks_fetch
  apply looks_unlessMissing
  intro n hn
  apply looks_getString hn List.mem_cons_self
  exact fun name => looks_set

theorem dealWithProductInfo_looks (c : Cursor) : Looks dealWithProductInfo c := by
  apply looks_get
  intro id
  apply looks_chain rfl
  intro item n hn
  apply looks_fetch
  apply looks_unlessMissing
  intro n hn
  apply looks_getString hn (List.mem_cons_of_mem _ List.mem_cons_self)
  intro code
  apply looks_set_bind
  apply looks_getString hn (List.mem_cons_of_mem _ (List.mem_cons_of_mem _ List.mem_cons_self))
  intro name
  apply looks_set_bind
  apply looks_getStringAt hn
  intro basic
  apply looks_chain rfl
  intro category n hn
  apply looks_chain rfl
  intro product n hn
  apply looks_fetch
  apply looks_unlessMissing
  exact fun _ _ => trivial

theorem setReceivingCountries_looks (cs : List String) :
    Looks setReceivingCountries ⟨"delivery_country_id" :: cs, 1, 0⟩ := by
  apply looks_unlessMissing
  intro n hn
  apply looks_getStringAt hn
  intro country
  exact looks_fetch (looks_setUnlessMissing _)

theorem setSalesCompanyName_looks (cs : List String) :
    Looks setSalesCompanyName ⟨"master_file_obj_id" :: cs, 1, 0⟩ := by
  apply looks_unlessMissing
  intro n hn
  apply looks_getStringAt hn
  intro company
  exact looks_fetch (looks_setUnlessMissing _)

theorem dealWithSalesCountry_looks (c : Cursor) : Looks dealWithSalesCountry c := by
  apply looks_get
  intro id
  apply looks_fetch
  apply looks_seq (setReceivingCountries_looks _)
  intro c
  apply looks_get
  intro id
  apply looks_fetch
  apply looks_seq (looks_setUnlessMissing _)
  intro c
  apply looks_get
  intro account
  apply looks_fetch
  apply looks_seq (looks_setUnlessMissing _)
  intro c
  apply looks_get
  intro employee
  exact looks_fetch (setSalesCompanyName_looks _)

/-- A pass that looks before it reads completes on every database. -/
theorem exec_of_looks {p : RowProg Unit} (h : ∀ c, Looks p c) (db : Content) (data : ReportData)
    (res : ResultSet) : (p.exec (step (answers db)) ⟨data, res⟩).1 = some () := by
  have hat : At ⟨res.columns, res.pos, 0⟩ ⟨data, res⟩ := ⟨rfl, rfl, Nat.zero_le _⟩
  obtain ⟨_, _, hrun⟩ : ∃ r s', p.exec (step (answers db)) ⟨data, res⟩ = (some r, s') :=
    (h _).exec At.step hat
  rw [hrun]

end AsioCoroFrame.Report
