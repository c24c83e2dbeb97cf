import AsioCoroFrame.Models.Report.Provenance

/-!
# Stale results

`query` swallows an exception of the driver, and the pass goes on with what an
earlier query has left in `m_res`. Each pass is walked through once. A value of
the wrong result is stored exactly when that result, one row further on, has
what the pass looks for after the query that has failed.
-/

namespace AsioCoroFrame.Report

/-! ## What a result shows -/

/-- The cursor is on a row, and the column exists. -/
def ResultSet.Readable (res : ResultSet) (column : String) : Prop :=
  ∃ cell, res.cell column = some cell

/-- The column has a value there. -/
def ResultSet.NotNull (res : ResultSet) (column : String) : Prop :=
  ∃ v, res.cell column = some (some v)

/-- The column has a value there, and the first column is not empty. -/
def ResultSet.Filled (res : ResultSet) (column : String) : Prop :=
  res.NotNull column ∧ ∃ cell, (res.columnAt 1).bind res.cell = some cell ∧ cell.getD [] ≠ []

theorem ResultSet.NotNull.readable {res : ResultSet} {column : String} (h : res.NotNull column) :
    res.Readable column := by
  obtain ⟨v, hv⟩ := h
  exact ⟨_, hv⟩

/-- A row that can be read has a first column, and belongs to the result. -/
theorem ResultSet.Readable.first {res : ResultSet} {column : String} (h : res.Readable column) :
    (∃ cell, (res.columnAt 1).bind res.cell = some cell) ∧ 0 < res.rows.length := by
  obtain ⟨cell, hcell⟩ := h
  simp only [ResultSet.cell, Option.ite_none_right_eq_some] at hcell
  obtain ⟨hmem, hrow⟩ := hcell
  obtain ⟨row, hcurrent, _⟩ := Option.map_eq_some_iff.mp hrow
  obtain ⟨first, rest, hcols⟩ := List.exists_cons_of_ne_nil (List.ne_nil_of_mem hmem)
  constructor
  · refine ⟨row first, ?_⟩
    have hfirst : res.columnAt 1 = some first := by simp [ResultSet.columnAt, hcols]
    simp [hfirst, ResultSet.cell, hcols, hcurrent]
  · simp only [ResultSet.current, Option.ite_none_left_eq_some] at hcurrent
    have := (List.getElem?_eq_some_iff.mp hcurrent.2).1
    omega

/-! ## Walking through a program -/

/-- The program follows `Offers`, and before its first query it assigns a member on just the results
that `W` tells. -/
def Walk (Offers : List String → ResultSet → Prop) (known : List Bytes) (p : RowProg Unit)
    (W : ResultSet → Prop) : Prop :=
  Follows Offers known p ∧ ∀ data res, takes p data res ↔ W res

section
variable {Offers : List String → ResultSet → Prop} {known : List Bytes} {W : ResultSet → Prop}

/-- More texts may be known. -/
theorem Follows.mono {p : RowProg Unit} {known known' : List Bytes}
    (hsub : ∀ v ∈ known, v ∈ known') (h : Follows Offers known p) : Follows Offers known' p := by
  induction p generalizing known known' with
  | done r => trivial
  | call op k ih =>
    have hcons {v : Bytes} : ∀ w ∈ v :: known, w ∈ v :: known' := fun w hw => by
      rcases List.mem_cons.mp hw with rfl | hw
      · exact List.mem_cons_self
      · exact List.mem_cons_of_mem v (hsub w hw)
    cases op with
    | query q => exact h
    | next => exact h
    | getString column => exact fun v => ih v hcons (h v)
    | getStringAt index => exact fun v => ih v hcons (h v)
    | set f v =>
      refine ⟨?_, ih () hsub h.2⟩
      rcases h.1 with hv | ⟨hf, w, hw, hv⟩
      · exact .inl (hsub v hv)
      · exact .inr ⟨hf, w, hsub w hw, hv⟩
    | rowsCount => exact fun n => ih n hsub (h n)
    | isNull column => exact fun b => ih b hsub (h b)
    | get f => exact fun v => ih v hsub (h v)

theorem Walk.mono {p : RowProg Unit} {known known' : List Bytes} (hsub : ∀ v ∈ known, v ∈ known')
    (h : Walk Offers known p W) : Walk Offers known' p W := ⟨h.1.mono hsub, h.2⟩

theorem Walk.congr {p : RowProg Unit} {W' : ResultSet → Prop} (h : Walk Offers known p W)
    (hW : ∀ res, W res ↔ W' res) : Walk Offers known p W' :=
  ⟨h.1, fun data res => (h.2 data res).trans (hW res)⟩

theorem walk_pure : Walk Offers known (pure ()) fun _ => False := ⟨trivial, fun _ _ => Iff.rfl⟩

theorem walk_query {q : Query} {k : Unit → RowProg Unit} (h : Walk Offers [] (k ()) W)
    (hW : ∀ res, W res ↔ Offers q.columns res) :
    Walk Offers known (query q >>= k) fun _ => False :=
  ⟨⟨fun data res => (h.2 data res).trans (hW res), h.1⟩, fun _ _ => Iff.rfl⟩

theorem walk_next {k : Unit → RowProg Unit} (h : Walk Offers [] (k ()) W) :
    Walk Offers known (next >>= k) fun res => W res.advanced :=
  ⟨h.1, fun data res => h.2 data res.advanced⟩

theorem walk_get {f : Field} {k : Bytes → RowProg Unit} (h : ∀ v, Walk Offers known (k v) W) :
    Walk Offers known (get f >>= k) W :=
  ⟨fun v => (h v).1, fun data res => (h (data f)).2 data res⟩

theorem walk_set_bind {f : Field} {v : Bytes} {k : Unit → RowProg Unit}
    (hv : Source (· ∈ known) f v) (h : Follows Offers known (k ())) :
    Walk Offers known (set f v >>= k) fun _ => True :=
  ⟨⟨hv, h⟩, fun _ _ => Iff.rfl⟩

theorem walk_set {f : Field} {v : Bytes} (hv : Source (· ∈ known) f v) :
    Walk Offers known (set f v) fun _ => True :=
  ⟨⟨hv, trivial⟩, fun _ _ => Iff.rfl⟩

theorem walk_getString {column : String} {k : Bytes → RowProg Unit}
    (h : ∀ v, Walk Offers (v :: known) (k v) W) :
    Walk Offers known (getString column >>= k) fun res => res.Readable column ∧ W res := by
  refine ⟨fun v => (h v).1, fun data res => ?_⟩
  constructor
  · rintro ⟨cell, hcell, ht⟩
    exact ⟨⟨cell, hcell⟩, ((h _).2 data res).mp ht⟩
  · rintro ⟨⟨cell, hcell⟩, hW⟩
    exact ⟨cell, hcell, ((h _).2 data res).mpr hW⟩

theorem walk_getStringAt {index : Nat} {k : Bytes → RowProg Unit}
    (h : ∀ v, Walk Offers (v :: known) (k v) W) :
    Walk Offers known (getStringAt index >>= k) fun res =>
      (∃ cell, (res.columnAt index).bind res.cell = some cell) ∧ W res := by
  refine ⟨fun v => (h v).1, fun data res => ?_⟩
  constructor
  · rintro ⟨cell, hcell, ht⟩
    exact ⟨⟨cell, hcell⟩, ((h _).2 data res).mp ht⟩
  · rintro ⟨⟨cell, hcell⟩, hW⟩
    exact ⟨cell, hcell, ((h _).2 data res).mpr hW⟩

/-- A text is read and assigned. -/
theorem walk_store (f : Field) (column : String) :
    Walk Offers known (getString column >>= fun v => set f v) (·.Readable column) :=
  (walk_getString fun _ => walk_set (.inl List.mem_cons_self)).congr fun _ => and_iff_left trivial

theorem walk_storeAt (f : Field) (index : Nat) :
    Walk Offers known (getStringAt index >>= fun v => set f v) fun res =>
      ∃ cell, (res.columnAt index).bind res.cell = some cell :=
  (walk_getStringAt fun _ => walk_set (.inl List.mem_cons_self)).congr fun _ => and_iff_left trivial

theorem walk_isNull {column : String} {k : Bool → RowProg Unit} {W' : ResultSet → Prop}
    (htrue : Walk Offers known (k true) W') (hfalse : Walk Offers known (k false) W) :
    Walk Offers known (isNull column >>= k) fun res =>
      res.cell column = some none ∧ W' res ∨ res.NotNull column ∧ W res := by
  refine ⟨fun b => ?_, fun data res => ?_⟩
  · cases b with
    | true => exact htrue.1
    | false => exact hfalse.1
  · constructor
    · rintro ⟨cell, hcell, ht⟩
      cases cell with
      | none => exact .inl ⟨hcell, (htrue.2 data res).mp ht⟩
      | some v => exact .inr ⟨⟨v, hcell⟩, (hfalse.2 data res).mp ht⟩
    · rintro (⟨hcell, hW⟩ | ⟨⟨v, hcell⟩, hW⟩)
      · exact ⟨none, hcell, (htrue.2 data res).mpr hW⟩
      · exact ⟨some v, hcell, (hfalse.2 data res).mpr hW⟩

/-- The two outcomes of a test that raises without a row. -/
def Branches (column : String) (W' W : ResultSet → Prop) (res : ResultSet) : Prop :=
  res.Readable column ∧ (res.Filled column ∧ W res ∨ ¬ res.Filled column ∧ W' res)

/-- The short test. -/
theorem walk_blank {column : String} {k : Bool → RowProg Unit} {W' : ResultSet → Prop}
    (htrue : Walk Offers known (k true) W') (hfalse : Walk Offers known (k false) W) :
    Walk Offers known (blank column >>= k) (Branches column W' W) := by
  have hfirst : Walk Offers known (getStringAt 1 >>= fun v => k (decide (v = []))) fun res =>
      ∃ cell, (res.columnAt 1).bind res.cell = some cell ∧
        (cell.getD [] = [] ∧ W' res ∨ cell.getD [] ≠ [] ∧ W res) := by
    refine ⟨fun v => ?_, fun data res => exists_congr fun cell => and_congr_right fun _ => ?_⟩
    · change Follows Offers (v :: known) (k (decide (v = [])))
      cases decide (v = []) with
      | true => exact htrue.1.mono fun _ => List.mem_cons_of_mem _
      | false => exact hfalse.1.mono fun _ => List.mem_cons_of_mem _
    · change takes (k (decide (cell.getD [] = []))) data res ↔ _
      by_cases hv : cell.getD [] = []
      · simpa [hv] using htrue.2 data res
      · simpa [hv] using hfalse.2 data res
  refine Walk.congr (walk_isNull (k := fun b => (if b = true then pure true else do
    return (← getStringAt 1) = []) >>= k) htrue hfirst) fun res => ?_
  constructor
  · rintro (⟨hcell, hW⟩ | ⟨hnull, cell, hcell, hor⟩)
    · refine ⟨⟨none, hcell⟩, .inr ⟨fun hfilled => ?_, hW⟩⟩
      obtain ⟨v, hv⟩ := hfilled.1
      rw [hcell] at hv
      cases hv
    · refine ⟨hnull.readable, ?_⟩
      rcases hor with ⟨hv, hW⟩ | ⟨hv, hW⟩
      · refine .inr ⟨fun hfilled => ?_, hW⟩
        obtain ⟨cell', hcell', hv'⟩ := hfilled.2
        obtain rfl := Option.some.inj (hcell.symm.trans hcell')
        exact hv' hv
      · exact .inl ⟨⟨hnull, cell, hcell, hv⟩, hW⟩
  · rintro ⟨hread, ⟨⟨hnull, cell, hcell, hv⟩, hW⟩ | ⟨hnot, hW⟩⟩
    · exact .inr ⟨hnull, cell, hcell, .inr ⟨hv, hW⟩⟩
    · obtain ⟨cell, hcell⟩ := hread.first.1
      obtain ⟨_ | v, hcolumn⟩ := hread
      · exact .inl ⟨hcolumn, hW⟩
      · refine .inr ⟨⟨v, hcolumn⟩, cell, hcell, .inl ⟨?_, hW⟩⟩
        by_contra hv
        exact hnot ⟨⟨v, hcolumn⟩, cell, hcell, hv⟩

/-- The long test, where nothing is assigned without a row. -/
theorem walk_missing {column : String} {k : Bool → RowProg Unit} {W' : ResultSet → Prop}
    (htrue : Walk Offers known (k true) W') (hrow : ∀ res, W' res → 0 < res.rows.length)
    (hfalse : Walk Offers known (k false) W) :
    Walk Offers known (missing column >>= k) (Branches column W' W) := by
  have hblank : Walk Offers known (blank column >>= k) (Branches column W' W) :=
    walk_blank htrue hfalse
  refine ⟨fun n => ?_, fun data res => ?_⟩
  · change Follows Offers known ((if n < 1 then pure true else blank column) >>= k)
    split
    · exact htrue.1
    · exact hblank.1
  · change takes ((if res.rows.length < 1 then pure true else blank column) >>= k) data res ↔ _
    split
    · rename_i hrows
      have hnone : ¬ 0 < res.rows.length := by omega
      refine (htrue.2 data res).trans ⟨fun hW => absurd (hrow res hW) hnone, fun h => ?_⟩
      exact absurd h.1.first.2 hnone
    · exact hblank.2 data res

theorem branches_false {column : String} (res : ResultSet) :
    Branches column (fun _ => False) W res ↔ res.Filled column ∧ W res := by
  simp only [Branches, and_false, or_false, and_iff_right_iff_imp]
  exact fun h => h.1.1.readable

/-- A test in front of a return. -/
theorem walk_unlessBlank {column : String} {p : RowProg Unit} (h : Walk Offers known p W) :
    Walk Offers known (blank column >>= fun b => if b = true then pure () else p) fun res =>
      res.Filled column ∧ W res := (walk_blank walk_pure h).congr branches_false

theorem walk_unlessMissing {column : String} {p : RowProg Unit} (h : Walk Offers known p W) :
    Walk Offers known (missing column >>= fun b => if b = true then pure () else p) fun res =>
      res.Filled column ∧ W res :=
  (walk_missing walk_pure (fun _ => False.elim) h).congr branches_false

theorem walk_unlessNull {column : String} {p : RowProg Unit} (h : Walk Offers known p W) :
    Walk Offers known (isNull column >>= fun b => if b = true then pure () else p) fun res =>
      res.NotNull column ∧ W res :=
  (walk_isNull walk_pure h).congr fun res => by simp

theorem walk_setUnlessMissing (f : Field) (column : String) :
    Walk Offers known (setUnlessMissing f column) (·.Filled column) := by
  refine Walk.congr (walk_unlessMissing (walk_store f column)) fun res => ?_
  exact and_iff_left_of_imp fun h => h.1.readable

theorem walk_setUnlessNull (f : Field) (column : String) :
    Walk Offers known (setUnlessNull f column) (·.NotNull column) := by
  refine Walk.congr (walk_unlessNull (walk_store f column)) fun res => ?_
  exact and_iff_left_of_imp fun h => h.readable

/-- The tests in front of more assignments. -/
theorem walk_setUnlessMissing_bind (f : Field) {column : String} {k : Unit → RowProg Unit}
    (h : Walk Offers known (k ()) W) (hrow : ∀ res, W res → 0 < res.rows.length) :
    Walk Offers known (setUnlessMissing f column >>= k) fun res =>
      res.Readable column ∧ (res.Filled column ∨ W res) := by
  have hset : Walk Offers known (getString column >>= fun v => set f v >>= k) fun res =>
      res.Readable column ∧ True :=
    walk_getString fun v => walk_set_bind (.inl List.mem_cons_self)
      (h.1.mono fun _ => List.mem_cons_of_mem v)
  have htest : Walk Offers known (missing column >>= fun b =>
      (if b = true then pure () else do set f (← getString column)) >>= k)
      (Branches column W fun res => res.Readable column ∧ True) := walk_missing h hrow hset
  rw [setUnlessMissing, bind_assoc]
  refine htest.congr fun res => ?_
  simp only [Branches, and_true]
  constructor
  · rintro ⟨hread, ⟨hfilled, _⟩ | ⟨_, hW⟩⟩
    · exact ⟨hread, .inl hfilled⟩
    · exact ⟨hread, .inr hW⟩
  · rintro ⟨hread, hor⟩
    by_cases hfilled : res.Filled column
    · exact ⟨hread, .inl ⟨hfilled, hread⟩⟩
    · exact ⟨hread, .inr ⟨hfilled, hor.resolve_left hfilled⟩⟩

theorem walk_setUnlessNull_bind (f : Field) {column : String} {k : Unit → RowProg Unit}
    (h : Walk Offers known (k ()) W) :
    Walk Offers known (setUnlessNull f column >>= k) fun res =>
      res.NotNull column ∨ res.Readable column ∧ W res := by
  have hset : Walk Offers known (getString column >>= fun v => set f v >>= k) fun res =>
      res.Readable column ∧ True :=
    walk_getString fun v => walk_set_bind (.inl List.mem_cons_self)
      (h.1.mono fun _ => List.mem_cons_of_mem v)
  refine Walk.congr (walk_isNull (k := fun b => (if b = true then pure () else do
    set f (← getString column)) >>= k) h hset) fun res => ?_
  constructor
  · rintro (⟨hcell, hW⟩ | ⟨hnull, _⟩)
    · exact .inr ⟨⟨none, hcell⟩, hW⟩
    · exact .inl hnull
  · rintro (hnull | ⟨⟨_ | v, hcell⟩, hW⟩)
    · exact .inr ⟨hnull, hnull.readable, trivial⟩
    · exact .inl ⟨hcell, hW⟩
    · exact .inr ⟨⟨v, hcell⟩, ⟨_, hcell⟩, trivial⟩

/-- A program that assigns nothing before its first query. -/
abbrev Quiet (Offers : List String → ResultSet → Prop) (known : List Bytes) (p : RowProg Unit) :
    Prop := Walk Offers known p fun _ => False

theorem quiet_getString {column : String} {k : Bytes → RowProg Unit}
    (h : ∀ v, Quiet Offers (v :: known) (k v)) : Quiet Offers known (getString column >>= k) :=
  (walk_getString h).congr fun _ => by rw [and_false]

theorem quiet_getStringAt {index : Nat} {k : Bytes → RowProg Unit}
    (h : ∀ v, Quiet Offers (v :: known) (k v)) : Quiet Offers known (getStringAt index >>= k) :=
  (walk_getStringAt h).congr fun _ => by rw [and_false]

theorem quiet_unlessMissing {column : String} {p : RowProg Unit} (h : Quiet Offers known p) :
    Quiet Offers known (missing column >>= fun b => if b = true then pure () else p) :=
  (walk_unlessMissing h).congr fun _ => by rw [and_false]

theorem quiet_unlessBlank {column : String} {p : RowProg Unit} (h : Quiet Offers known p) :
    Quiet Offers known (blank column >>= fun b => if b = true then pure () else p) :=
  (walk_unlessBlank h).congr fun _ => by rw [and_false]

theorem quiet_unlessNull {column : String} {p : RowProg Unit} (h : Quiet Offers known p) :
    Quiet Offers known (isNull column >>= fun b => if b = true then pure () else p) :=
  (walk_unlessNull h).congr fun _ => by rw [and_false]

/-- What follows assigns nothing before its next query. -/
theorem takes_bind {p : RowProg Unit} {k : Unit → RowProg Unit}
    (hk : ∀ data res, ¬ takes (k ()) data res) (data : ReportData) (res : ResultSet) :
    takes (p >>= k) data res ↔ takes p data res := by
  change takes (p.bind k) data res ↔ _
  induction p generalizing res with
  | done r => simpa [Prog.bind, takes] using hk data res
  | call op k' ih =>
    cases op with
    | query | set => exact Iff.rfl
    | next => exact ih () res.advanced
    | rowsCount => exact ih _ res
    | get f => exact ih _ res
    | isNull column => exact exists_congr fun cell => and_congr_right fun _ => ih _ res
    | getString column => exact exists_congr fun cell => and_congr_right fun _ => ih _ res
    | getStringAt index => exact exists_congr fun cell => and_congr_right fun _ => ih _ res

theorem follows_bind {p : RowProg Unit} {k : Unit → RowProg Unit} (hp : Follows Offers known p)
    (hk : Quiet Offers [] (k ())) : Follows Offers known (p >>= k) := by
  change Follows Offers known (p.bind k)
  induction p generalizing known with
  | done r => exact hk.1.mono (by simp)
  | call op k' ih =>
    cases op with
    | query q =>
      refine ⟨fun data res => ?_, ih () hp.2⟩
      exact (takes_bind (fun data res => (hk.2 data res).mp) data res).trans (hp.1 data res)
    | next => exact ih () hp
    | rowsCount | isNull | getString | getStringAt | get => exact fun a => ih a (hp a)
    | set f v => exact ⟨hp.1, ih () hp.2⟩

/-- One part after another, when the second one starts with a query. -/
theorem walk_seq {p : RowProg Unit} {k : Unit → RowProg Unit} (hp : Walk Offers known p W)
    (hk : Quiet Offers [] (k ())) : Walk Offers known (p >>= k) W :=
  ⟨follows_bind hp.1 hk, fun data res =>
    (takes_bind (fun data res => (hk.2 data res).mp) data res).trans (hp.2 data res)⟩

end

/-! ## What each pass looks for -/

/-- What a pass needs of a row, after a query and before the next one, to assign a member. -/
inductive Want where
  | readable (column : String)
  | notNull (column : String)
  | filled (column : String)
  /-- The name of a product. -/
  | product
  /-- Any number of an invoice, as long as the columns in front of it can be read. -/
  | invoice

def Want.Shows : Want → ResultSet → Prop
  | .readable column, res => res.Readable column
  | .notNull column, res => res.NotNull column
  | .filled column, res => res.Filled column
  | .product, res => res.Filled "item_basic_id" ∧ res.Readable "product_code"
  | .invoice, res => res.Readable "pi_no" ∧ (res.Filled "pi_no" ∨ res.NotNull "buyer_po" ∨
      res.Readable "buyer_po" ∧ res.NotNull "contract_no")

/-- What a pass looks for after a query for the given columns; after any other query it assigns
nothing before the next one. -/
def Pass.want : Pass → List String → Option Want
  | .salesInfo, ["full_name", "position_id"] => some (.readable "full_name")
  | .customerInfo, ["full_name", "area_id"] => some (.notNull "full_name")
  | .customerInfo, ["full_name"] => some (.notNull "full_name")
  | .customerInfo, ["short_name"] => some (.notNull "short_name")
  | .customerInfo, ["country_id", "trade_name"] => some (.filled "country_id")
  | .currencyInfo, ["code"] => some (.filled "code")
  | .paymentMethodInfo, ["name"] => some (.filled "name")
  | .productInfo, ["item_basic_id", "product_code", "product_name"] => some .product
  | .tradeTermInfo, ["short_name"] => some (.filled "short_name")
  | .salesCountry, ["full_name"] => some (.filled "full_name")
  | .salesCountry, ["sales_id"] => some (.filled "sales_id")
  | .salesCountry, ["employee_no"] => some (.filled "employee_no")
  | .salesCountry, ["short_name"] => some (.filled "short_name")
  | .approvedStatus, ["approval_status"] => some (.filled "approval_status")
  | .pi, ["pi_no", "buyer_po", "contract_no"] => some .invoice
  | _, _ => none

/-- A result that was left in `m_res` has, one row further on, what the pass looks for after a query
for the given columns. -/
def Pass.Offers (p : Pass) (columns : List String) (left : ResultSet) : Prop :=
  ∃ w, p.want columns = some w ∧ w.Shows left.advanced

section
variable {p : Pass} {known : List Bytes} {W : ResultSet → Prop} {q : Query}
  {k : Unit → RowProg Unit}

/-- A query after which nothing is assigned before the next one. -/
theorem quiet_lookup (hq : p.want q.columns = none) (h : Quiet p.Offers [] (k ())) :
    Quiet p.Offers known (query q >>= fun _ => next >>= k) := by
  refine walk_query (walk_next h) fun res => ?_
  simp [Pass.Offers, hq]

/-- A query whose answer is stored. -/
theorem quiet_asked {w : Want} (hq : p.want q.columns = some w)
    (h : Walk p.Offers [] (k ()) w.Shows) :
    Quiet p.Offers known (query q >>= fun _ => next >>= k) := by
  refine walk_query (walk_next h) fun res => ?_
  simp [Pass.Offers, hq]

end

/-! ## The nine passes -/

theorem dealWithSalesInfo_walk : Quiet (Pass.Offers .salesInfo) [] dealWithSalesInfo := by
  apply walk_get
  intro id
  apply quiet_lookup rfl
  apply quiet_getStringAt
  intro account
  apply quiet_lookup rfl
  apply quiet_getString
  intro employee
  apply quiet_asked rfl
  exact walk_store .salesFullName "full_name"

theorem dealWithCurrencyInfo_walk : Quiet (Pass.Offers .currencyInfo) [] dealWithCurrencyInfo := by
  apply walk_get
  intro id
  apply quiet_lookup rfl
  apply quiet_unlessBlank
  apply quiet_getStringAt
  intro currency
  apply quiet_asked rfl
  refine Walk.congr (walk_unlessBlank (walk_getString fun code =>
    walk_set_bind (.inl List.mem_cons_self) (walk_getString fun code =>
      walk_set_bind (.inl List.mem_cons_self) (walk_getString fun code =>
        walk_set (.inl List.mem_cons_self)).1).1)) fun res => ?_
  exact ⟨fun h => h.1, fun h => ⟨h, h.1.readable, trivial⟩⟩

theorem dealWithPaymentMethodInfo_walk :
    Quiet (Pass.Offers .paymentMethodInfo) [] dealWithPaymentMethodInfo := by
  apply walk_get
  intro id
  apply quiet_lookup rfl
  apply quiet_unlessMissing
  apply quiet_getStringAt
  intro method
  apply quiet_asked rfl
  refine Walk.congr (walk_unlessBlank (walk_store .paymentTermDesc "name")) fun res => ?_
  exact and_iff_left_of_imp fun h => h.1.readable

theorem dealWithTradeTermInfo_walk :
    Quiet (Pass.Offers .tradeTermInfo) [] dealWithTradeTermInfo := by
  apply walk_get
  intro id
  apply quiet_lookup rfl
  apply quiet_unlessMissing
  apply quiet_getStringAt
  intro term
  apply quiet_asked rfl
  exact walk_setUnlessMissing .priceCondition "short_name"

theorem dealWithApprovedStatus_walk :
    Quiet (Pass.Offers .approvedStatus) [] dealWithApprovedStatus := by
  apply walk_get
  intro id
  apply quiet_asked rfl
  refine Walk.congr (walk_unlessMissing (walk_getStringAt fun status =>
    walk_set (.inr ⟨rfl, status, List.mem_cons_self, rfl⟩))) fun res => ?_
  exact ⟨fun h => h.1, fun h => ⟨h, h.1.readable.first.1, trivial⟩⟩

theorem dealWithProductInfo_walk : Quiet (Pass.Offers .productInfo) [] dealWithProductInfo := by
  apply walk_get
  intro id
  apply quiet_lookup rfl
  apply quiet_unlessMissing
  apply quiet_getStringAt
  intro item
  apply quiet_asked rfl
  refine Walk.congr (walk_unlessMissing (walk_getString fun code =>
    walk_set_bind (.inl List.mem_cons_self) (walk_getString fun name =>
      walk_set_bind (.inl List.mem_cons_self) (quiet_getStringAt fun basic => ?_).1).1))
    fun res => ?_
  · apply quiet_lookup rfl
    apply quiet_unlessMissing
    apply quiet_getStringAt
    intro category
    apply quiet_lookup rfl
    apply quiet_unlessMissing
    apply quiet_getStringAt
    intro product
    apply quiet_lookup rfl
    apply quiet_unlessMissing
    exact walk_pure
  · exact and_congr_right fun _ => and_iff_left trivial

theorem setReceivingCountries_walk :
    Quiet (Pass.Offers .salesCountry) [] setReceivingCountries := by
  apply quiet_unlessMissing
  apply quiet_getStringAt
  intro country
  apply quiet_asked rfl
  exact walk_setUnlessMissing .receivingCountries "full_name"

theorem setSalesCompanyName_walk : Quiet (Pass.Offers .salesCountry) [] setSalesCompanyName := by
  apply quiet_unlessMissing
  apply quiet_getStringAt
  intro company
  apply quiet_asked rfl
  exact walk_setUnlessMissing .salesCompanyName "short_name"

theorem dealWithSalesCountry_walk : Quiet (Pass.Offers .salesCountry) [] dealWithSalesCountry := by
  apply walk_get
  intro id
  apply quiet_lookup rfl
  apply walk_seq setReceivingCountries_walk
  apply walk_get
  intro id
  apply quiet_asked rfl
  apply walk_seq (walk_setUnlessMissing .ownerSalesSysAccountId "sales_id")
  apply walk_get
  intro account
  apply quiet_asked rfl
  apply walk_seq (walk_setUnlessMissing .salesEmployeeId "employee_no")
  apply walk_get
  intro employee
  apply quiet_lookup rfl
  exact setSalesCompanyName_walk

theorem setImportArea_walk : Quiet (Pass.Offers .customerInfo) [] setImportArea := by
  apply quiet_unlessNull
  apply quiet_getString
  intro area
  apply quiet_asked rfl
  exact walk_setUnlessNull .importArea "short_name"

theorem setAccountName_follows (known : List Bytes) :
    Follows (Pass.Offers .customerInfo) known setAccountName := by
  intro (b : Bool)
  cases b with
  | true => trivial
  | false =>
    intro (name : Bytes)
    change Follows _ _ (if name = [] then pure () else getStringAt 2 >>= set .accountName)
    split
    · trivial
    · exact fun v => ⟨.inl List.mem_cons_self, trivial⟩

/-- The customer's country, from the query for the customer on. -/
theorem customer_walk (known : List Bytes) (id : Bytes) :
    Quiet (Pass.Offers .customerInfo) known (do
      query (customerQuery id)
      next
      if ← blank "country_id" then return
      set .countryId (← getStringAt 1)
      setAccountName
      query (countryQuery (← getStringAt 1))
      next
      if ← isNull "full_name" then return
      set .customerCountries (← getStringAt 1)
      if ← isNull "area_id" then return
      query (areaQuery "full_name" (← getStringAt 2))
      next
      if ← isNull "full_name" then return
      set .countryRegion (← getStringAt 1)) := by
  apply quiet_asked rfl
  refine Walk.congr (walk_unlessBlank (walk_getStringAt fun country =>
    walk_set_bind (.inl List.mem_cons_self) (follows_bind (setAccountName_follows _)
      (quiet_getStringAt fun country => ?_)))) fun res => ?_
  · apply quiet_asked rfl
    refine Walk.congr (walk_unlessNull (walk_getStringAt fun name =>
      walk_set_bind (.inl List.mem_cons_self)
        (quiet_unlessNull (quiet_getStringAt fun area => ?_)).1)) fun res => ?_
    · apply quiet_asked rfl
      refine Walk.congr (walk_unlessNull (walk_storeAt .countryRegion 1)) fun res => ?_
      exact and_iff_left_of_imp fun h => h.readable.first.1
    · exact ⟨fun h => h.1, fun h => ⟨h, h.readable.first.1, trivial⟩⟩
  · exact ⟨fun h => h.1, fun h => ⟨h, h.1.readable.first.1, trivial⟩⟩

theorem dealWithCustomerInfo_walk : Quiet (Pass.Offers .customerInfo) [] dealWithCustomerInfo := by
  apply walk_get
  intro id
  apply quiet_lookup rfl
  apply quiet_getStringAt
  intro country
  apply quiet_asked rfl
  apply walk_seq (walk_setUnlessNull .receivingCountries "full_name")
  apply walk_seq setImportArea_walk
  apply walk_get
  intro id
  apply quiet_lookup rfl
  apply quiet_unlessNull
  apply quiet_getStringAt
  exact fun customer => customer_walk _ customer

theorem dealWithPi_walk : Quiet (Pass.Offers .pi) [] dealWithPi := by
  apply walk_get
  intro id
  apply quiet_asked rfl
  refine walk_setUnlessMissing_bind .piNo (walk_setUnlessNull_bind .buyersPo
    (walk_setUnlessNull .contractNo "contract_no")) fun res hW => ?_
  rcases hW with hnull | ⟨hread, _⟩
  · exact hnull.readable.first.2
  · exact hread.first.2

/-- Every pass asks before it assigns anything, and stores what it has asked for last. -/
theorem Pass.body_walk (p : Pass) : Quiet p.Offers [] p.body := by
  cases p with
  | salesInfo => exact dealWithSalesInfo_walk
  | customerInfo => exact dealWithCustomerInfo_walk
  | currencyInfo => exact dealWithCurrencyInfo_walk
  | paymentMethodInfo => exact dealWithPaymentMethodInfo_walk
  | productInfo => exact dealWithProductInfo_walk
  | tradeTermInfo => exact dealWithTradeTermInfo_walk
  | salesCountry => exact dealWithSalesCountry_walk
  | approvedStatus => exact dealWithApprovedStatus_walk
  | pi => exact dealWithPi_walk

/-- Whatever queries fail, every value that a pass stores is from the answer to the query issued
last, exactly when no query fails while `m_res` has, one row further on, what the pass looks for
after that query. -/
theorem enrich_fromLatest_iff (p : Pass) (db : Nat → Database) (rows : List ReportData)
    (res : ResultSet) :
    FromLatest (enrichTraced db p.body rows (.start res)).2.log ↔
      Harmless p.Offers (enrichTraced db p.body rows (.start res)).2.log := by
  refine enrichTraced_fromLatest_iff db p.body_walk.1 (fun data res => (p.body_walk.2 data res).mp)
    rows le_rfl ?_
  simp [Traced.start, FromLatest, Harmless]

/-! ## A quotation with the invoice of another one -/

/-- A row with the number of an invoice. -/
def invoiceRow (number : String) : Row := fun column =>
  if column = "pi_no" then some (ascii number) else none

/-- The first query finds two invoices, and the second one fails. -/
def failingSecond : Nat → Database := fun n _ =>
  if n = 1 then some [invoiceRow "PI-1", invoiceRow "PI-2"] else none

/-- A row of the report with the number of its quotation. -/
def quotationRow (id : String) : ReportData := fun f => if f = .quotationId then ascii id else []

/-- The second quotation gets the second invoice of the first one. -/
theorem enrich_stale_invoice :
    let pass := enrichTraced failingSecond Pass.pi.body [quotationRow "A", quotationRow "B"]
      (.start ⟨[], [], 0⟩)
    pass.1.map (fun data => data .piNo) = [ascii "PI-1", ascii "PI-2"] ∧
      ¬ FromLatest pass.2.log := by
  intro pass
  have hstored : ∃ v res, .stored .piNo v res 1 2 ∈ pass.2.log :=
    ⟨_, _, List.mem_of_getElem? (i := 3) rfl⟩
  refine ⟨by decide, fun h => ?_⟩
  obtain ⟨v, res, hmem⟩ := hstored
  exact absurd (h _ _ _ _ _ hmem).1 (by decide)

end AsioCoroFrame.Report
