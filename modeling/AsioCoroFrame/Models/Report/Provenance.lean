import AsioCoroFrame.Models.Report.Passes

/-!
# Where a stored value comes from

The queries of a pass are numbered, and the session remembers which of them the
result in `m_res` answers; a failed query leaves the answer to an earlier one
there. A program is walked through once to find what each query is followed by:
whether, with a given result in `m_res`, a member is assigned before the next
query. From that one reads off when a run stores a value of a stale result.
-/

namespace AsioCoroFrame.Report

/-- The cursor on the next row. -/
def ResultSet.advanced (res : ResultSet) : ResultSet := { res with pos := res.pos + 1 }

/-! ## The run of a pass with its provenance -/

/-- What a pass does, in order. -/
inductive Event where
  /-- A query, with the result it finds in `m_res`, and whether it is answered. -/
  | asked (q : Query) (left : ResultSet) (answered : Bool)
  /-- A member gets a value while `m_res` is the answer to the query number `source`, the last of
  `issued` queries so far. -/
  | stored (f : Field) (v : Bytes) (res : ResultSet) (source issued : Nat)

/-- A session with the number of its queries, the number of the one that `m_res` answers, and what
has been done. -/
structure Traced where
  session : Session
  issued : Nat
  source : Nat
  log : List Event

/-- One operation. Every query meets a database of its own, so that any of them may fail. -/
def traced (db : Nat → Database) : (op : Op) → Traced → Option (Ans op) × Traced
  | .query q, s =>
    let n := s.issued + 1
    let answered := (db n q.text).isSome
    let r := step (db n) (.query q) s.session
    (r.1, ⟨r.2, n, if answered then n else s.source,
      s.log ++ [.asked q s.session.res answered]⟩)
  | .set f v, s =>
    let r := step (db s.issued) (.set f v) s.session
    (r.1, { s with session := r.2, log := s.log ++ [.stored f v s.session.res s.source s.issued] })
  | op, s =>
    let r := step (db s.issued) op s.session
    (r.1, { s with session := r.2 })

/-- `enrich`, with provenance. -/
def enrichTraced (db : Nat → Database) (body : RowProg Unit) :
    List ReportData → Traced → List ReportData × Traced
  | [], s => ([], s)
  | data :: rows, s =>
    match body.exec (traced db) { s with session := ⟨data, s.session.res⟩ } with
    | (some (), s') => (s'.session.data :: (enrichTraced db body rows s').1,
        (enrichTraced db body rows s').2)
    | (none, s') => (s'.session.data :: rows, s')

/-- The start of a pass: its queries are numbered from one, and `m_res` is the answer to an earlier
query. -/
def Traced.start (res : ResultSet) : Traced := ⟨⟨fun _ => [], res⟩, 0, 0, []⟩

/-- With one database for all queries the pass is the one without provenance. -/
theorem enrichTraced_fst (db : Database) (body : RowProg Unit) (rows : List ReportData)
    (s : Traced) :
    (enrichTraced (fun _ => db) body rows s).1 = (enrich db body rows s.session.res).1 := by
  have hstep (op : Op) (s : Traced) : (traced (fun _ => db) op s).1 = (step db op s.session).1 ∧
      (traced (fun _ => db) op s).2.session = (step db op s.session).2 := by
    cases op <;> exact ⟨rfl, rfl⟩
  induction rows generalizing s with
  | nil => rfl
  | cons data rows ih =>
    obtain ⟨hans, hsession⟩ := Prog.exec_project Traced.session hstep body
      { s with session := ⟨data, s.session.res⟩ }
    dsimp only at hans hsession
    rw [enrichTraced, enrich]
    generalize body.exec (traced fun _ => db) { s with session := ⟨data, s.session.res⟩ } = rt at *
    generalize body.exec (step db) ⟨data, s.session.res⟩ = rs at *
    obtain ⟨ans, t⟩ := rt
    obtain ⟨ans', s'⟩ := rs
    obtain rfl : ans = ans' := hans
    obtain rfl : t.session = s' := hsession
    cases ans with
    | none => rfl
    | some _ => exact congrArg (_ :: ·) (ih t)

/-! ## What a query is followed by -/

/-- Whether a program assigns a member before its next query, on the result `res`. -/
def takes : RowProg Unit → ReportData → ResultSet → Prop
  | .done _, _, _ => False
  | .call (.query _) _, _, _ => False
  | .call (.set _ _) _, _, _ => True
  | .call .next k, data, res => takes (k ()) data res.advanced
  | .call .rowsCount k, data, res => takes (k res.rows.length) data res
  | .call (.isNull column) k, data, res =>
    ∃ cell, res.cell column = some cell ∧ takes (k cell.isNone) data res
  | .call (.getString column) k, data, res =>
    ∃ cell, res.cell column = some cell ∧ takes (k (cell.getD [])) data res
  | .call (.getStringAt index) k, data, res =>
    ∃ cell, (res.columnAt index).bind res.cell = some cell ∧ takes (k (cell.getD [])) data res
  | .call (.get f) k, data, res => takes (k (data f)) data res

/-- A text of the row that the cursor is on. -/
def ReadFrom (res : ResultSet) (v : Bytes) : Prop :=
  ∃ column cell, res.cell column = some cell ∧ v = cell.getD []

/-- A text that belongs to a member, or the status that such a text stands for. -/
def Source (texts : Bytes → Prop) (f : Field) (v : Bytes) : Prop :=
  texts v ∨ f = .approvalStatus ∧ ∃ w, texts w ∧ v = approvalStatus w

/-- Every query of the program is followed by an assignment on just the results that `Offers` tells
for its columns, and only texts of the row that the cursor is on are assigned, `known` being those
that have been read. -/
def Follows (Offers : List String → ResultSet → Prop) : List Bytes → RowProg Unit → Prop
  | _, .done _ => True
  | _, .call (.query q) k =>
    (∀ data res, takes (k ()) data res ↔ Offers q.columns res) ∧ Follows Offers [] (k ())
  | _, .call .next k => Follows Offers [] (k ())
  | known, .call (.getString _) k => ∀ v, Follows Offers (v :: known) (k v)
  | known, .call (.getStringAt _) k => ∀ v, Follows Offers (v :: known) (k v)
  | known, .call (.set f v) k => Source (· ∈ known) f v ∧ Follows Offers known (k ())
  | known, .call .rowsCount k => ∀ n, Follows Offers known (k n)
  | known, .call (.isNull _) k => ∀ b, Follows Offers known (k b)
  | known, .call (.get _) k => ∀ v, Follows Offers known (k v)

/-! ## Runs -/

/-- Every value was stored from the row that the cursor was on, in the answer to the query issued
last. -/
def FromLatest (log : List Event) : Prop :=
  ∀ f v res source issued, .stored f v res source issued ∈ log →
    source = issued ∧ Source (ReadFrom res) f v

/-- No query has failed and left a result in `m_res` that `Offers` tells. -/
def Harmless (Offers : List String → ResultSet → Prop) (log : List Event) : Prop :=
  ∀ q left, .asked q left false ∈ log → ¬ Offers q.columns left

variable {Offers : List String → ResultSet → Prop} {log : List Event}

theorem fromLatest_asked {q : Query} {left : ResultSet} {answered : Bool} :
    FromLatest (log ++ [.asked q left answered]) ↔ FromLatest log := by
  simp [FromLatest]

theorem fromLatest_stored {f : Field} {v : Bytes} {res : ResultSet} {source issued : Nat} :
    FromLatest (log ++ [.stored f v res source issued]) ↔
      FromLatest log ∧ source = issued ∧ Source (ReadFrom res) f v := by
  constructor
  · intro h
    exact ⟨fun g w r n m hmem => h g w r n m (List.mem_append_left _ hmem),
      h f v res source issued (List.mem_append_right _ List.mem_cons_self)⟩
  · rintro ⟨hlog, hnew⟩ g w r n m hmem
    rcases List.mem_append.mp hmem with hmem | hmem
    · exact hlog g w r n m hmem
    · cases List.mem_singleton.mp hmem
      exact hnew

theorem harmless_asked {q : Query} {left : ResultSet} {answered : Bool} :
    Harmless Offers (log ++ [.asked q left answered]) ↔
      Harmless Offers log ∧ (answered = false → ¬ Offers q.columns left) := by
  constructor
  · intro h
    refine ⟨fun r l hmem => h r l (List.mem_append_left _ hmem), ?_⟩
    rintro rfl
    exact h q left (List.mem_append_right _ List.mem_cons_self)
  · rintro ⟨hlog, hnew⟩ r l hmem
    rcases List.mem_append.mp hmem with hmem | hmem
    · exact hlog r l hmem
    · cases List.mem_singleton.mp hmem
      exact hnew rfl

theorem harmless_stored {f : Field} {v : Bytes} {res : ResultSet} {source issued : Nat} :
    Harmless Offers (log ++ [.stored f v res source issued]) ↔ Harmless Offers log := by
  simp [Harmless]

/-- Up to here the log is as it should be, and remains so unless the program now assigns a value of
a stale result, exactly when no query has failed harmfully. -/
def Balanced (Offers : List String → ResultSet → Prop) (p : RowProg Unit) (s : Traced) : Prop :=
  s.source ≤ s.issued ∧
    ((FromLatest s.log ∧ ¬ (s.source ≠ s.issued ∧ takes p s.session.data s.session.res)) ↔
      Harmless Offers s.log)

/-- The balance at the end of a program. -/
theorem balanced_done {s : Traced} : Balanced Offers (.done ()) s ↔
    s.source ≤ s.issued ∧ (FromLatest s.log ↔ Harmless Offers s.log) := by
  simp only [Balanced, takes, and_false, not_false_eq_true, and_true]

/-- Only what the program takes of the result matters. -/
theorem Balanced.of_takes {p p' : RowProg Unit} {s : Traced} (h : Balanced Offers p s)
    (htakes : takes p' s.session.data s.session.res ↔ takes p s.session.data s.session.res) :
    Balanced Offers p' s := by
  rw [Balanced, htakes]
  exact h

/-- The program follows `Offers` with the texts of the current row that it has read, and the log is
in balance. -/
def Tracked (Offers : List String → ResultSet → Prop) (p : RowProg Unit) (s : Traced) : Prop :=
  ∃ known, Follows Offers known p ∧ (∀ v ∈ known, ReadFrom s.session.res v) ∧ Balanced Offers p s

section
variable (db : Nat → Database) {s : Traced}

/-- A query that is answered makes the result the latest one; one that fails must not find a result
that the program would take values of. -/
theorem Tracked.query {q : Query} {k : Unit → RowProg Unit}
    (h : Tracked Offers (.call (.query q) k) s) :
    ∃ s', traced db (.query q) s = (some (), s') ∧ Tracked Offers (k ()) s' := by
  obtain ⟨known, ⟨htakes, hk⟩, _, hle, hiff⟩ := h
  simp only [takes, and_false, not_false_eq_true, and_true] at hiff
  cases hdb : db (s.issued + 1) q.text with
  | some rows =>
    refine ⟨⟨{ s.session with res := .opened q rows }, s.issued + 1, s.issued + 1,
      s.log ++ [.asked q s.session.res true]⟩, by simp [traced, step, hdb], [], hk, by simp,
      le_rfl, ?_⟩
    simp only [fromLatest_asked, harmless_asked, ne_eq, not_true_eq_false, false_and,
      not_false_eq_true, and_true, reduceCtorEq, false_imp_iff]
    exact hiff
  | none =>
    have hne : s.source ≠ s.issued + 1 := by omega
    refine ⟨⟨s.session, s.issued + 1, s.source, s.log ++ [.asked q s.session.res false]⟩,
      by simp [traced, step, hdb], [], hk, by simp, Nat.le_succ_of_le hle, ?_⟩
    simp only [fromLatest_asked, harmless_asked, ne_eq, hne, not_false_eq_true, true_and,
      forall_true_left, htakes]
    exact and_congr hiff Iff.rfl

/-- An assignment takes a text of the current row, and is stale when the result is. -/
theorem Tracked.set {f : Field} {v : Bytes} {k : Unit → RowProg Unit}
    (h : Tracked Offers (.call (.set f v) k) s) :
    Tracked Offers (k ()) (traced db (.set f v) s).2 := by
  obtain ⟨known, ⟨hv, hk⟩, hknown, hle, hiff⟩ := h
  simp only [takes, and_true, ne_eq, not_not] at hiff
  have hsource : Source (ReadFrom s.session.res) f v := by
    rcases hv with hv | ⟨hf, w, hw, hv⟩
    · exact .inl (hknown v hv)
    · exact .inr ⟨hf, w, hknown w hw, hv⟩
  refine ⟨known, hk, hknown, hle, ?_⟩
  change (FromLatest (s.log ++ [.stored f v s.session.res s.source s.issued]) ∧ _) ↔
    Harmless Offers (s.log ++ [.stored f v s.session.res s.source s.issued])
  rw [fromLatest_stored, harmless_stored, ← hiff]
  tauto

/-- A program that reads a cell ends there when the row or the column is missing, and goes on with
what it has read otherwise. -/
theorem Balanced.read {op : Op} {k : Ans op → RowProg Unit} {cell : Option (Option Bytes)}
    {answer : Option Bytes → Ans op} (h : Balanced Offers (.call op k) s)
    (hstep : traced db op s = (cell.map answer, s))
    (htakes : takes (.call op k) s.session.data s.session.res ↔
      ∃ c, cell = some c ∧ takes (k (answer c)) s.session.data s.session.res)
    (hread : ∀ c, cell = some c → ∃ known, Follows Offers known (k (answer c)) ∧
      ∀ v ∈ known, ReadFrom s.session.res v) :
    match traced db op s with
    | (some a, s') => Tracked Offers (k a) s'
    | (none, s') => Balanced Offers (.done ()) s' := by
  rw [hstep]
  cases cell with
  | none => exact h.of_takes (by simp [htakes, takes])
  | some c =>
    obtain ⟨known, hk, hknown⟩ := hread c rfl
    exact ⟨known, hk, hknown, h.of_takes (by simp [htakes])⟩

/-- One operation keeps the balance. -/
theorem Tracked.step {op : Op} {k : Ans op → RowProg Unit} (h : Tracked Offers (.call op k) s) :
    match traced db op s with
    | (some a, s') => Tracked Offers (k a) s'
    | (none, s') => Balanced Offers (.done ()) s' := by
  cases op with
  | query q =>
    obtain ⟨s', hstep, hs'⟩ := h.query db
    rw [hstep]
    exact hs'
  | set f v => exact h.set db
  | next =>
    obtain ⟨known, hp, _, hbalanced⟩ := h
    exact ⟨[], hp, by simp, hbalanced⟩
  | rowsCount =>
    obtain ⟨known, hp, hknown, hbalanced⟩ := h
    exact ⟨known, hp _, hknown, hbalanced⟩
  | get f =>
    obtain ⟨known, hp, hknown, hbalanced⟩ := h
    exact ⟨known, hp _, hknown, hbalanced⟩
  | isNull column =>
    obtain ⟨known, hp, hknown, hbalanced⟩ := h
    exact hbalanced.read db rfl Iff.rfl fun c _ => ⟨known, hp _, hknown⟩
  | getString column =>
    obtain ⟨known, hp, hknown, hbalanced⟩ := h
    exact hbalanced.read db rfl Iff.rfl fun c hc =>
      ⟨_, hp _, List.forall_mem_cons.mpr ⟨⟨column, c, hc, rfl⟩, hknown⟩⟩
  | getStringAt index =>
    obtain ⟨known, hp, hknown, hbalanced⟩ := h
    refine hbalanced.read db rfl Iff.rfl fun c hc => ?_
    obtain ⟨column, _, hcolumn⟩ := Option.bind_eq_some_iff.mp hc
    exact ⟨_, hp _, List.forall_mem_cons.mpr ⟨⟨column, c, hcolumn, rfl⟩, hknown⟩⟩

/-- A run keeps the balance. -/
theorem Tracked.exec {p : RowProg Unit} (h : Tracked Offers p s) :
    Balanced Offers (.done ()) (p.exec (traced db) s).2 := by
  induction p generalizing s with
  | done r => exact h.choose_spec.2.2
  | call op k ih =>
    have hstep := h.step db
    rw [Prog.exec]
    generalize traced db op s = r at hstep
    obtain ⟨_ | a, s'⟩ := r
    · exact hstep
    · exact ih a hstep

end

/-- Along a pass whose programs start with a query, values are stale exactly when a query has failed
harmfully. -/
theorem enrichTraced_fromLatest_iff (db : Nat → Database) {body : RowProg Unit}
    (hbody : Follows Offers [] body) (hstart : ∀ data res, ¬ takes body data res)
    (rows : List ReportData) {s : Traced} (hle : s.source ≤ s.issued)
    (hlog : FromLatest s.log ↔ Harmless Offers s.log) :
    FromLatest (enrichTraced db body rows s).2.log ↔
      Harmless Offers (enrichTraced db body rows s).2.log := by
  induction rows generalizing s with
  | nil => exact hlog
  | cons data rows ih =>
    have htracked : Tracked Offers body { s with session := ⟨data, s.session.res⟩ } :=
      ⟨[], hbody, by simp, hle, by simpa [hstart] using hlog⟩
    obtain ⟨hle', hlog'⟩ := balanced_done.mp (htracked.exec db)
    rw [enrichTraced]
    generalize body.exec (traced db) { s with session := ⟨data, s.session.res⟩ } = r at *
    obtain ⟨_ | _, s'⟩ := r
    · exact hlog'
    · exact ih hle' hlog'

end AsioCoroFrame.Report
