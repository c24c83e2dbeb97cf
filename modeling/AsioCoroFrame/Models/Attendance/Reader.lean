import AsioCoroFrame.Core.Lists
import AsioCoroFrame.Models.Cluster.Reply
import Mathlib.Data.List.Range
import Mathlib.Logic.Function.Basic

/-!
# Reading the attendance sheet

Two callbacks fill a static record through a shared pointer: a cell stores its
text in the field of its column, the end of a row publishes the pointer and
allocates the next record. Records live on a heap here, so that a record which
is published and written to again would be seen.
-/

namespace AsioCoroFrame.Attendance

open Cluster (cString)

/-- `report_data`. -/
structure ReportData where
  group : Bytes
  number : Bytes
  id : Bytes
  name : Bytes
  dates : Bytes
  on_duty : Bytes
  on_duty_desc : Bytes
  off_duty : Bytes
  off_duty_desc : Bytes
  come_late : Bytes
  leave_early : Bytes
  extra_work : Bytes
  away_from_work : Bytes
  without_clock_in : Bytes
  deriving DecidableEq, Repr

/-- The record whose fields are the texts of the columns from 1 to 14. -/
def ReportData.ofColumns (f : Nat → Bytes) : ReportData :=
  ⟨f 1, f 2, f 3, f 4, f 5, f 6, f 7, f 8, f 9, f 10, f 11, f 12, f 13, f 14⟩

/-- `new report_data()`. -/
def ReportData.new : ReportData := .ofColumns fun _ => []

/-- The `switch` over the column. -/
def ReportData.setColumn (col : Nat) (temp : Bytes) (r : ReportData) : ReportData :=
  match col with
  | 1 => { r with group := temp }
  | 2 => { r with number := temp }
  | 3 => { r with id := temp }
  | 4 => { r with name := temp }
  | 5 => { r with dates := temp }
  | 6 => { r with on_duty := temp }
  | 7 => { r with on_duty_desc := temp }
  | 8 => { r with off_duty := temp }
  | 9 => { r with off_duty_desc := temp }
  | 10 => { r with come_late := temp }
  | 11 => { r with leave_early := temp }
  | 12 => { r with extra_work := temp }
  | 13 => { r with away_from_work := temp }
  | 14 => { r with without_clock_in := temp }
  | _ => r

/-- The static members of `XLSXIOReader` and the records they point to. -/
structure ReaderState where
  /-- Every record allocated so far; a pointer is its position. -/
  heap : List ReportData
  /-- `m_row_data`. -/
  rowData : Option Nat
  /-- `m_data`. -/
  data : List Nat
  deriving DecidableEq, Repr

/-- The initial values of the static members. -/
def initial : ReaderState := ⟨[.new], some 0, []⟩

/-- The text of a cell, which may be `NULL`. -/
def cellText : Option Bytes → Bytes
  | some value => cString value
  | none => []

/-- `cell_callback`; the row number is not used. -/
def ReaderState.cellCallback (s : ReaderState) (col : Nat) (value : Option Bytes) : ReaderState :=
  match s.rowData with
  | none => s
  | some p => { s with heap := s.heap.modify p (ReportData.setColumn col (cellText value)) }

/-- `row_callback`; the row number and the last column are not used. -/
def ReaderState.rowCallback (s : ReaderState) : ReaderState :=
  let s' := { s with heap := s.heap ++ [.new], rowData := some s.heap.length }
  match s.rowData with
  | none => s'
  | some p => { s' with data := s.data ++ [p] }

/-- A cell of a row: its column and its value. -/
abbrev Cell := Nat × Option Bytes

/-- The callbacks of `xlsxioread_process`. -/
inductive Callback where
  | cell (c : Cell)
  | row
  deriving DecidableEq, Repr

/-- One callback. -/
def ReaderState.call (s : ReaderState) : Callback → ReaderState
  | .cell (col, value) => s.cellCallback col value
  | .row => s.rowCallback

/-- The callbacks for one row. -/
def rowCallbacks (cells : List Cell) : List Callback := cells.map .cell ++ [.row]

/-- `process_data` on a sheet with these rows. -/
def processData (rows : List (List Cell)) : ReaderState :=
  (rows.flatMap rowCallbacks).foldl ReaderState.call initial

/-- The records behind `m_data`. -/
def ReaderState.records (s : ReaderState) : List ReportData := s.data.filterMap (s.heap[·]?)

/-! ## One record -/

/-- The text last given for a column; nothing given means empty. -/
def lastText (cells : List Cell) (col : Nat) : Bytes :=
  match (cells.filter (·.1 = col)).getLast? with
  | some (_, value) => cellText value
  | none => []

/-- The record of a row's own cells. -/
def rowRecord (cells : List Cell) : ReportData := .ofColumns (lastText cells)

/-- A cell changes the text of its column only; other columns are no fields. -/
theorem ReportData.setColumn_ofColumns (col : Nat) (temp : Bytes) (f : Nat → Bytes) :
    setColumn col temp (ofColumns f) = ofColumns (Function.update f col temp) := by
  unfold setColumn
  split <;> grind [ofColumns, Function.update_apply]

theorem lastText_concat (cells : List Cell) (c : Cell) :
    lastText (cells ++ [c]) = Function.update (lastText cells) c.1 (cellText c.2) := by
  ext1 col
  by_cases h : c.1 = col
  · simp [lastText, ← h]
  · simp [lastText, h, Function.update_of_ne (Ne.symm h)]

/-- A text read from the sheet holds no NUL byte, so it is written as it is. -/
theorem cString_lastText (cells : List Cell) (col : Nat) :
    cString (lastText cells col) = lastText cells col := by
  unfold lastText
  split
  · rename_i value _
    cases value with
    | none => rfl
    | some v => exact Cluster.cString_cString v
  · rfl

/-- One more cell stores its text in the record. -/
theorem rowRecord_concat (cells : List Cell) (c : Cell) :
    rowRecord (cells ++ [c]) = (rowRecord cells).setColumn c.1 (cellText c.2) := by
  rw [rowRecord, rowRecord, ReportData.setColumn_ofColumns, lastText_concat]

/-! ## The callbacks of a sheet -/

/-- The state between two rows: the published records in order, and one that is not published. -/
def between (published : List ReportData) (current : ReportData) : ReaderState :=
  ⟨published ++ [current], some published.length, List.range published.length⟩

/-- The cells of a row fill the record that is not published. -/
theorem foldl_cells (published : List ReportData) (cells : List Cell) :
    (cells.map Callback.cell).foldl ReaderState.call (between published .new) =
      between published (rowRecord cells) := by
  induction cells using List.reverseRecOn with
  | nil => rfl
  | append_singleton cells c ih =>
    rw [List.map_append, List.foldl_append, ih, rowRecord_concat]
    simp [between, ReaderState.call, ReaderState.cellCallback, modify_length_concat]

/-- The end of a row publishes that record, and the next row starts with a new one. -/
theorem foldl_row (published : List ReportData) (cells : List Cell) :
    (rowCallbacks cells).foldl ReaderState.call (between published .new) =
      between (published ++ [rowRecord cells]) .new := by
  rw [rowCallbacks, List.foldl_append, foldl_cells]
  simp [between, ReaderState.call, ReaderState.rowCallback, List.range_succ]

/-- A sheet publishes one record for each row, made of that row's own cells. -/
theorem processData_eq (rows : List (List Cell)) :
    processData rows = between (rows.map rowRecord) .new := by
  induction rows using List.reverseRecOn with
  | nil => rfl
  | append_singleton rows cells ih =>
    rw [processData] at ih
    rw [processData, List.flatMap_append, List.foldl_append, ih, List.flatMap_singleton,
      foldl_row, List.map_append, List.map_singleton]

theorem filterMap_range_getElem? {α : Type} (l m : List α) :
    (List.range l.length).filterMap ((l ++ m)[·]?) = l := by
  induction l using List.reverseRecOn generalizing m with
  | nil => rfl
  | append_singleton l x ih =>
    have hlast : (l ++ [x] ++ m)[l.length]? = some x := by simp
    rw [List.length_append, List.length_singleton, List.range_succ, List.filterMap_append,
      List.append_assoc, ih, ← List.append_assoc, List.filterMap_cons, hlast]
    rfl

/-- The records read are those of the rows, in order. -/
theorem processData_records (rows : List (List Cell)) :
    (processData rows).records = rows.map rowRecord := by
  rw [processData_eq, ReaderState.records, between]
  exact filterMap_range_getElem? ..

end AsioCoroFrame.Attendance
