import AsioCoroFrame.Core.Numeral
import AsioCoroFrame.Models.Attendance.Reader

/-!
# Writing the attendance report

`write_to_excel` sends cells and row ends to the sheet writer from two functions.
The sheet is read off the sequence of these calls: the header, two rows for
each record after the first, and one empty row. The date goes through `sscanf`
into variables that are not initialised, whose contents stay a parameter.
-/

namespace AsioCoroFrame.Attendance

open Cluster (cString)

/-! ## Dates -/

/-- The fields of `struct tm` that `StringToDatetime` sets. -/
structure Tm where
  tm_year : Int
  tm_mon : Int
  tm_mday : Int
  tm_hour : Int
  tm_min : Int
  tm_sec : Int
  tm_isdst : Int
  deriving DecidableEq, Repr

/-- `%d`: blanks, a sign and at least one digit; a number that is no `int` keeps its value. -/
def scanInt (s : Bytes) : Option (Int × Bytes) :=
  let (neg, body) := scanSign (s.dropWhile isSpace)
  let ds := body.takeWhile (isDigit 10)
  let v : Int := if neg then -(digitsValue 10 ds : Int) else digitsValue 10 ds
  if ds = [] then none else some (v, body.dropWhile (isDigit 10))

/-- The values of `year`, `month` and `day`. -/
abbrev Ymd := Int × Int × Int

/-- `sscanf(str, "%d-%d-%d", &year, &month, &day)`: what is not matched is not assigned. -/
def sscanfDate (str : Bytes) : Ymd → Ymd
  | (year, month, day) =>
    match scanInt str with
    | some (y, 45 :: str) =>
      match scanInt str with
      | some (m, 45 :: str) =>
        match scanInt str with
        | some (d, _) => (y, m, d)
        | none => (y, m, day)
      | some (m, _) => (y, m, day)
      | none => (y, month, day)
    | some (y, _) => (y, month, day)
    | none => (year, month, day)

/-- `StringToDatetime`; the three variables start as `uninit`. -/
def stringToDatetime (mktime : Tm → Int) (uninit : Ymd) (str : Bytes) : Int :=
  let (year, month, day) := sscanfDate str uninit
  mktime ⟨year - 1900, month - 1, day, 8, 0, 0, 0⟩

/-- The text of a date without its last byte; the count of an empty text wraps to all of it. -/
def tempDate (dates : Bytes) : Bytes := dates.take (sizeSub dates.length 1)

/-! ## The calls of the writer -/

/-- A cell of the sheet. -/
inductive SheetCell where
  /-- `xlsxiowrite_add_column`. -/
  | column (name : Bytes)
  /-- `xlsxiowrite_add_cell_string`. -/
  | string (value : Bytes)
  /-- `xlsxiowrite_add_cell_datetime`. -/
  | datetime (value : Int)
  deriving DecidableEq, Repr

/-- A call of the sheet writer. -/
inductive WriterCall where
  | setRowHeight (height : Nat)
  | add (cell : SheetCell)
  | nextRow
  deriving DecidableEq, Repr

/-- `*m_writer << value` for a string. -/
def put (value : Bytes) : WriterCall := .add (.string (cString value))

/-- `write_two_line`; the second row is not ended here. -/
def writeTwoLine (group id name : Bytes) (tt : Int) (on_duty off_duty : Bytes) : List WriterCall :=
  [put group, put id, put name, .add (.datetime tt), put on_duty, put (ascii "0"), .nextRow,
    put group, put id, put name, .add (.datetime tt), put off_duty, put (ascii "1")]

/-- The names of the columns. -/
def columns : List Bytes :=
  [ascii "部门班组", ascii "工号", ascii "姓名", ascii "日期", ascii "出勤时间"]

/-- The date of a record, when the variables of its scan start as `uninit`. -/
def dateOf (mktime : Tm → Int) (uninit : Ymd) (x : ReportData) : Int :=
  stringToDatetime mktime uninit (cString (tempDate x.dates))

/-- One round of the loop over the records. -/
def writeRecord (mktime : Tm → Int) (uninit : Ymd) (x : ReportData) : List WriterCall :=
  writeTwoLine x.group x.id x.name (dateOf mktime uninit x) x.on_duty x.off_duty ++ [.nextRow]

/-- `write_to_excel`; `stack` is what the variables hold in the round of each index. -/
def writeToExcel (mktime : Tm → Int) (stack : Nat → Ymd) (data : List ReportData) :
    List WriterCall :=
  .setRowHeight 1 :: columns.map (fun i => .add (.column (cString i))) ++ [.nextRow] ++
    (data.zipIdx.drop 1).flatMap (fun p => writeRecord mktime (stack p.2) p.1) ++ [.nextRow]

/-! ## The rows of a sheet -/

/-- The rows that a sequence of calls ends, and the cells of the row it leaves open. -/
def sheetRows (current : List SheetCell) : List WriterCall → List (List SheetCell) × List SheetCell
  | [] => ([], current)
  | .setRowHeight _ :: calls => sheetRows current calls
  | .add cell :: calls => sheetRows (current ++ [cell]) calls
  | .nextRow :: calls => (current :: (sheetRows [] calls).1, (sheetRows [] calls).2)

/-- Cells up to the end of their row. -/
theorem sheetRows_row (current cells : List SheetCell) (calls : List WriterCall) :
    sheetRows current (cells.map .add ++ .nextRow :: calls) =
      ((current ++ cells) :: (sheetRows [] calls).1, (sheetRows [] calls).2) := by
  induction cells generalizing current with
  | nil => simp [sheetRows]
  | cons cell cells ih => simp [sheetRows, ih]

/-- One row of a record. -/
def dutyRow (x : ReportData) (date : Int) (duty flag : Bytes) : List SheetCell :=
  [.string x.group, .string x.id, .string x.name, .datetime date, .string duty, .string flag]

/-- The two rows of a record. -/
def dutyRows (x : ReportData) (date : Int) : List (List SheetCell) :=
  [dutyRow x date x.on_duty (ascii "0"), dutyRow x date x.off_duty (ascii "1")]

/-- The round of a record that was read writes its two rows and ends them. -/
theorem sheetRows_writeRecord (mktime : Tm → Int) (uninit : Ymd) (cells : List Cell)
    (calls : List WriterCall) :
    sheetRows [] (writeRecord mktime uninit (rowRecord cells) ++ calls) =
      (dutyRows (rowRecord cells) (dateOf mktime uninit (rowRecord cells)) ++
        (sheetRows [] calls).1, (sheetRows [] calls).2) := by
  have htext (col : Nat) : put (lastText cells col) = .add (.string (lastText cells col)) := by
    rw [put, cString_lastText]
  have hzero : put (ascii "0") = .add (.string (ascii "0")) := by decide
  have hone : put (ascii "1") = .add (.string (ascii "1")) := by decide
  simp only [writeRecord, writeTwoLine, rowRecord, ReportData.ofColumns, htext, hzero, hone,
    List.cons_append, List.nil_append, sheetRows, dutyRows, dutyRow]

/-- The rounds of the loop write the rows of the records one after the other. -/
theorem sheetRows_records (mktime : Tm → Int) (stack : Nat → Ymd)
    {l : List (ReportData × Nat)} (h : ∀ p ∈ l, ∃ cells, p.1 = rowRecord cells)
    (calls : List WriterCall) :
    sheetRows [] (l.flatMap (fun p => writeRecord mktime (stack p.2) p.1) ++ calls) =
      (l.flatMap (fun p => dutyRows p.1 (dateOf mktime (stack p.2) p.1)) ++
        (sheetRows [] calls).1, (sheetRows [] calls).2) := by
  induction l with
  | nil => rfl
  | cons p l ih =>
    obtain ⟨⟨cells, hp⟩, hl⟩ := List.forall_mem_cons.mp h
    rw [List.flatMap_cons, List.flatMap_cons, List.append_assoc, hp, sheetRows_writeRecord, ih hl,
      List.append_assoc]

/-- Whatever the callbacks of a sheet, there is one record for each row, made of that row's cells
alone; and the report is the header, the two rows of each record but the first, and an empty row.
Both rows of a record carry the same date. -/
theorem attendance_report (mktime : Tm → Int) (stack : Nat → Ymd) (rows : List (List Cell)) :
    (processData rows).records = rows.map rowRecord ∧
      sheetRows [] (writeToExcel mktime stack (processData rows).records) =
        (columns.map .column :: (((rows.map rowRecord).zipIdx.drop 1).flatMap fun p =>
          dutyRows p.1 (dateOf mktime (stack p.2) p.1)) ++ [[]], []) := by
  have hrecords := processData_records rows
  refine ⟨hrecords, ?_⟩
  have hcolumns : columns.map (fun i => WriterCall.add (.column (cString i))) =
      (columns.map SheetCell.column).map .add := by decide
  have hread : ∀ p ∈ (rows.map rowRecord).zipIdx.drop 1, ∃ cells, p.1 = rowRecord cells := by
    intro p hp
    obtain ⟨cells, _, he⟩ := List.mem_map.mp
      (List.fst_mem_of_mem_zipIdx (List.mem_of_mem_drop hp))
    exact ⟨cells, he.symm⟩
  have hcalls : writeToExcel mktime stack (rows.map rowRecord) = .setRowHeight 1 ::
      ((columns.map SheetCell.column).map .add ++ .nextRow ::
        (((rows.map rowRecord).zipIdx.drop 1).flatMap
          (fun p => writeRecord mktime (stack p.2) p.1) ++ [.nextRow])) := by
    rw [writeToExcel, hcolumns]
    simp only [List.append_assoc, List.cons_append, List.nil_append]
  rw [hrecords, hcalls, sheetRows, sheetRows_row, sheetRows_records mktime stack hread]
  rfl

end AsioCoroFrame.Attendance
