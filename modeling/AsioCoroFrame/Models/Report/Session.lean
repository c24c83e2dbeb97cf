import AsioCoroFrame.Core.Prog
import AsioCoroFrame.Core.Text
import Mathlib.Logic.Function.Basic

/-!
# The report and its database session

A row of the report is filled by a program that sends queries, moves the
cursor of the one result that is kept, and reads columns of the row it is on.
Reading a column away from a row raises; a query that fails is only logged and
leaves the previous result in place. A pass runs one program on every row, and
an exception ends the whole pass.
-/

namespace AsioCoroFrame.Report

/-- The text members of `report_data` that the passes read or fill. -/
inductive Field where
  | quotationId
  | quotationDetailId
  | countryId
  | ownerSalesSysAccountId
  | salesEmployeeId
  | salesCompanyName
  | accountName
  | approvalStatus
  | salesFullName
  | receivingCountries
  | customerCountries
  | countryRegion
  | productNameId
  | productName
  | priceCondition
  | currency
  | guidedCurrency
  | priceTotalCurrency
  | piNo
  | buyersPo
  | contractNo
  | paymentTermDesc
  | importArea
  deriving DecidableEq, Repr

/-- One row of the report. -/
abbrev ReportData := Field → Bytes

/-- One row of a result: the cell of each column, `none` for NULL. -/
abbrev Row := String → Option Bytes

/-- `getString` of a column, which is empty for NULL. -/
def Row.text (row : Row) (column : String) : Bytes := (row column).getD []

/-- A query: its text and the columns that the text selects. -/
structure Query where
  text : Bytes
  columns : List String

/-- `"select " columns tail key "'"`. -/
def select (columns : List String) (tail : String) (key : Bytes) : Query where
  text := ascii "select " ++ ascii (",".intercalate columns) ++ ascii tail ++ key ++ ascii "'"
  columns := columns

/-- `m_res`. -/
structure ResultSet where
  columns : List String
  rows : List Row
  /-- The calls of `next()`: the cursor is on the row with this number, counted from one. -/
  pos : Nat

/-- The answer to a query, with the cursor in front of the first row. -/
def ResultSet.opened (q : Query) (rows : List Row) : ResultSet := ⟨q.columns, rows, 0⟩

/-- The row that the cursor is on, if any. -/
def ResultSet.current (res : ResultSet) : Option Row :=
  if res.pos = 0 then none else res.rows[res.pos - 1]?

/-- The cell of a column, when the cursor is on a row and the column exists. -/
def ResultSet.cell (res : ResultSet) (column : String) : Option (Option Bytes) :=
  if column ∈ res.columns then res.current.map fun row => row column else none

/-- The name of a column, by its position counted from one. -/
def ResultSet.columnAt (res : ResultSet) (index : Nat) : Option String :=
  if index = 0 then none else res.columns[index - 1]?

/-- What the program for one row asks for. -/
inductive Op where
  /-- `query(text)`. -/
  | query (q : Query)
  /-- `m_res->next()`, whose result is not used. -/
  | next
  | rowsCount
  | isNull (column : String)
  | getString (column : String)
  /-- `getString` with a position, counted from one. -/
  | getStringAt (index : Nat)
  /-- Read a member of `report_data`. -/
  | get (f : Field)
  /-- Assign a member of `report_data`. -/
  | set (f : Field) (v : Bytes)

/-- The type of an answer. -/
@[reducible] def Ans : Op → Type
  | .query _ | .next | .set _ _ => Unit
  | .rowsCount => Nat
  | .isNull _ => Bool
  | .getString _ | .getStringAt _ | .get _ => Bytes

/-- The program for one row. -/
abbrev RowProg := Prog Op Ans

/-- What such a program works on. -/
structure Session where
  data : ReportData
  res : ResultSet

/-- The rows that answer each query text, or `none` for an `SQLException`. -/
abbrev Database := Bytes → Option (List Row)

/-- The rows that answer each query text, when no query fails. -/
abbrev Content := Bytes → List Row

/-- A database whose queries all succeed. -/
def answers (db : Content) : Database := fun text => some (db text)

/-- One operation; without an answer it raises. -/
def step (db : Database) : (op : Op) → Session → Option (Ans op) × Session
  | .query q, s =>
    match db q.text with
    | some rows => (some (), { s with res := .opened q rows })
    | none => (some (), s)
  | .next, s => (some (), { s with res := { s.res with pos := s.res.pos + 1 } })
  | .rowsCount, s => (some s.res.rows.length, s)
  | .isNull column, s => ((s.res.cell column).map Option.isNone, s)
  | .getString column, s => ((s.res.cell column).map (·.getD []), s)
  | .getStringAt index, s => (((s.res.columnAt index).bind s.res.cell).map (·.getD []), s)
  | .get f, s => (some (s.data f), s)
  | .set f v, s => (some (), { s with data := Function.update s.data f v })

def query (q : Query) : RowProg Unit := Prog.ask (Op.query q)

def next : RowProg Unit := Prog.ask Op.next

def rowsCount : RowProg Nat := Prog.ask Op.rowsCount

def isNull (column : String) : RowProg Bool := Prog.ask (Op.isNull column)

def getString (column : String) : RowProg Bytes := Prog.ask (Op.getString column)

def getStringAt (index : Nat) : RowProg Bytes := Prog.ask (Op.getStringAt index)

def get (f : Field) : RowProg Bytes := Prog.ask (Op.get f)

def set (f : Field) (v : Bytes) : RowProg Unit := Prog.ask (Op.set f v)

/-- `m_res->isNull(column)||m_res->getString(1)==""`. -/
def blank (column : String) : RowProg Bool := do
  if ← isNull column then return true
  return (← getStringAt 1) = []

/-- `m_res->rowsCount()<1||m_res->isNull(column)||m_res->getString(1)==""`. -/
def missing (column : String) : RowProg Bool := do
  if (← rowsCount) < 1 then return true
  blank column

/-- `if(!m_res->isNull(column)) i->f=m_res->getString(column);` -/
def setUnlessNull (f : Field) (column : String) : RowProg Unit := do
  if ← isNull column then pure () else set f (← getString column)

/-- The same after the longer test. -/
def setUnlessMissing (f : Field) (column : String) : RowProg Unit := do
  if ← missing column then pure () else set f (← getString column)

/-- One pass over the report: an exception leaves the row as far as it was filled, and the rows
behind it untouched. -/
def enrich (db : Database) (body : RowProg Unit) :
    List ReportData → ResultSet → List ReportData × ResultSet
  | [], res => ([], res)
  | data :: rows, res =>
    match body.exec (step db) ⟨data, res⟩ with
    | (some (), s) => (s.data :: (enrich db body rows s.res).1, (enrich db body rows s.res).2)
    | (none, s) => (s.data :: rows, s.res)

end AsioCoroFrame.Report
