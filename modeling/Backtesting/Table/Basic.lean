import Backtesting.Document.Json

/-!
Tables: named columns and rows of cells. Of two columns of one name the first counts. A column that
mixes whole and binary numbers, or has gaps among its numbers, is a column of binary numbers
throughout.
-/
namespace Backtesting

structure Table where
  columns : List String
  rows : List (List Document)

namespace Table

/-- The required columns that are missing. -/
def missing (t : Table) (required : List String) : List String :=
  required.filter fun c => !t.columns.contains c

def isNumeric : Document → Bool
  | .integer _ | .number _ => true
  | _ => false

/-- Whether the cells of a column become binary numbers. -/
def isReal (cells : List Document) : Bool :=
  cells.all (fun c => isNumeric c || c.isNull) && cells.any isNumeric &&
    cells.any fun
      | .integer _ => false
      | _ => true

def realCell : Document → Document
  | .integer i => match Binary64.ofInt? i with
    | some x => .number x
    | none => .integer i
  | .null => .number Binary64.nan
  | c => c

/-- A column with one kind of number. -/
def unified (cells : List Document) : List Document :=
  if isReal cells then cells.map realCell else cells

def column (rows : List (List Document)) (i : Nat) : List Document :=
  rows.map fun row => row.getD i .null

/-- A table of cells as they are handed in. -/
def ofCells (columns : List String) (rows : List (List Document)) : Table :=
  let cells := (List.range columns.length).map fun i => unified (column rows i)
  ⟨columns, (List.range rows.length).map fun i => cells.map fun c => c.getD i .null⟩

/-- A table as a document and back: the form in which tables are stored. -/
def toDocument (t : Table) : Document :=
  .object [("columns", .list (t.columns.map .text)), ("rows", .list (t.rows.map .list))]

def ofDocument? (x : Document) : Option Table :=
  match x.get? "columns", x.get? "rows" with
  | some (.list columns), some (.list rows) => do
      let columns ← columns.mapM Document.text?
      let rows ← rows.mapM fun
        | .list cells => some cells
        | _ => none
      some ⟨columns, rows⟩
  | _, _ => none

def stored (t : Table) : String := Document.Json.render ⟨none, false⟩ t.toDocument

def ofStored? (s : String) : Option Table := (Document.Json.parse? s).bind ofDocument?

end Table
end Backtesting
