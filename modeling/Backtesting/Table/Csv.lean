import Backtesting.Table.Basic

/-!
Tables as text with commas. A quote opens a quoted field only at its start; inside, two quotes
stand for one, and what follows the closing quote belongs to the field. Lines end with a newline, a
carriage return or both; lines that are empty or blank do not count. The first line names the
columns. The first row may be longer than that line, and its surplus of cells, counted from the
left, names the rows and is left out; no later row may be longer than both, and short rows are
filled up with empty cells.
-/
namespace Backtesting.Table.Csv

inductive Mode
  | line | blank | field | plain | quoted | closed
deriving DecidableEq, Repr

/-- What was read so far, all lists with the latest first. -/
structure Reader where
  lines : List (List String)
  fields : List String
  chars : List Char
  mode : Mode

namespace Reader

def start : Reader := ⟨[], [], [], .line⟩

def text (r : Reader) : String := String.ofList r.chars.reverse

def endField (r : Reader) : Reader := { r with fields := r.text :: r.fields, chars := [], mode := .field }

def endLine (r : Reader) : Reader :=
  ⟨(r.text :: r.fields).reverse :: r.lines, [], [], .line⟩

def dropLine (r : Reader) : Reader := { r with chars := [], mode := .line }

def add (r : Reader) (c : Char) (mode : Mode) : Reader := { r with chars := c :: r.chars, mode }

def isLineEnd (c : Char) : Bool := c = '\n' ∨ c = '\r'

/-- A character outside quotes. -/
def addPlain (r : Reader) (c : Char) : Reader :=
  if isLineEnd c then r.endLine
  else if c = ',' then r.endField
  else r.add c .plain

/-- A character at the start of a field. -/
def addFirst (r : Reader) (c : Char) : Reader :=
  if c = '"' then { r with mode := .quoted } else r.addPlain c

def step (r : Reader) (c : Char) : Reader :=
  match r.mode with
  | .line =>
      if isLineEnd c then r
      else if c = ' ' ∨ c = '\t' then r.add c .blank
      else r.addFirst c
  | .blank =>
      if isLineEnd c then r.dropLine
      else if c = ' ' ∨ c = '\t' then r.add c .blank
      else r.addPlain c
  | .field => r.addFirst c
  | .plain => r.addPlain c
  | .quoted => if c = '"' then { r with mode := .closed } else r.add c .quoted
  | .closed => if c = '"' then r.add c .quoted else r.addPlain c

/-- All lines, `none` when a quote is left open. -/
def finish? (r : Reader) : Option (List (List String)) :=
  match r.mode with
  | .line | .blank => some r.lines.reverse
  | .quoted => none
  | .field | .plain | .closed => some r.endLine.lines.reverse

end Reader

def lines? (s : String) : Option (List (List String)) :=
  ((Text.withoutMark s).toList.foldl Reader.step Reader.start).finish?

/-- The cells of a row as wide as the table, without those that name it. -/
def shapeRow (surplus width : Nat) (row : List String) : List Document :=
  ((row ++ List.replicate (width - row.length) "").drop surplus).map .text

def ofLines? : List (List String) → Option Table
  | [] => none
  | header :: rows =>
      let first := (rows.head?.map List.length).getD 0
      let width := max header.length first
      if rows.any fun row => width < row.length then none
      else some ⟨header, rows.map (shapeRow (first - header.length) width)⟩

/-- The table of a text, with text in all its cells. -/
def parse? (s : String) : Option Table := (lines? s).bind ofLines?

/-- A field in quotes where it would be misread without them. -/
def written (s : String) : String :=
  if s.toList.any fun c => c = ',' ∨ c = '"' ∨ c = '\n' then
    String.ofList ('"' :: s.toList.flatMap (fun c => if c = '"' then ['"', '"'] else [c]) ++ ['"'])
  else s

def writtenLine (fields : List String) : String := ",".intercalate (fields.map written) ++ "\n"

/-- A table of texts, column names first. -/
def render (columns : List String) (rows : List (List String)) : String :=
  String.join ((columns :: rows).map writtenLine)

end Backtesting.Table.Csv
