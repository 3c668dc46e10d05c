import Backtesting.Files.Tree
import Backtesting.Market.Tables
import Backtesting.Table.Csv

/-!
Market data from files. A file is text with commas unless its ending says that it is a stored table.
-/
namespace Backtesting

namespace Table

def storedEndings : List String := [".parquet", ".pq"]

def isStoredAt (p : Path) : Bool := storedEndings.contains (p.suffix.map Char.toLower)

def load (files : FileTree) (path : String) : Except Error Table :=
  let p := Path.ofText path
  if !files.contains p then .error (.noDataFile p.toText)
  else
    match files.text? p >>= if isStoredAt p then ofStored? else Csv.parse? with
    | some t => .ok t
    | none => .error (.unreadableTable p.toText)

end Table

/-- The tables at two paths; an empty path of rates stands for none. -/
def MarketTables.load (files : FileTree) (bars : String) (fx : Option String) :
    Except Error MarketTables := do
  let bars ← Table.load files bars
  match fx.filter (· ≠ "") with
  | none => ofTables bars none
  | some path => do ofTables bars (some (← Table.load files path))

end Backtesting
