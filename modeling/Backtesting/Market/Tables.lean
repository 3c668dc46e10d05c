import Backtesting.Calendar.Arithmetic
import Backtesting.Calendar.Text
import Backtesting.Market.Feed
import Backtesting.Market.Rates
import Backtesting.Market.Bar
import Backtesting.Table.Basic

/-!
Bars and rates from tables. The bars of a day are read asset by asset and all or none of them can
be had; a later row of an asset replaces an earlier one. Only rows of wanted assets and currencies
are read. What may be left out in a row of bars has a default.
-/
namespace Backtesting

/-- A row of a table with its day. -/
structure DatedRow where
  date : Date
  cells : List (String × Document)

namespace DatedRow

def cell (r : DatedRow) (name : String) : Document := (r.cells.lookup name).getD .null

def asset (r : DatedRow) : Asset := (r.cell "asset").plainText

/-- The size of a binary number in units of the smallest positive one. -/
def units (negative : Bool) (mantissa : Nat) (exponent : Int) : Int :=
  let size : Int := mantissa * twoTo (exponent + 1074).toNat
  if negative then -size else size

/-- Where an asset stands in a day: numbers come first and by size, then texts, and last what has no
value. -/
def rank : Document → Nat × Int × String
  | .integer i => (1, i * twoTo 1074, "")
  | .bool b => (1, if b then twoTo 1074 else 0, "")
  | .number x =>
      match Binary64.parts x with
      | .infinity true => (0, 0, "")
      | .finite negative mantissa exponent => (1, units negative mantissa exponent, "")
      | .infinity false => (2, 0, "")
      | .nan => (4, 0, "")
  | .null => (4, 0, "")
  | x => (3, 0, x.plainText)

/-- The order of the assets of a day. -/
def precedes (a b : DatedRow) : Bool :=
  let (i, m, s) := rank (a.cell "asset")
  let (j, n, t) := rank (b.cell "asset")
  i < j || i = j && (m < n || m = n && s ≤ t)

def isVacant : Document → Bool
  | .null => true
  | .text s => (Text.trim s).isEmpty
  | .number x => x.isNaN
  | _ => false

/-- A cell that may be left out. -/
def cellOr (r : DatedRow) (name : String) (default_ : Document) : Document :=
  if isVacant (r.cell name) then default_ else r.cell name

def readQuote (r : DatedRow) : Except Error Quote := do
  let close ← (r.cell "close").toDecimal
  let opening ← (r.cell "open").toDecimal
  let high ← (r.cell "high").toDecimal
  let low ← (r.cell "low").toDecimal
  let adjusted := r.cell "adjusted_close"
  let adjustedClose ← if isVacant adjusted then pure close else adjusted.toDecimal
  let volume ← (r.cellOr "volume" (.integer 0)).toDecimal
  let volume ← Decimal.lift volume.truncate
  let dividend ← (r.cellOr "dividend_per_share" (.integer 0)).toDecimal
  let split ← (r.cellOr "split_coefficient" (.integer 1)).toDecimal
  pure { opening, high, low, close, adjustedClose, volume, dividend, split }

def bar (r : DatedRow) : Except Error Bar :=
  (r.readQuote >>= Bar.ofQuote).mapError fun e => .invalidBar r.asset r.date e.message

def currencyCode (r : DatedRow) : String := Text.upper (Text.trim (r.cell "currency").plainText)

def rate (r : DatedRow) : Except Error (Currency × Decimal) := do
  let currency ← Currency.ofCode r.currencyCode
  let rate ← (r.cell "rate").toDecimal.mapError fun e => .invalidFxRate r.date e.message
  pure (currency, rate)

end DatedRow

structure MarketTables where
  bars : List DatedRow
  fx : Option (List DatedRow)

namespace MarketTables

def barColumns : List String := ["date", "asset", "open", "high", "low", "close"]

def fxColumns : List String := ["date", "currency", "rate"]

def requireColumns (what : String) (required : List String) (t : Table) : Except Error Unit :=
  if (t.missing required).isEmpty then .ok ()
  else .error (.missingColumns what (t.missing required))

def readRow (what : String) (columns : List String) (row : List Document) :
    Except Error DatedRow := do
  let cells := columns.zip row
  let written := (cells.lookup "date").getD .null
  let date ← (Date.read written).mapError fun _ => .tableDate what written
  pure ⟨date, cells⟩

def readRows (what : String) (t : Table) : Except Error (List DatedRow) :=
  t.rows.mapM (readRow what t.columns)

/-- The columns of both tables are checked before any date is read. -/
def ofTables (bars : Table) (fx : Option Table) : Except Error MarketTables := do
  requireColumns "market data" barColumns bars
  if let some fx := fx then requireColumns "fx rate" fxColumns fx
  let bars ← readRows "market data" bars
  let fx ← fx.mapM (readRows "fx rate")
  pure ⟨bars, fx⟩

/-- All assets that have a row, in ascending order. -/
def symbols (t : MarketTables) : List Asset :=
  ((t.bars.map DatedRow.asset).mergeSort (· ≤ ·)).eraseReps

/-- The rows of a day, those of an asset in the order of the table. -/
def rowsOn (rows : List DatedRow) (d : Date) : List DatedRow :=
  (rows.filter (·.date = d)).mergeSort DatedRow.precedes

def barsOn (rows : List DatedRow) (d : Date) : Except Error (Date × OrderedMap Asset Bar) := do
  let bars ← (rowsOn rows d).mapM fun r => do pure (r.asset, ← r.bar)
  pure (d, OrderedMap.ofList bars)

/-- The bars of some assets day by day. -/
def barFeed (t : MarketTables) (assets : List Asset) : Feed (Date × OrderedMap Asset Bar) :=
  let rows := t.bars.filter fun r => assets.contains r.asset
  Feed.mapUntil (barsOn rows) (Date.sortedSet (rows.map DatedRow.date))

def ratesOn (rows : List DatedRow) (d : Date) : Except Error (Date × OrderedMap Currency Decimal) := do
  let rates ← (rows.filter (·.date = d)).mapM DatedRow.rate
  pure (d, OrderedMap.ofList rates)

/-- The rates of some currencies day by day; without a table there are none, whatever is asked. -/
def rateFeed (t : MarketTables) (currencies : List Document) :
    Feed (Date × OrderedMap Currency Decimal) :=
  match t.fx with
  | none => Feed.ofList []
  | some rows =>
      match currencies.mapM Currency.read with
      | .error e => Feed.failed e
      | .ok wanted =>
          let rows := rows.filter fun r => wanted.any fun c => c.code = r.currencyCode
          Feed.mapUntil (ratesOn rows) (Date.sortedSet (rows.map DatedRow.date))

end MarketTables
end Backtesting
