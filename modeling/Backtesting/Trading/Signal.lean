/-!
What a strategy wants of an asset, and which way a trade goes.
-/
namespace Backtesting

inductive TradeAction
  | buy | sell
deriving DecidableEq, Repr, Inhabited

namespace TradeAction

def sign : TradeAction → Int
  | buy => 1
  | sell => -1

def label : TradeAction → String
  | buy => "Buy"
  | sell => "Sell"

def ofLabel? : String → Option TradeAction
  | "Buy" => some buy
  | "Sell" => some sell
  | _ => none

end TradeAction

inductive Signal
  | long | short | exit | underweight | overweight | rebalance
deriving DecidableEq, Repr, Inhabited

namespace Signal

/-- The side of the position that is wanted: held, sold short or none. -/
def direction : Signal → Int
  | short => -1
  | exit => 0
  | _ => 1

def label : Signal → String
  | long => "Long"
  | short => "Short"
  | exit => "Exit"
  | underweight => "Underweight"
  | overweight => "Overweight"
  | rebalance => "Rebalance"

def all : List Signal := [long, short, exit, underweight, overweight, rebalance]

def ofLabel? (s : String) : Option Signal := all.find? (·.label == s)

end Signal
end Backtesting
