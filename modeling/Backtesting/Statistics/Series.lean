import Backtesting.Power

/-!
Sums, means and deviations of a series of binary numbers. A long series is summed in halves and a
block of it in eight interleaved sums, which keeps rounding errors small; a running mean carries
what rounding took from its sum along.
-/
namespace Backtesting.Series

/-- Sum of a block in order. -/
def plainSum (xs : List Float) : Float := xs.foldl (· + ·) 0

/-- Adds each row of eight to the eight sums so far; the last, shorter row is left over. -/
def addRows (sums : List Float) : Nat → List Float → List Float × List Float
  | 0, xs => (sums, xs)
  | rows + 1, xs => addRows (List.zipWith (· + ·) sums (xs.take 8)) rows (xs.drop 8)

def joinEight : List Float → Float
  | [a, b, c, d, e, f, g, h] => ((a + b) + (c + d)) + ((e + f) + (g + h))
  | xs => plainSum xs

def blockSum (xs : List Float) : Float :=
  let (sums, rest) := addRows (xs.take 8) (xs.length / 8 - 1) (xs.drop 8)
  rest.foldl (· + ·) (joinEight sums)

def sumHalves : Nat → List Float → Float
  | 0, xs => plainSum xs
  | depth + 1, xs =>
      if xs.length < 8 then plainSum xs
      else if xs.length ≤ 128 then blockSum xs
      else
        let half := xs.length / 2 - xs.length / 2 % 8
        sumHalves depth (xs.take half) + sumHalves depth (xs.drop half)

def sum (xs : List Float) : Float := sumHalves xs.length xs

def count (xs : List Float) : Float := Float.ofNat xs.length

def mean (xs : List Float) : Float := sum xs / count xs

/-- The sample variance, over one degree of freedom less than there are values. -/
def variance (xs : List Float) : Float :=
  let m := mean xs
  sum (xs.map fun x => (x - m) * (x - m)) / Float.ofNat (xs.length - 1)

def deviation (xs : List Float) : Float := (variance xs).sqrt

def product (xs : List Float) : Float := xs.foldl (· * ·) 1

/-- The relative changes from each value to the next. -/
def changes : List Float → List Float
  | x :: y :: rest => (y / x - 1) :: changes (y :: rest)
  | _ => []

/-- The state of a mean over a window. `repeated` counts how often the latest value came in a row;
a window that holds one value only has exactly that value as its mean. -/
structure RunningMean where
  size : Nat
  sum : Float
  addError : Float
  removeError : Float
  negatives : Nat
  repeated : Nat
  latest : Float

namespace RunningMean

def start (first : Float) : RunningMean := ⟨0, 0, 0, 0, 0, 0, first⟩

def isNegative (x : Float) : Bool := x.toBits.toNat / twoTo 63 == 1

def add (m : RunningMean) (x : Float) : RunningMean :=
  if x.isNaN then m
  else
    let y := x - m.addError
    let t := m.sum + y
    { m with
      size := m.size + 1
      sum := t
      addError := t - m.sum - y
      negatives := if isNegative x then m.negatives + 1 else m.negatives
      repeated := if x == m.latest then m.repeated + 1 else 1
      latest := x }

def remove (m : RunningMean) (x : Float) : RunningMean :=
  if x.isNaN then m
  else
    let y := -x - m.removeError
    let t := m.sum + y
    { m with
      size := m.size - 1
      sum := t
      removeError := t - m.sum - y
      negatives := if isNegative x then m.negatives - 1 else m.negatives }

/-- The mean of a full window, which has no other sign than its values. -/
def value (m : RunningMean) (window : Nat) : Float :=
  if m.size < window || m.size == 0 then 0 / 0
  else
    let mean := m.sum / Float.ofNat m.size
    if m.size ≤ m.repeated then m.latest
    else if m.negatives == 0 && mean < 0 then 0
    else if m.negatives == m.size && 0 < mean then 0
    else mean

/-- Takes a value in and, where the window is full, the value that leaves it out. -/
def step (window : Nat) (m : RunningMean) (e : Float × Option Float) : RunningMean :=
  match e with
  | (x, none) => m.add x
  | (x, some old) => if window ≤ 1 then (start x).add x else (m.remove old).add x

end RunningMean

def finiteOrNaN (x : Float) : Float := if x.isInf then 0 / 0 else x

/-- The mean of the last `window` values as a running mean over the series gives it. -/
def lastMean (window : Nat) (xs : List Float) : Float :=
  let xs := xs.map finiteOrNaN
  let leaving := List.replicate window none ++ xs.map some
  ((xs.zip leaving).foldl (RunningMean.step window)
    (RunningMean.start (xs.head?.getD 0))).value window

end Backtesting.Series
