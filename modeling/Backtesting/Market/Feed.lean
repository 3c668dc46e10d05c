import Backtesting.Error

/-!
Days of data as they come in: the items that can be had and, where the source ends early, why.
-/
namespace Backtesting

structure Feed (α : Type u) where
  items : List α
  failure : Option Error

namespace Feed

variable {α : Type u} {β : Type v}

def ofList (items : List α) : Feed α := ⟨items, none⟩

def failed (e : Error) : Feed α := ⟨[], some e⟩

/-- An item in front. -/
def cons (a : α) (f : Feed α) : Feed α := ⟨a :: f.items, f.failure⟩

/-- The results of `f` up to the first failure. -/
def mapUntil (f : β → Except Error α) : List β → Feed α
  | [] => ofList []
  | b :: bs =>
      match f b with
      | .ok a => cons a (mapUntil f bs)
      | .error e => failed e

/-- The failure of a feed that has no items left. -/
def blocked? (f : Feed α) : Option Error := if f.items.isEmpty then f.failure else none

/-- A feed of days without those before `d`. -/
def since (d : Date) (f : Feed (Date × α)) : Feed (Date × α) :=
  { f with items := f.items.dropWhile (·.1 < d) }

/-- The item of `d` in a feed that begins no earlier. -/
def on? (d : Date) (f : Feed (Date × α)) : Option α :=
  (f.items.head?.filter (·.1 = d)).map Prod.snd

def dates (f : Feed (Date × α)) : List Date := f.items.map Prod.fst

end Feed
end Backtesting
