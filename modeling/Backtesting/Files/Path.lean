/-!
Paths of files as lists of names. Empty names and single dots say nothing and are dropped when a
path is read; double dots stay, because what they mean depends on the directories that exist.
`collapsed` lets them take back the name before them.
-/
namespace Backtesting

structure Path where
  isAbsolute : Bool
  names : List String
deriving DecidableEq, Repr

namespace Path

def ofText (s : String) : Path :=
  ⟨s.startsWith "/", (s.splitOn "/").filter fun n => n ≠ "" ∧ n ≠ "."⟩

def toText (p : Path) : String :=
  let names := "/".intercalate p.names
  if p.isAbsolute then "/" ++ names
  else if p.names.isEmpty then "."
  else names

/-- The path as seen from the directory `p`. -/
def join (p q : Path) : Path := if q.isAbsolute then q else ⟨p.isAbsolute, p.names ++ q.names⟩

def child (p : Path) (name : String) : Path := ⟨p.isAbsolute, p.names ++ [name]⟩

def parent (p : Path) : Path := ⟨p.isAbsolute, p.names.dropLast⟩

/-- The steps from the working directory on; an absolute path goes to the top first. -/
def steps (p : Path) : List String := if p.isAbsolute then "/" :: p.names else p.names

def name? (p : Path) : Option String := p.names.getLast?

/-- Adds to the last name of a path. -/
def extended (p : Path) (ending : String) : Option Path :=
  p.name?.map fun n => p.parent.child (n ++ ending)

/-- The names of a path in reverse after one more name. -/
def push (isAbsolute : Bool) (stack : List String) (name : String) : List String :=
  if name = ".." then
    match stack with
    | [] => if isAbsolute then [] else [".."]
    | n :: rest => if n = ".." then ".." :: n :: rest else rest
  else name :: stack

def collapsed (p : Path) : Path :=
  ⟨p.isAbsolute, (p.names.foldl (push p.isAbsolute) []).reverse⟩

/-- The ending of the last name from its last dot on; a name that begins with its only dot or ends
with a dot has none. -/
def suffix (p : Path) : String :=
  let name := (p.name?.getD "").toList
  let ending := (name.reverse.takeWhile (· ≠ '.')).reverse
  if ending.isEmpty || name.length ≤ ending.length + 1 then ""
  else String.ofList ('.' :: ending)

end Path
end Backtesting
