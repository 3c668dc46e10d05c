import Backtesting.Action
import Backtesting.Files.Path
import Backtesting.OrderedMap

/-!
Files and directories as they are seen from a working directory. Entries are kept by place, the
steps that lead to them: names from the working directory on, or from the top, whose step is the
slash. Double dots stand only at the front of a place, for the directories around the working
directory, and these always exist. A file is written under another name first and then takes the
place of the old one, so a write that fails leaves the old file whole.
-/
namespace Backtesting

abbrev Place := List String

inductive FileEntry
  | directory
  | file (bytes : List UInt8)
deriving DecidableEq

structure FileTree where
  entries : OrderedMap Place FileEntry

namespace FileTree

def empty : FileTree := ⟨OrderedMap.empty⟩

instance : Inhabited FileTree := ⟨empty⟩

/-- The working directory, those around it and the top. -/
def isAnchor (place : Place) : Bool := place.all (· = "..") || place = ["/"]

def entry? (t : FileTree) (place : Place) : Option FileEntry :=
  if isAnchor place then some .directory else t.entries.get? place

def put (t : FileTree) (place : Place) (e : FileEntry) : FileTree := ⟨t.entries.put place e⟩

def above (place : Place) : Place :=
  if place.all (· = "..") then place ++ [".."]
  else if place = ["/"] then place
  else place.dropLast

/-- One step: to the top, up by two dots, or down into a directory. -/
def enter (t : FileTree) (place : Place) (step : String) : Except Error Place :=
  if step = "/" then .ok ["/"]
  else if step = ".." then .ok (above place)
  else match t.entry? (place ++ [step]) with
    | some .directory => .ok (place ++ [step])
    | some (.file _) => .error .notADirectory
    | none => .error .fileNotFound

def directoryAt (t : FileTree) (steps : List String) : Except Error Place :=
  steps.foldlM t.enter []

/-- The place that a path leads to; only the directory above it has to exist. -/
def placeOf (t : FileTree) (p : Path) : Except Error Place :=
  match p.name? with
  | none | some ".." => t.directoryAt p.steps
  | some name => do pure ((← t.directoryAt p.parent.steps) ++ [name])

def contains (t : FileTree) (p : Path) : Bool :=
  match t.placeOf p with
  | .ok place => (t.entry? place).isSome
  | .error _ => false

def read (t : FileTree) (p : Path) : Except Error (List UInt8) := do
  match t.entry? (← t.placeOf p) with
  | some (.file bytes) => pure bytes
  | some .directory => throw .isADirectory
  | none => throw .fileNotFound

def textOfBytes? (bytes : List UInt8) : Option String := String.fromUTF8? ⟨bytes.toArray⟩

def bytesOfText (s : String) : List UInt8 := s.toUTF8.toList

/-- The text of a file that can be read and is one. -/
def text? (t : FileTree) (p : Path) : Option String :=
  match t.read p with
  | .ok bytes => textOfBytes? bytes
  | .error _ => none

/-- Makes the last directory of a path whose other directories exist. -/
def makeAt (step : String) (parent : Place) : Action FileTree Unit :=
  if step = ".." ∨ step = "/" then pure ()
  else Action.update fun t =>
    match t.entry? (parent ++ [step]) with
    | some .directory => .ok t
    | some (.file _) => .error .notADirectory
    | none => .ok (t.put (parent ++ [step]) .directory)

/-- Makes a directory and those above it that are missing. The steps come last one first. -/
def makeAll : List String → Action FileTree Unit
  | [] => pure ()
  | step :: before => fun t =>
      match t.directoryAt before.reverse with
      | .ok place => makeAt step place t
      | .error .fileNotFound => (do
          makeAll before
          let place ← Action.read (·.directoryAt before.reverse)
          makeAt step place : Action FileTree Unit) t
      | .error e => (t, .error e)

/-- Makes a directory where nothing is yet. -/
def ensure (p : Path) : Action FileTree Unit := fun t =>
  if t.contains p then (t, .ok ()) else makeAll p.steps.reverse t

/-- Writes a file in place, new or over the old one. -/
def overwrite (p : Path) (bytes : List UInt8) : Action FileTree Unit :=
  Action.update fun t => do
    let place ← t.placeOf p
    match t.entry? place with
    | some .directory => throw .isADirectory
    | _ => pure (t.put place (.file bytes))

/-- Moves a file over another one. -/
def replace (source target : Path) : Action FileTree Unit :=
  Action.update fun t => do
    let bytes ← t.read source
    let old ← t.placeOf source
    let new ← t.placeOf target
    match t.entry? new with
    | some .directory => throw .isADirectory
    | _ => pure (FileTree.put ⟨t.entries.erase old⟩ new (.file bytes))

/-- Writes a file beside its place and moves it there. -/
def write (p : Path) (bytes : List UInt8) : Action FileTree Unit := do
  ensure p.parent
  match p.extended ".tmp" with
  | none => Action.fail .unnamedFile
  | some temporary => do
      overwrite temporary bytes
      replace temporary p

def writeText (p : Path) (s : String) : Action FileTree Unit := write p (bytesOfText s)

/-- The paths of all entries below the working directory in ascending order. -/
def paths (t : FileTree) : List String :=
  let below := t.entries.keys.filter fun place => place.head? ≠ some "/" ∧ place.head? ≠ some ".."
  (below.map ("/".intercalate ·)).mergeSort (· ≤ ·)

/-- The names in a directory in ascending order. -/
def names (t : FileTree) (p : Path) : List String :=
  match t.directoryAt p.steps with
  | .error _ => []
  | .ok place =>
      let inside := t.entries.keys.filter fun q => q.dropLast = place ∧ q ≠ []
      (inside.filterMap List.getLast?).mergeSort (· ≤ ·)

end FileTree
end Backtesting
