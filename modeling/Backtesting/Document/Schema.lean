import Backtesting.Calendar.Text
import Backtesting.Document.Number

/-!
Documents checked against the shape that is expected of them. A check goes on after a fault, so
that all faults of a document come out together, each with the path to its place.
-/
namespace Backtesting

inductive Checked (α : Type u)
  | valid (value : α)
  | faulty (faults : List ConfigFault)

namespace Checked

def faults : Checked α → List ConfigFault
  | valid _ => []
  | faulty fs => fs

def map (f : α → β) : Checked α → Checked β
  | valid a => valid (f a)
  | faulty fs => faulty fs

/-- Both values, or the faults of both. -/
def both : Checked α → Checked β → Checked (α × β)
  | valid a, valid b => valid (a, b)
  | x, y => faulty (x.faults ++ y.faults)

/-- A check that needs the value. -/
def andThen : Checked α → (α → Checked β) → Checked β
  | valid a, f => f a
  | faulty fs, _ => faulty fs

def ofOption (at_ : List String) : Option α → Checked α
  | some a => valid a
  | none => faulty [⟨at_, none⟩]

def all : List (Checked α) → Checked (List α)
  | [] => valid []
  | x :: xs => (both x (all xs)).map fun (a, as) => a :: as

instance : Seq Checked := ⟨fun f x => match f, x () with
  | valid f, valid a => valid (f a)
  | f, x => faulty (f.faults ++ x.faults)⟩

instance : Functor Checked := ⟨map, fun a => map fun _ => a⟩

end Checked

/-- A check of the document at a path. -/
abbrev Schema (α : Type) := List String → Document → Checked α

namespace Schema

def ofPartial (f : Document → Option α) : Schema α := fun at_ x => Checked.ofOption at_ (f x)

def text : Schema String := ofPartial Document.text?

def required (s : Schema α) (at_ : List String) (x : Document) (key : String) : Checked α :=
  match x.get? key with
  | some y => s (at_ ++ [key]) y
  | none => .faulty [⟨at_ ++ [key], none⟩]

def withDefault (s : Schema α) (a : α) (at_ : List String) (x : Document) (key : String) :
    Checked α :=
  match x.get? key with
  | some y => s (at_ ++ [key]) y
  | none => .valid a

def optional (s : Schema α) : Schema (Option α) := fun at_ x =>
  match x with
  | .null => .valid none
  | x => (s at_ x).map some

def indexed (s : Schema α) (at_ : List String) : Nat → List Document → List (Checked α)
  | _, [] => []
  | i, x :: xs => s (at_ ++ [toString i]) x :: indexed s at_ (i + 1) xs

def list (s : Schema α) : Schema (List α) := fun at_ x =>
  match x with
  | .list xs => Checked.all (indexed s at_ 0 xs)
  | _ => .faulty [⟨at_, none⟩]

/-- An object with checked keys and values. The fault of a key is told apart from that of its
value. -/
def mapping (key : String → Option κ) (value : Schema α) : Schema (List (κ × α)) := fun at_ x =>
  match x with
  | .object fs => Checked.all (fs.map fun (k, y) =>
      Checked.both (Checked.ofOption (at_ ++ [k, "[key]"]) (key k)) (value (at_ ++ [k]) y))
  | _ => .faulty [⟨at_, none⟩]

def object : Schema (List (String × Document)) := ofPartial fun
  | .object fs => some fs
  | _ => none

def nonempty (s : Schema (List α)) : Schema (List α) := fun at_ x =>
  (s at_ x).andThen fun xs => if xs.isEmpty then .faulty [⟨at_, none⟩] else .valid xs

def finite? (x : Decimal) : Option Decimal := if x.IsFinite then some x else none

/-- A finite decimal from text or a number. -/
def decimal : Schema Decimal := ofPartial fun
  | .bool _ => none
  | x@(.text _) | x@(.integer _) | x@(.number _) => x.toDecimal.toOption.bind finite?
  | _ => none

/-- Digits with an optional sign; a point may be followed by zeros only. -/
def integerText? (s : String) : Option Int :=
  let cs := Text.trimList s.toList
  let whole := cs.takeWhile (· != '.')
  let rest := cs.dropWhile (· != '.')
  if rest.length != 1 && (rest.drop 1).all (· == '0') then
    (Binary64.withoutSeparators? whole).bind Binary64.signedInt?
  else none

def integer : Schema Int := ofPartial fun
  | .integer i => some i
  | .bool b => some (if b then 1 else 0)
  | .number x =>
      match Document.truncated x with
      | .ok i => if Binary64.ofInt? i == some x then some i else none
      | .error _ => none
  | .text s => integerText? s
  | _ => none

def digits? (cs : List Char) (n : Nat) : Option Nat :=
  if cs.length = n then Text.nat? cs else none

def isoDate? (cs : List Char) : Option Date :=
  match cs with
  | [_, _, _, _, '-', _, _, '-', _, _] => do
      Date.ofParts? (← digits? (cs.take 4) 4) (← digits? ((cs.drop 5).take 2) 2)
        (← digits? (cs.drop 8) 2)
  | _ => none

/-- An offset from universal time, or nothing. -/
def isOffset (cs : List Char) : Bool :=
  match cs with
  | [] | ['Z'] | ['z'] => true
  | [s, a, b, ':', c, d] => (s == '+' || s == '-') && [a, b, c, d].all Char.isDigit
  | [s, a, b, c, d] => (s == '+' || s == '-') && [a, b, c, d].all Char.isDigit
  | _ => false

/-- The time of midnight: hours and minutes, seconds if any, a fraction of zeros. -/
def isMidnight (cs : List Char) : Bool :=
  match cs with
  | '0' :: '0' :: ':' :: '0' :: '0' :: ':' :: '0' :: '0' :: '.' :: rest =>
      let zeros := rest.takeWhile (· == '0')
      !zeros.isEmpty && isOffset (rest.drop zeros.length)
  | '0' :: '0' :: ':' :: '0' :: '0' :: ':' :: '0' :: '0' :: rest => isOffset rest
  | '0' :: '0' :: ':' :: '0' :: '0' :: rest => isOffset rest
  | _ => false

def dateText? (s : String) : Option Date :=
  let cs := s.toList
  match cs.drop 10 with
  | [] => isoDate? cs
  | separator :: time =>
      if (separator == 'T' || separator == 't' || separator == ' ' || separator == '_') &&
        isMidnight time then isoDate? (cs.take 10) else none

/-- A date, or the first moment of one. -/
def date : Schema Date := ofPartial fun
  | .date d => some d
  | .text s => dateText? s
  | _ => none

end Schema

namespace ConfigFault

def path (f : ConfigFault) : String := ".".intercalate f.location

def isBefore (f g : ConfigFault) : Bool :=
  f.path < g.path || (f.path == g.path && f.text.getD "" < g.text.getD "")

def insert (f : ConfigFault) : List ConfigFault → List ConfigFault
  | [] => [f]
  | g :: gs => if f.isBefore g then f :: g :: gs else g :: insert f gs

/-- The faults in the order of their places. -/
def sorted (fs : List ConfigFault) : List ConfigFault := fs.foldl (fun acc f => insert f acc) []

end ConfigFault

/-- The value of a valid document, or the faults as one error. -/
def Checked.toExcept : Checked α → Except Error α
  | .valid a => .ok a
  | .faulty fs => .error (.invalidModel (ConfigFault.sorted fs))

end Backtesting
