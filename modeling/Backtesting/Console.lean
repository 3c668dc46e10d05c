import Backtesting.Text.Blank

/-!
Text on a console of fixed width. Tags between brackets stand for colours and are not shown. A line
that is too long is broken before the word that does not fit; a word that fits on no line is broken
wherever the line is full. Blanks stay at the end of a line as far as there is room for them.
-/
namespace Backtesting.Console

def width : Nat := 80

def wideRanges : List (Nat × Nat) :=
  [(0x1100, 0x115f), (0x2e80, 0x303e), (0x3041, 0x33ff), (0x3400, 0x4dbf), (0x4e00, 0x9fff),
    (0xa000, 0xa4cf), (0xac00, 0xd7a3), (0xf900, 0xfaff), (0xfe30, 0xfe6f), (0xff01, 0xff60),
    (0xffe0, 0xffe6), (0x1f300, 0x1f64f), (0x1f900, 0x1f9ff), (0x20000, 0x3fffd)]

/-- The columns that a character takes. -/
def cells (c : Char) : Nat :=
  if wideRanges.any fun (a, b) => a ≤ c.toNat && c.toNat ≤ b then 2
  else if 0x300 ≤ c.toNat ∧ c.toNat ≤ 0x36f then 0
  else 1

def cellCount (cs : List Char) : Nat := cs.foldl (fun n c => n + cells c) 0

def opensTag (c : Char) : Bool := c.isLower || c == '#' || c == '/' || c == '@'

/-- What follows the tag that begins at `cs`, behind its bracket. -/
def afterTag? (cs : List Char) : Option (List Char) :=
  match cs with
  | [] => none
  | c :: rest =>
      if !opensTag c then none
      else match rest.dropWhile fun c => c ≠ '[' ∧ c ≠ ']' with
        | ']' :: rest => some rest
        | _ => none

/-- The text without its tags. -/
def shown : Nat → List Char → List Char
  | 0, cs => cs
  | _, [] => []
  | fuel + 1, '[' :: cs =>
      match afterTag? cs with
      | some rest => shown fuel rest
      | none => '[' :: shown fuel cs
  | fuel + 1, c :: cs => c :: shown fuel cs

abbrev Word := List Char

/-- The words of a line, each with the blanks after it and the first with those before it. -/
def words : Nat → List Char → List Word
  | 0, _ => []
  | _, [] => []
  | fuel + 1, cs =>
      let lead := cs.takeWhile Text.isBlank
      let body := (cs.drop lead.length).takeWhile (!Text.isBlank ·)
      let rest := cs.drop (lead.length + body.length)
      let trail := rest.takeWhile Text.isBlank
      (lead ++ body ++ trail) :: words fuel (rest.drop trail.length)

def withoutTrail (w : Word) : Word := (w.reverse.dropWhile Text.isBlank).reverse

/-- A word in pieces that fit on a line, the last one first. -/
def pieces (limit : Nat) (w : Word) : List Word :=
  w.foldl (fun ps c => match ps with
    | [] => [[c]]
    | p :: ps => if limit < cellCount p + cells c then [c] :: p :: ps else (p ++ [c]) :: ps) []

/-- Finished lines, the last one first, and the words of the line that is being filled. -/
structure Layout where
  finished : List (List Char)
  current : List Char

namespace Layout

def next (l : Layout) (cs : List Char) : Layout :=
  if l.current.isEmpty then { l with current := cs } else ⟨l.current :: l.finished, cs⟩

def add (limit : Nat) (l : Layout) (w : Word) : Layout :=
  let needed := cellCount (withoutTrail w)
  if cellCount l.current + needed ≤ limit then { l with current := l.current ++ w }
  else if limit < needed then (pieces limit w).reverse.foldl next l
  else l.next w

def lines (l : Layout) : List (List Char) := (l.current :: l.finished).reverse

end Layout

/-- A line without the blanks at its end for which there is no room. -/
def fitted (limit : Nat) (cs : List Char) : List Char :=
  let kept := withoutTrail cs
  kept ++ (cs.drop kept.length).take (limit - kept.length)

def wrapLine (limit : Nat) (cs : List Char) : List (List Char) :=
  (((words (cs.length + 1) cs).foldl (Layout.add limit) ⟨[], []⟩).lines).map (fitted limit)

/-- The lines on the console for a text with tags. -/
def lines (s : String) : List String :=
  let text := String.ofList (shown (s.length + 1) s.toList)
  ((text.splitOn "\n").flatMap fun l => wrapLine width l.toList).map String.ofList

end Backtesting.Console
