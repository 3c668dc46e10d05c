import Backtesting.Document.Basic

/-!
Documents as JSON text. A number without point and exponent is a whole number; of a repeated field
the first place and the last value count. The layout of a written text says whether it is spread
over lines and whether characters beyond ASCII are escaped.
-/
namespace Backtesting.Document.Json

def skipBlanks : List Char → List Char
  | c :: cs => if c = ' ' ∨ c = '\n' ∨ c = '\r' ∨ c = '\t' then skipBlanks cs else c :: cs
  | [] => []

def hexValue? (c : Char) : Option Nat :=
  if '0' ≤ c ∧ c ≤ '9' then some (c.toNat - '0'.toNat)
  else if 'a' ≤ c ∧ c ≤ 'f' then some (c.toNat - 'a'.toNat + 10)
  else if 'A' ≤ c ∧ c ≤ 'F' then some (c.toNat - 'A'.toNat + 10)
  else none

def hex4? : List Char → Option (Nat × List Char)
  | a :: b :: c :: d :: cs => do
      let a ← hexValue? a
      let b ← hexValue? b
      let c ← hexValue? c
      let d ← hexValue? d
      some (((a * 16 + b) * 16 + c) * 16 + d, cs)
  | _ => none

def escaped? : Char → Option Char
  | '"' => some '"'
  | '\\' => some '\\'
  | '/' => some '/'
  | 'b' => some '\x08'
  | 'f' => some '\x0c'
  | 'n' => some '\n'
  | 'r' => some '\r'
  | 't' => some '\t'
  | _ => none

/-- A code unit, joined with the next one where the two are a surrogate pair. -/
def unicodeEscape? (cs : List Char) : Option (Char × List Char) := do
  let (u, rest) ← hex4? cs
  if 0xd800 ≤ u ∧ u < 0xdc00 then
    match rest with
    | '\\' :: 'u' :: rest => do
        let (v, rest) ← hex4? rest
        some (Char.ofNat (0x10000 + (u - 0xd800) * 0x400 + (v - 0xdc00)), rest)
    | _ => none
  else some (Char.ofNat u, rest)

/-- The text up to the closing quote, collected in reverse. -/
def string? : Nat → List Char → List Char → Option (String × List Char)
  | 0, _, _ => none
  | _, _, [] => none
  | _, acc, '"' :: cs => some (String.ofList acc.reverse, cs)
  | fuel + 1, acc, '\\' :: 'u' :: cs => do
      let (c, cs) ← unicodeEscape? cs
      string? fuel (c :: acc) cs
  | fuel + 1, acc, '\\' :: c :: cs => do
      let c ← escaped? c
      string? fuel (c :: acc) cs
  | fuel + 1, acc, c :: cs => string? fuel (c :: acc) cs

def isNumberChar (c : Char) : Bool :=
  c.isDigit || c == '-' || c == '+' || c == '.' || c == 'e' || c == 'E'

def number? (cs : List Char) : Option Document :=
  if cs.any fun c => c == '.' || c == 'e' || c == 'E' then
    (Binary64.ofText? (String.ofList cs)).map number
  else (Binary64.signedInt? cs).map integer

mutual

def value? : Nat → List Char → Option (Document × List Char)
  | 0, _ => none
  | fuel + 1, cs =>
      match skipBlanks cs with
      | '"' :: cs => do
          let (s, cs) ← string? (cs.length + 1) [] cs
          some (.text s, cs)
      | '\x7b' :: cs =>
          match skipBlanks cs with
          | '\x7d' :: cs => some (.object [], cs)
          | cs => (fields? fuel cs).map fun (fs, cs) => (ofFields fs, cs)
      | '[' :: cs =>
          match skipBlanks cs with
          | ']' :: cs => some (.list [], cs)
          | cs => (items? fuel cs).map fun (xs, cs) => (.list xs, cs)
      | 't' :: 'r' :: 'u' :: 'e' :: cs => some (.bool true, cs)
      | 'f' :: 'a' :: 'l' :: 's' :: 'e' :: cs => some (.bool false, cs)
      | 'n' :: 'u' :: 'l' :: 'l' :: cs => some (.null, cs)
      | cs => (number? (cs.takeWhile isNumberChar)).map (·, cs.dropWhile isNumberChar)

def items? : Nat → List Char → Option (List Document × List Char)
  | 0, _ => none
  | fuel + 1, cs => do
      let (x, cs) ← value? fuel cs
      match skipBlanks cs with
      | ',' :: cs => do
          let (xs, cs) ← items? fuel cs
          some (x :: xs, cs)
      | ']' :: cs => some ([x], cs)
      | _ => none

def fields? : Nat → List Char → Option (List (String × Document) × List Char)
  | 0, _ => none
  | fuel + 1, cs =>
      match skipBlanks cs with
      | '"' :: cs => do
          let (k, cs) ← string? (cs.length + 1) [] cs
          match skipBlanks cs with
          | ':' :: cs => do
              let (x, cs) ← value? fuel cs
              match skipBlanks cs with
              | ',' :: cs => do
                  let (fs, cs) ← fields? fuel cs
                  some ((k, x) :: fs, cs)
              | '\x7d' :: cs => some ([(k, x)], cs)
              | _ => none
          | _ => none
      | _ => none

end

/-- The document written in `s`, `none` when `s` is no JSON text. -/
def parse? (s : String) : Option Document :=
  let cs := s.toList
  match value? (cs.length + 1) cs with
  | some (x, rest) => if (skipBlanks rest).isEmpty then some x else none
  | none => none

structure Layout where
  /-- Blanks for each level when every entry stands on a line of its own. -/
  indent : Option Nat
  /-- Whether characters beyond ASCII are written by their code units. -/
  asciiOnly : Bool

def unitText (n : Nat) : List Char := '\\' :: 'u' :: Text.hexDigits 4 n

def writtenChar (asciiOnly : Bool) (c : Char) : List Char :=
  if c = '"' then ['\\', '"']
  else if c = '\\' then ['\\', '\\']
  else if c = '\n' then ['\\', 'n']
  else if c = '\r' then ['\\', 'r']
  else if c = '\t' then ['\\', 't']
  else if c = '\x08' then ['\\', 'b']
  else if c = '\x0c' then ['\\', 'f']
  else if c.toNat < 0x20 then unitText c.toNat
  else if asciiOnly ∧ 0x7f ≤ c.toNat then
    if c.toNat < 0x10000 then unitText c.toNat
    else
      let v := c.toNat - 0x10000
      unitText (0xd800 + v / 0x400) ++ unitText (0xdc00 + v % 0x400)
  else [c]

def writtenText (asciiOnly : Bool) (s : String) : String :=
  String.ofList ('"' :: s.toList.flatMap (writtenChar asciiOnly) ++ ['"'])

def numberText (x : Float) : String :=
  match Binary64.parts x with
  | .nan => "NaN"
  | .infinity n => if n then "-Infinity" else "Infinity"
  | .finite .. => Binary64.toText x

/-- Entries between brackets, at the given depth. -/
def enclosed (layout : Layout) (depth : Nat) (left right : String) (entries : List String) : String :=
  if entries.isEmpty then left ++ right
  else match layout.indent with
    | none => left ++ ", ".intercalate entries ++ right
    | some n =>
        let line (k : Nat) := "\n" ++ String.ofList (List.replicate (n * k) ' ')
        left ++ line (depth + 1) ++ ("," ++ line (depth + 1)).intercalate entries ++
          line depth ++ right

mutual

def written (layout : Layout) : Nat → Document → String
  | _, null => "null"
  | _, bool b => if b then "true" else "false"
  | _, integer i => toString i
  | _, number x => numberText x
  | _, text s => writtenText layout.asciiOnly s
  | _, date d => writtenText layout.asciiOnly d.toText
  | depth, list xs => enclosed layout depth "[" "]" (writtenItems layout (depth + 1) xs)
  | depth, object fs =>
      enclosed layout depth "\x7b" "\x7d" (writtenFields layout (depth + 1) fs)

def writtenItems (layout : Layout) : Nat → List Document → List String
  | _, [] => []
  | depth, x :: xs => written layout depth x :: writtenItems layout depth xs

def writtenFields (layout : Layout) : Nat → List (String × Document) → List String
  | _, [] => []
  | depth, (k, x) :: fs =>
      (writtenText layout.asciiOnly k ++ ": " ++ written layout depth x) ::
        writtenFields layout depth fs

end

def render (layout : Layout) (x : Document) : String := written layout 0 x

end Backtesting.Document.Json
