import Backtesting.Document.Json
import Backtesting.Document.Scalar

/-!
Documents as text whose structure is shown by indentation. Each line of a mapping is a key, a colon
and a value; each entry of a list starts with a dash. Between brackets and braces the other notation
holds, where commas part the entries and lines do not matter. Words stand without quotes, between
single quotes or, with escapes, between double quotes. Texts over several lines, anchors and tags
are not read.
-/
namespace Backtesting.Document.Yaml

def refused : Except Error α := .error .unreadableConfig

def isSpace (c : Char) : Bool := c = ' ' ∨ c = '\t'

def isLineEnd (c : Char) : Bool := c = '\n' ∨ c = '\r'

/-- Whether a colon before `cs` ends a key. -/
def endsKey (cs : List Char) : Bool :=
  match cs with
  | [] => true
  | c :: _ => isSpace c || isLineEnd c

def dropComment (cs : List Char) : List Char :=
  match cs with
  | '#' :: rest => rest.dropWhile (!isLineEnd ·)
  | cs => cs

/-- Drops blanks and a comment up to the end of the line. -/
def restOfLine (cs : List Char) : List Char := dropComment (cs.dropWhile isSpace)

/-- Drops blanks, line ends and comments. -/
def skip : Nat → List Char → List Char
  | 0, cs => cs
  | fuel + 1, cs =>
      match restOfLine cs with
      | c :: rest => if isLineEnd c then skip fuel rest else c :: rest
      | [] => []

def skipAll (cs : List Char) : List Char := skip (cs.length + 1) cs

/-- Between single quotes a quote is written twice. -/
def single : List Char → List Char → Except Error (String × List Char)
  | acc, '\'' :: '\'' :: cs => single ('\'' :: acc) cs
  | acc, '\'' :: cs => .ok (String.ofList acc.reverse, cs)
  | acc, c :: cs => single (c :: acc) cs
  | _, [] => refused

def double (cs : List Char) : Except Error (String × List Char) :=
  match Json.string? (cs.length + 1) [] cs with
  | some r => .ok r
  | none => refused

def flowMarks : List Char := [',', '[', ']', '\x7b', '\x7d']

/-- The characters of a word without quotes; within brackets it ends at a mark. -/
def plain (inFlow : Bool) : List Char → List Char → List Char × List Char
  | acc, [] => (acc, [])
  | acc, c :: cs =>
      let ends := isLineEnd c || (c == ':' && (endsKey cs || inFlow && (cs.head?.any flowMarks.contains)))
        || (c == '#' && acc.head?.any isSpace) || (inFlow && flowMarks.contains c)
      if ends then (acc, c :: cs) else plain inFlow (c :: acc) cs

/-- A word without quotes or blanks at its end. -/
def plainWord (inFlow : Bool) (cs : List Char) : String × List Char :=
  let (acc, rest) := plain inFlow [] cs
  (String.ofList (acc.dropWhile isSpace).reverse, rest)

/-- What no word without quotes begins with. -/
def reserved : List Char := ['&', '*', '!', '|', '>', '%', '@', '\x60', '?', '#', ']', '\x7d', ',']

def beginsWord (cs : List Char) : Bool :=
  match cs with
  | [] => true
  | c :: rest => !reserved.contains c && !(c == '-' && endsKey rest)

/-- A scalar; `quoted` says what a word in quotes is. -/
def scalar (inFlow : Bool) (cs : List Char) : Except Error (Document × List Char) :=
  match cs with
  | '"' :: rest => do
      let (s, rest) ← double rest
      pure (.text s, rest)
  | '\'' :: rest => do
      let (s, rest) ← single [] rest
      pure (.text s, rest)
  | cs =>
      if beginsWord cs then do
        let (s, rest) := plainWord inFlow cs
        pure (← Scalar.read s, rest)
      else refused

def key (inFlow : Bool) (cs : List Char) : Except Error (String × List Char) :=
  match cs with
  | '"' :: rest => double rest
  | '\'' :: rest => single [] rest
  | cs => if beginsWord cs then .ok (plainWord inFlow cs) else refused

mutual

/-- A value between brackets or braces. -/
def flow : Nat → List Char → Except Error (Document × List Char)
  | 0, _ => refused
  | fuel + 1, cs =>
      match skipAll cs with
      | '[' :: cs => do
          let (xs, cs) ← flowItems fuel cs
          pure (.list xs, cs)
      | '\x7b' :: cs => do
          let (fs, cs) ← flowFields fuel cs
          pure (ofFields fs, cs)
      | ',' :: cs => .ok (.null, ',' :: cs)
      | '\x7d' :: cs => .ok (.null, '\x7d' :: cs)
      | cs => scalar true cs

def flowItems : Nat → List Char → Except Error (List Document × List Char)
  | 0, _ => refused
  | fuel + 1, cs =>
      match skipAll cs with
      | ']' :: cs => .ok ([], cs)
      | ',' :: _ => refused
      | cs => do
          let (x, cs) ← flow fuel cs
          match skipAll cs with
          | ',' :: cs => do
              let (xs, cs) ← flowItems fuel cs
              pure (x :: xs, cs)
          | ']' :: cs => pure ([x], cs)
          | _ => refused

def flowFields : Nat → List Char → Except Error (List (String × Document) × List Char)
  | 0, _ => refused
  | fuel + 1, cs =>
      match skipAll cs with
      | '\x7d' :: cs => .ok ([], cs)
      | ',' :: _ => refused
      | cs => do
          let (k, cs) ← key true cs
          let (x, cs) ← match skipAll cs with
            | ':' :: cs => flow fuel cs
            | cs => pure (.null, cs)
          match skipAll cs with
          | ',' :: cs => do
              let (fs, cs) ← flowFields fuel cs
              pure ((k, x) :: fs, cs)
          | '\x7d' :: cs => pure ([(k, x)], cs)
          | _ => refused

end

structure Line where
  indent : Nat
  text : List Char

namespace Line

def ofText (s : String) : Line :=
  let cs := s.toList
  let text := cs.dropWhile (· = ' ')
  ⟨cs.length - text.length, text⟩

/-- Nothing but blanks and a comment. -/
def isVoid (l : Line) : Bool := (restOfLine l.text).all isLineEnd

def isDashed (l : Line) : Bool :=
  match l.text with
  | '-' :: rest => endsKey rest
  | _ => false

/-- The entry of a list that begins on the line, as a line of its own. -/
def entry (l : Line) : Line :=
  let rest := l.text.drop 1
  let text := rest.dropWhile (· = ' ')
  ⟨l.indent + 1 + (rest.length - text.length), text⟩

def written (l : Line) : List Char := List.replicate l.indent ' ' ++ l.text

/-- The key on the line and what follows its colon, if the line has both. -/
def keyed? (l : Line) : Except Error (Option (String × List Char)) :=
  match l.text with
  | '[' :: _ | '\x7b' :: _ => .ok none
  | cs => do
      let (k, rest) ← key false cs
      match rest.dropWhile isSpace with
      | ':' :: rest => if endsKey rest then pure (some (k, rest)) else refused
      | _ => pure none

end Line

def skipVoid (ls : List Line) : List Line := ls.dropWhile Line.isVoid

def joined (cs : List Char) (ls : List Line) : List Char :=
  cs ++ ls.flatMap fun l => '\n' :: l.written

def linesOf (s : String) : List Line := (s.splitOn "\n").map Line.ofText

/-- A value that begins at `cs`, within the line before `ls`, and ends with its own line. -/
def inline (cs : List Char) (ls : List Line) : Except Error (Document × List Line) := do
  let begun := cs.dropWhile isSpace
  let isFlow := begun.head? == some '[' || begun.head? == some '\x7b'
  let text := if isFlow then joined begun ls else begun
  let (x, rest) ← if isFlow then flow (2 * text.length + 2) text else scalar false text
  let rest := restOfLine rest
  if !(rest.takeWhile (· ≠ '\n')).all isLineEnd then refused
  else if isFlow then pure (x, (linesOf (String.ofList rest)).drop 1)
  else pure (x, ls)

mutual

/-- The value on the lines that are indented by at least `least`, and the lines after it. -/
def block : Nat → Nat → List Line → Except Error (Document × List Line)
  | 0, _, _ => refused
  | fuel + 1, least, ls =>
      match skipVoid ls with
      | [] => .ok (.null, [])
      | l :: rest => do
          if l.indent < least then return (.null, l :: rest)
          if l.isDashed then
            let (xs, rest) ← entries fuel l.indent (l :: rest)
            return (.list xs, rest)
          match ← l.keyed? with
          | some _ =>
              let (fs, rest) ← fields fuel l.indent (l :: rest)
              return (ofFields fs, rest)
          | none => inline l.text rest

def entries : Nat → Nat → List Line → Except Error (List Document × List Line)
  | 0, _, _ => refused
  | fuel + 1, indent, ls =>
      match skipVoid ls with
      | [] => .ok ([], [])
      | l :: rest => do
          if l.indent < indent then return ([], l :: rest)
          if indent < l.indent then refused
          if !l.isDashed then return ([], l :: rest)
          let inner := if l.entry.isVoid then rest else l.entry :: rest
          let (x, rest) ← block fuel (indent + 1) inner
          let (xs, rest) ← entries fuel indent rest
          return (x :: xs, rest)

def fields : Nat → Nat → List Line → Except Error (List (String × Document) × List Line)
  | 0, _, _ => refused
  | fuel + 1, indent, ls =>
      match skipVoid ls with
      | [] => .ok ([], [])
      | l :: rest => do
          if l.indent < indent then return ([], l :: rest)
          if indent < l.indent || l.isDashed then refused
          match ← l.keyed? with
          | none => refused
          | some (k, value) =>
              let (x, rest) ← if (Line.mk 0 value).isVoid then below fuel indent rest
                else inline value rest
              let (fs, rest) ← fields fuel indent rest
              return ((k, x) :: fs, rest)

/-- The value of a key on the lines after it; a list may stand as far out as the key. -/
def below : Nat → Nat → List Line → Except Error (Document × List Line)
  | 0, _, _ => refused
  | fuel + 1, indent, ls =>
      match skipVoid ls with
      | [] => .ok (.null, [])
      | l :: rest =>
          if l.indent = indent && l.isDashed then do
            let (xs, rest) ← entries fuel indent (l :: rest)
            pure (.list xs, rest)
          else block fuel (indent + 1) (l :: rest)

end

def isMarker (marker : String) (l : Line) : Bool :=
  l.indent = 0 && l.text.take 3 = marker.toList && endsKey (l.text.drop 3)

/-- The lines of the document, without the markers around it. -/
def content (s : String) : List Line :=
  let ls := skipVoid (linesOf (Text.withoutMark s))
  let ls := match ls with
    | l :: rest => if isMarker "---" l then Line.mk 0 (l.text.drop 3) :: rest else ls
    | [] => []
  ls.takeWhile (!isMarker "..." ·)

/-- The document of a text; an empty text is null. -/
def read (s : String) : Except Error Document := do
  let ls := content s
  let (x, rest) ← block (4 * s.length + 8) 0 ls
  if (skipVoid rest).isEmpty then pure x else refused

end Backtesting.Document.Yaml
