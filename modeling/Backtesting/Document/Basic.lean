import Backtesting.Binary64.Text
import Backtesting.Calendar.Date
import Backtesting.Text.Quoted

/-!
Documents: the values that configurations, snapshots and tables are made of, before anything is
known about their meaning. Whole numbers and binary numbers are kept apart, and the fields of an
object keep their order. `show` is the plain text of a value and `quotedForm` its text inside
another one, where texts stand in quotes.
-/
namespace Backtesting

inductive Document
  | null
  | bool (value : Bool)
  | integer (value : Int)
  | number (value : Float)
  | text (value : String)
  | date (value : Date)
  | list (items : List Document)
  | object (fields : List (String × Document))
deriving Inhabited

namespace Document

mutual

def quotedForm : Document → String
  | null => "None"
  | bool b => if b then "True" else "False"
  | integer i => toString i
  | number x => Binary64.toText x
  | text s => Text.quoted s
  | date d => s!"datetime.date({d.year}, {d.month}, {d.day})"
  | list xs => "[" ++ ", ".intercalate (quotedItems xs) ++ "]"
  | object fs => "\x7b" ++ ", ".intercalate (quotedFields fs) ++ "\x7d"

def quotedItems : List Document → List String
  | [] => []
  | x :: xs => quotedForm x :: quotedItems xs

def quotedFields : List (String × Document) → List String
  | [] => []
  | (k, x) :: fs => (Text.quoted k ++ ": " ++ quotedForm x) :: quotedFields fs

end

def plainText : Document → String
  | text s => s
  | date d => d.toText
  | x => quotedForm x

def get? : Document → String → Option Document
  | object fs, k => fs.lookup k
  | _, _ => none

/-- The field `k`, where a field that is not there is null. -/
def field (x : Document) (k : String) : Document := (x.get? k).getD null

def putField (k : String) (v : Document) : List (String × Document) → List (String × Document)
  | [] => [(k, v)]
  | f :: fs => if f.1 = k then (k, v) :: fs else f :: putField k v fs

/-- The fields in order of their first mention, each with the value of its last. -/
def ofFields (fs : List (String × Document)) : Document :=
  object (fs.foldl (fun acc f => putField f.1 f.2 acc) [])

def isNull : Document → Bool
  | null => true
  | _ => false

/-- A value counts as given unless it is null, false, a zero or empty. -/
def isGiven : Document → Bool
  | null => false
  | bool b => b
  | integer i => i != 0
  | number x => x != 0
  | text s => s != ""
  | date _ => true
  | list xs => !xs.isEmpty
  | object fs => !fs.isEmpty

def text? : Document → Option String
  | text s => some s
  | _ => none

def integer? : Document → Option Int
  | integer i => some i
  | _ => none

def bool? : Document → Option Bool
  | bool b => some b
  | _ => none

def items : Document → List Document
  | list xs => xs
  | _ => []

def fields : Document → List (String × Document)
  | object fs => fs
  | _ => []

end Document
end Backtesting
