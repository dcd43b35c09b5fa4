import Interlock.Word

/-!
# Data

The elements that scripts keep in the collections. Equality is not reflexive: the text `NaN` equals
nothing. Inside a list it is a text like any other.
-/

namespace Interlock

inductive Datum where
  | null
  | bool (b : Bool)
  | int (n : Int)
  | text (s : String)
  | list (items : List Datum)
  deriving Inhabited

namespace Datum

mutual

/-- Whether two data are written alike. -/
def same : Datum → Datum → Bool
  | .null, .null => true
  | .bool a, .bool b => a = b
  | .int a, .int b => a = b
  | .text a, .text b => a = b
  | .list as, .list bs => sameLists as bs
  | _, _ => false

def sameLists : List Datum → List Datum → Bool
  | [], [] => true
  | a :: as, b :: bs => same a b && sameLists as bs
  | _, _ => false

end

def isNaN : Datum → Bool
  | .text s => s = "NaN"
  | _ => false

def equal (a b : Datum) : Bool := same a b && !a.isNaN

instance : BEq Datum := ⟨equal⟩

/-! ## Written form -/

def escape (c : Char) : List Char :=
  if c = '"' then ['\\', '"']
  else if c = '\\' then ['\\', '\\']
  else if c = '\x08' then ['\\', 'b']
  else if c = '\x0c' then ['\\', 'f']
  else if c = '\n' then ['\\', 'n']
  else if c = '\r' then ['\\', 'r']
  else if c = '\t' then ['\\', 't']
  else if c < ' ' then
    let ds := Nat.toDigits 16 c.toNat
    ['\\', 'u'] ++ List.replicate (4 - ds.length) '0' ++ ds
  else [c]

def quote (s : String) : String := String.ofList (['"'] ++ s.toList.flatMap escape ++ ['"'])

mutual

def compact : Datum → String
  | .null => "null"
  | .bool true => "true"
  | .bool false => "false"
  | .int n => toString n
  | .text s => quote s
  | .list items => "[" ++ compactItems items ++ "]"

def compactItems : List Datum → String
  | [] => ""
  | [a] => compact a
  | a :: b :: rest => compact a ++ "," ++ compactItems (b :: rest)

end

/-! ## Changes -/

def int64? : Datum → Option Int
  | .int n => if Word.isSigned n then some n else none
  | _ => none

def add? (d : Datum) (n : Int) : Option Datum := d.int64?.map fun m => .int (Word.wrap (m + n))

/-- A list with one more item or a text with one more text, and its new length. -/
def append? : Datum → Datum → Option (Datum × Nat)
  | .list items, d => some (.list (items ++ [d]), items.length + 1)
  | .text s, .text t => some (.text (s ++ t), (s ++ t).length)
  | _, _ => none

end Datum

end Interlock
