import Interlock.Toml.Strings
import Interlock.Word

/-!
# Numbers of a document

Integers are 64-bit and signed, in decimal or, with a leading `0x`, `0o` or `0b`, in another base. Single
underscores may stand between digits. A float has a fraction or an exponent; its value plays no part, but
one that rounds to positive infinity is refused.
-/

namespace Interlock.Toml

/-- The digits at the front, of which `isDigit` says what they are, with single underscores between them
left out. `isDigit` holds of the character before. -/
def moreDigits (isDigit : Char → Bool) : List Char → List Char × List Char
  | [] => ([], [])
  | '_' :: c :: rest =>
    if isDigit c then
      let (ds, rest) := moreDigits isDigit rest
      (c :: ds, rest)
    else ([], '_' :: c :: rest)
  | c :: rest =>
    if isDigit c then
      let (ds, rest) := moreDigits isDigit rest
      (c :: ds, rest)
    else ([], c :: rest)

def digits (isDigit : Char → Bool) : Scan (List Char)
  | [] => none
  | c :: rest =>
    if isDigit c then
      let (ds, rest) := moreDigits isDigit rest
      some (c :: ds, rest)
    else none

def wholeDigits : Scan (List Char)
  | '0' :: rest => some (['0'], rest)
  | cs => digits Char.isDigit cs

def sign : List Char → Bool × List Char
  | '-' :: rest => (true, rest)
  | '+' :: rest => (false, rest)
  | cs => (false, cs)

def integerInRange (n : Int) (rest : List Char) : Option (Int × List Char) :=
  if Word.isSigned n then some (n, rest) else none

def decimalInteger (cs : List Char) : Option (Int × List Char) := do
  let (negative, cs) := sign cs
  let (ds, rest) ← wholeDigits cs
  let n : Int := Nat.ofDigitChars 10 ds 0
  integerInRange (if negative then -n else n) rest

def radixInteger (base : Nat) (cs : List Char) : Option (Int × List Char) := do
  let isDigit (c : Char) := (hexDigit? c).any (· < base)
  let (ds, rest) ← digits isDigit cs
  integerInRange (ds.foldl (fun n c => base * n + (hexDigit? c).getD 0) 0 : Nat) rest

def integer : Scan Int
  | '0' :: 'x' :: cs => radixInteger 16 cs
  | '0' :: 'o' :: cs => radixInteger 8 cs
  | '0' :: 'b' :: cs => radixInteger 2 cs
  | cs => decimalInteger cs

/-- Whether `m · 10 ^ e` rounds to infinity as a double: it is at least the midpoint between the greatest
double and the next power of two. Both the bounds on the number of digits only save work. -/
def overflows (m : Nat) (e : Int) : Bool :=
  let magnitude : Int := (Nat.toDigits 10 m).length + e
  if m = 0 ∨ magnitude < 300 then false
  else if 320 < magnitude then true
  else
    let limit := Nat.pow 2 1024 - Nat.pow 2 970
    if 0 ≤ e then decide (limit ≤ m * Nat.pow 10 e.toNat) else decide (limit * Nat.pow 10 (-e).toNat ≤ m)

def exponent : Scan Int
  | c :: cs =>
    if c = 'e' ∨ c = 'E' then do
      let (negative, cs) := sign cs
      let (ds, rest) ← digits Char.isDigit cs
      let n : Int := Nat.ofDigitChars 10 ds 0
      some (if negative then -n else n, rest)
    else none
  | [] => none

def fraction : Scan (List Char)
  | '.' :: cs => digits Char.isDigit cs
  | _ => none

def decimalFloat (cs : List Char) : Option (Unit × List Char) := do
  let (negative, cs) := sign cs
  let (whole, cs) ← wholeDigits cs
  let (part, cs) := (fraction cs).getD ([], cs)
  let mantissa := Nat.ofDigitChars 10 (whole ++ part) 0
  let shift : Int := -part.length
  match exponent cs with
  | some (e, rest) => if !negative && overflows mantissa (shift + e) then none else some ((), rest)
  | none => if part.isEmpty || (!negative && overflows mantissa shift) then none else some ((), cs)

def specialFloat (cs : List Char) : Option (Unit × List Char) :=
  match (sign cs).2 with
  | 'i' :: 'n' :: 'f' :: rest => some ((), rest)
  | 'n' :: 'a' :: 'n' :: rest => some ((), rest)
  | _ => none

def float (cs : List Char) : Option (Unit × List Char) :=
  (decimalFloat cs).orElse fun _ => specialFloat cs

end Interlock.Toml
