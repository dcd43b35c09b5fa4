import Interlock.Toml.Scan

/-!
# Dates and times of a document

A moment is a date, a time, or a date and a time with or without an offset. Which moment it is plays no
part, but every part has to be one that exists.
-/

namespace Interlock.Toml

def fixedDigits (count : Nat) (cs : List Char) : Option (Nat × List Char) :=
  let ds := cs.take count
  if ds.length = count ∧ ds.all Char.isDigit then some (Nat.ofDigitChars 10 ds 0, cs.drop count) else none

def twoDigits (low high : Nat) (cs : List Char) : Option (Nat × List Char) := do
  let (n, rest) ← fixedDigits 2 cs
  if low ≤ n ∧ n ≤ high then some (n, rest) else none

def symbol (c : Char) : List Char → Option (List Char)
  | d :: rest => if d = c then some rest else none
  | [] => none

def isLeapYear (year : Nat) : Bool :=
  year % 4 = 0 && (year % 100 != 0 || year % 400 = 0)

def daysIn (year month : Nat) : Nat :=
  if month = 2 then (if isLeapYear year then 29 else 28)
  else if month = 4 ∨ month = 6 ∨ month = 9 ∨ month = 11 then 30
  else 31

def date (cs : List Char) : Option (List Char) := do
  let (year, cs) ← fixedDigits 4 cs
  let cs ← symbol '-' cs
  let (month, cs) ← twoDigits 1 12 cs
  let cs ← symbol '-' cs
  let (_, rest) ← twoDigits 1 (daysIn year month) cs
  some rest

def secondFraction : List Char → List Char
  | '.' :: c :: rest => if c.isDigit then rest.dropWhile Char.isDigit else '.' :: c :: rest
  | cs => cs

/-- A time of the day; a minute may have a sixty-first second. -/
def time (cs : List Char) : Option (List Char) := do
  let (_, cs) ← twoDigits 0 23 cs
  let cs ← symbol ':' cs
  let (_, cs) ← twoDigits 0 59 cs
  let cs ← symbol ':' cs
  let (_, cs) ← twoDigits 0 60 cs
  some (secondFraction cs)

def offset : List Char → Option (List Char)
  | 'Z' :: rest => some rest
  | 'z' :: rest => some rest
  | c :: cs =>
    if c = '+' ∨ c = '-' then do
      let (_, cs) ← twoDigits 0 23 cs
      let cs ← symbol ':' cs
      let (_, rest) ← twoDigits 0 59 cs
      some rest
    else none
  | [] => none

/-- What may follow a date: a time after a mark, with or without an offset. -/
def timeOfDate : List Char → List Char
  | c :: cs =>
    if c = 'T' ∨ c = 't' ∨ c = ' ' then
      match time cs with
      | some rest => (offset rest).getD rest
      | none => c :: cs
    else c :: cs
  | [] => []

def moment (cs : List Char) : Option (Unit × List Char) :=
  ((date cs).map fun rest => ((), timeOfDate rest)).orElse fun _ => (time cs).map fun rest => ((), rest)

end Interlock.Toml
