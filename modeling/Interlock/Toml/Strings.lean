import Interlock.Toml.Scan

/-!
# Strings of a document

Basic strings stand between double quotes and know escapes, literal strings stand between single quotes
and know none. Tripled quotes make either span lines.
-/

namespace Interlock.Toml

def hexDigit? (c : Char) : Option Nat :=
  if c.isDigit then some (c.toNat - '0'.toNat)
  else if decide ('a' ≤ c) && decide (c ≤ 'f') then some (c.toNat - 'a'.toNat + 10)
  else if decide ('A' ≤ c) && decide (c ≤ 'F') then some (c.toNat - 'A'.toNat + 10)
  else none

def scalar? (digits : List Char) : Option Char := do
  let ds ← digits.mapM hexDigit?
  let n := ds.foldl (fun n d => 16 * n + d) 0
  if n.isValidChar then some (Char.ofNat n) else none

def shortEscape? : Char → Option Char
  | 'b' => some '\x08'
  | 't' => some '\t'
  | 'n' => some '\n'
  | 'f' => some '\x0c'
  | 'r' => some '\r'
  | '"' => some '"'
  | '\\' => some '\\'
  | _ => none

def prepend (c : Char) (tail : Option (List Char × List Char)) : Option (List Char × List Char) :=
  tail.map fun (text, rest) => (c :: text, rest)

def basicTail : Scan (List Char)
  | [] => none
  | '"' :: rest => some ([], rest)
  | '\\' :: 'u' :: a :: b :: c :: d :: rest => do prepend (← scalar? [a, b, c, d]) (basicTail rest)
  | '\\' :: 'U' :: a :: b :: c :: d :: e :: f :: g :: h :: rest => do
    prepend (← scalar? [a, b, c, d, e, f, g, h]) (basicTail rest)
  | '\\' :: c :: rest => do prepend (← shortEscape? c) (basicTail rest)
  | c :: rest => if isPlain c && c != '\\' then prepend c (basicTail rest) else none

def literalTail : Scan (List Char)
  | [] => none
  | '\'' :: rest => some ([], rest)
  | c :: rest => if isPlain c then prepend c (literalTail rest) else none

def endsLine (cs : List Char) : Bool := (newline? (skipBlanks cs)).isSome

/-- The text of a basic string over several lines, after its opening quotes. A backslash at the end of a
line drops all blanks and line ends up to the next other character; `trimming` says that this is going on.
Up to two quotes may stand right before the closing ones. -/
def basicLines (trimming : Bool) : Scan (List Char)
  | [] => none
  | '"' :: '"' :: '"' :: '"' :: '"' :: rest => some (['"', '"'], rest)
  | '"' :: '"' :: '"' :: '"' :: rest => some (['"'], rest)
  | '"' :: '"' :: '"' :: rest => some ([], rest)
  | '\r' :: '\n' :: rest => if trimming then basicLines true rest else prepend '\n' (basicLines false rest)
  | '\\' :: 'u' :: a :: b :: c :: d :: rest => do
    prepend (← scalar? [a, b, c, d]) (basicLines false rest)
  | '\\' :: 'U' :: a :: b :: c :: d :: e :: f :: g :: h :: rest => do
    prepend (← scalar? [a, b, c, d, e, f, g, h]) (basicLines false rest)
  | '\\' :: c :: rest =>
    if endsLine (c :: rest) then basicLines true (c :: rest)
    else do prepend (← shortEscape? c) (basicLines false rest)
  | c :: rest =>
    if trimming && (isBlank c || c = '\n') then basicLines true rest
    else if c = '\n' || (isPlain c && c != '\\') then prepend c (basicLines false rest)
    else none

def literalLines : Scan (List Char)
  | [] => none
  | '\'' :: '\'' :: '\'' :: '\'' :: '\'' :: rest => some (['\'', '\''], rest)
  | '\'' :: '\'' :: '\'' :: '\'' :: rest => some (['\''], rest)
  | '\'' :: '\'' :: '\'' :: rest => some ([], rest)
  | '\r' :: '\n' :: rest => prepend '\n' (literalLines rest)
  | c :: rest => if c = '\n' || isPlain c then prepend c (literalLines rest) else none

/-- The rest without a line end right after the opening quotes, which is no part of the text. -/
def dropFirstLineEnd (cs : List Char) : List Char := (newline? cs).getD cs

def lineString : Scan (List Char)
  | '"' :: rest => basicTail rest
  | '\'' :: rest => literalTail rest
  | _ => none

def string : Scan (List Char)
  | '"' :: '"' :: '"' :: rest => basicLines false (dropFirstLineEnd rest)
  | '\'' :: '\'' :: '\'' :: rest => literalLines (dropFirstLineEnd rest)
  | cs => lineString cs

end Interlock.Toml
