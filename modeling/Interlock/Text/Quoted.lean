import Interlock.Text.Printable
import Interlock.Text.Extending

/-!
# Quoted text

How a text is shown between quotes in a diagnosis: quotes, backslashes and the usual control characters
by a backslash and a letter, unprintable and extending characters by their code point in hexadecimal.
-/

namespace Interlock.Text

/-- The code point of a character between braces, as `\u{1b}`. -/
def codePoint (c : Char) : List Char :=
  ['\\', 'u', '{'] ++ Nat.toDigits 16 c.toNat ++ ['}']

def escape (c : Char) : List Char :=
  if c = '"' then ['\\', '"']
  else if c = '\\' then ['\\', '\\']
  else if c = '\n' then ['\\', 'n']
  else if c = '\r' then ['\\', 'r']
  else if c = '\t' then ['\\', 't']
  else if c = '\x00' then ['\\', '0']
  else if isPrintable c && !isExtending c then [c]
  else codePoint c

def quoted (s : String) : String :=
  String.ofList (['"'] ++ s.toList.flatMap escape ++ ['"'])

end Interlock.Text
