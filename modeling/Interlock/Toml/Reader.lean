import Interlock.Toml.Numbers
import Interlock.Toml.Moments
import Interlock.Toml.Tables

/-!
# Reading a document

`parse` reads a whole document of TOML 1.0 into its top table, or refuses it. A document is read line by
line into headers and assignments; these make sections, and the sections make tables.
-/

namespace Interlock.Toml

/-- Arrays and inline tables nest fewer levels than this, and a dotted key has fewer parts. -/
def nestingLimit : Nat := 80

/-! ## Keys -/

def isBareKey (c : Char) : Bool := c.isAlphanum || c = '_' || c = '-'

def keyPart : Scan String
  | [] => none
  | c :: cs =>
    if c = '"' ∨ c = '\'' then (lineString (c :: cs)).map fun (text, rest) => (String.ofList text, rest)
    else
      let (text, rest) := (c :: cs).span isBareKey
      if text.isEmpty then none else some (String.ofList text, rest)

def keyParts (cs : List Char) : Option (List String × List Char) :=
  match keyPart (skipBlanks cs) with
  | none => none
  | some (part, rest) =>
    match skipBlanks rest with
    | '.' :: more =>
      if more.length < cs.length then (keyParts more).map fun (parts, rest) => (part :: parts, rest)
      else none
    | rest => some ([part], rest)
termination_by cs.length
decreasing_by assumption

def key (cs : List Char) : Option ((List String × String) × List Char) := do
  let (parts, rest) ← keyParts cs
  if nestingLimit ≤ parts.length then none
  else
    let name ← parts.getLast?
    some ((parts.dropLast, name), rest)

/-! ## Values -/

def assignment (value : Scan Value) (cs : List Char) : Option (Assignment × List Char) := do
  let ((path, name), rest) ← key cs
  let rest ← symbol '=' rest
  let (v, rest) ← value (skipBlanks rest)
  some (⟨path, name, v⟩, rest)

def elements (value : Scan Value) (cs : List Char) : Option (List Value × List Char) :=
  match skipLines false cs with
  | ']' :: rest => some ([], rest)
  | start =>
    match value start with
    | none => none
    | some (v, rest) =>
      match skipLines false rest with
      | ',' :: rest =>
        if rest.length < cs.length then (elements value rest).map fun (vs, rest) => (v :: vs, rest)
        else none
      | ']' :: rest => some ([v], rest)
      | _ => none
termination_by cs.length
decreasing_by assumption

def moreAssignments (value : Scan Value) (cs : List Char) : Option (List Assignment × List Char) :=
  match skipBlanks cs with
  | '}' :: rest => some ([], rest)
  | ',' :: rest =>
    match assignment value rest with
    | none => none
    | some (a, rest) =>
      if rest.length < cs.length then (moreAssignments value rest).map fun (as, rest) => (a :: as, rest)
      else none
  | _ => none
termination_by cs.length
decreasing_by assumption

def inlineAssignments (value : Scan Value) (cs : List Char) : Option (List Assignment × List Char) :=
  match skipBlanks cs with
  | '}' :: rest => some ([], rest)
  | cs => do
    let (a, rest) ← assignment value cs
    let (as, rest) ← moreAssignments value rest
    some (a :: as, rest)

def quantity (cs : List Char) : Option (Value × List Char) :=
  match moment cs with
  | some (_, rest) => some (.moment, rest)
  | none =>
    match float cs with
    | some (_, rest) => some (.float, rest)
    | none => (integer cs).map fun (n, rest) => (.integer n, rest)

def scalar : Scan Value
  | '"' :: cs => (string ('"' :: cs)).map fun (text, rest) => (.string (String.ofList text), rest)
  | '\'' :: cs => (string ('\'' :: cs)).map fun (text, rest) => (.string (String.ofList text), rest)
  | 't' :: 'r' :: 'u' :: 'e' :: rest => some (.boolean true, rest)
  | 'f' :: 'a' :: 'l' :: 's' :: 'e' :: rest => some (.boolean false, rest)
  | cs => quantity cs

/-- A value in which arrays and inline tables nest at most `depth` levels. -/
def value : (depth : Nat) → Scan Value
  | 0, cs => scalar cs
  | depth + 1, '[' :: cs => (elements (value depth) cs).map fun (vs, rest) => (.array vs, rest)
  | depth + 1, '{' :: cs => do
    let (as, rest) ← inlineAssignments (value depth) cs
    some (.table .inline (← fill [] as), rest)
  | _ + 1, cs => scalar cs

/-! ## Lines -/

inductive Line where
  | blank
  | header (h : Header)
  | assignment (a : Assignment)

def header : Scan Header
  | '[' :: '[' :: cs => do
    let ((path, name), rest) ← key cs
    let rest ← symbol ']' rest
    let rest ← symbol ']' rest
    some (.element path name, rest)
  | '[' :: cs => do
    let ((path, name), rest) ← key cs
    let rest ← symbol ']' rest
    some (.table path name, rest)
  | _ => none

def line (cs : List Char) : Option (Line × List Char) :=
  match lineEnd? cs with
  | some rest => some (.blank, rest)
  | none =>
    match skipBlanks cs with
    | '[' :: cs => do
      let (h, rest) ← header ('[' :: cs)
      some (.header h, ← lineEnd? rest)
    | cs => do
      let (a, rest) ← assignment (value (nestingLimit - 1)) cs
      some (.assignment a, ← lineEnd? rest)

def lines (cs : List Char) : Option (List Line) :=
  match cs with
  | [] => some []
  | c :: cs =>
    match line (c :: cs) with
    | none => none
    | some (l, rest) => if rest.length ≤ cs.length then (lines rest).map (l :: ·) else none
termination_by cs.length
decreasing_by
  rw [List.length_cons]
  omega

def sections (h : Header) : List Line → List Section
  | [] => [⟨h, []⟩]
  | .blank :: rest => sections h rest
  | .header h' :: rest => ⟨h, []⟩ :: sections h' rest
  | .assignment a :: rest =>
    match sections h rest with
    | [] => []
    | s :: more => ⟨s.header, a :: s.assignments⟩ :: more

def dropMark : List Char → List Char
  | '\ufeff' :: cs => cs
  | cs => cs

def parse (text : String) : Option Entries := do
  build (sections .top (← lines (dropMark text.toList)))

end Interlock.Toml
