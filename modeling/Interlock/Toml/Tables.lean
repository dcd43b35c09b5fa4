import Interlock.Toml.Value

/-!
# Building tables

A document is a list of sections: a header and the assignments under it. `Section.addTo` adds one to the
tables read so far and refuses what would define something twice. A dotted key makes the tables on its way
and extends only such tables; a header passes through any table that is not written in braces, and goes on
into the last table of an array header.
-/

namespace Interlock.Toml

namespace Entries

def find (key : String) : Entries → Option Value
  | [] => none
  | (k, v) :: rest => if k = key then some v else find key rest

def put (key : String) (value : Value) : Entries → Entries
  | [] => [(key, value)]
  | (k, v) :: rest => if k = key then (key, value) :: rest else (k, v) :: put key value rest

def assign (entries : Entries) : (path : List String) → (key : String) → Value → Option Entries
  | [], key, value => if (find key entries).isSome then none else some (entries ++ [(key, value)])
  | part :: path, key, value =>
    match find part entries with
    | none => do put part (.table .dotted (← assign [] path key value)) entries
    | some (.table .dotted inner) => do
      put part (.table .dotted (← assign inner path key value)) entries
    | some (.table .passage inner) =>
      if path.isEmpty then none
      else do put part (.table .passage (← assign inner path key value)) entries
    | some (.tables elements) =>
      if path.isEmpty then none
      else do
        let inner ← assign (elements.getLast?.getD []) path key value
        put part (.tables (elements.dropLast ++ [inner])) entries
    | _ => none

/-- Change the table at the end of `path`, which a header names. -/
def changeAt (change : Entries → Option Entries) : (path : List String) → Entries → Option Entries
  | [], entries => change entries
  | part :: path, entries =>
    match find part entries with
    | none => do put part (.table .passage (← changeAt change path [])) entries
    | some (.tables elements) => do
      let inner ← changeAt change path (elements.getLast?.getD [])
      put part (.tables (elements.dropLast ++ [inner])) entries
    | some (.table .inline _) => none
    | some (.table origin inner) => do put part (.table origin (← changeAt change path inner)) entries
    | _ => none

end Entries

/-- A key and the tables before it, and the value that it is to have. -/
structure Assignment where
  path : List String
  key : String
  value : Value

def fill (entries : Entries) (assignments : List Assignment) : Option Entries :=
  assignments.foldlM (fun es a => es.assign a.path a.key a.value) entries

inductive Header where
  | top
  | table (path : List String) (name : String)
  | element (path : List String) (name : String)

structure Section where
  header : Header
  assignments : List Assignment

def Section.addTo (s : Section) (root : Entries) : Option Entries :=
  match s.header with
  | .top => fill root s.assignments
  | .table path name => Entries.changeAt (fun entries =>
      match Entries.find name entries with
      | none => do Entries.put name (.table .header (← fill [] s.assignments)) entries
      | some (.table .passage inner) => do
        Entries.put name (.table .header (← fill inner s.assignments)) entries
      | _ => none) path root
  | .element path name => Entries.changeAt (fun entries =>
      match Entries.find name entries with
      | none => do Entries.put name (.tables [← fill [] s.assignments]) entries
      | some (.tables elements) => do
        Entries.put name (.tables (elements ++ [← fill [] s.assignments])) entries
      | _ => none) path root

def build (sections : List Section) : Option Entries :=
  sections.foldlM (fun root s => s.addTo root) []

end Interlock.Toml
