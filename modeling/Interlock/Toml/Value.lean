/-!
# Values of a document

A table remembers where it came from, because that decides what may still be added to it.
-/

namespace Interlock.Toml

inductive Origin where
  | inline
  | header
  | passage
  | dotted
  deriving Repr, DecidableEq

/-- Nothing here depends on which float or which date or time a value is, so these carry nothing. -/
inductive Value where
  | string (text : String)
  | integer (n : Int)
  | float
  | boolean (b : Bool)
  | moment
  | array (elements : List Value)
  | table (origin : Origin) (entries : List (String × Value))
  | tables (elements : List (List (String × Value)))
  deriving Inhabited

abbrev Entries := List (String × Value)

end Interlock.Toml
