import Interlock.Hierarchy.Slots
import Interlock.Script.Step

/-!
# Results of a script

What a step answers.
-/

namespace Interlock.Script

inductive Result where
  | ok
  | flag (b : Bool)
  | count (n : Nat)
  | value (v : Datum)
  | option (v : Option Datum)
  | items (vs : List Datum)
  | text (s : String)
  | fault (f : Fault)
  | popFault (f : PopFault)
  | panicked (message : String)
  /-- Whether an element was found, and the variable afterwards. -/
  | found (b : Bool) (out : Datum)
  /-- Whether an element was there to move, and the variable afterwards. -/
  | moved (f : Option Fault) (out : Datum)
  | built (v : Datum)
  | list (rs : List Result)
  | visited (rs : Option (List Result))
  | none
  | rank (r : Option Rank)
  | busy
  | state (s : Hierarchy.Handle.State) (held : Bool)
  /-- A refused release, and how the refusal shows. -/
  | refused (v : Violation) (shown : String)
  | ranks (r : RegistryRanks)
  | config (c : Config)
  | document (text : Option String)
  | shownFault (display : String) (violation : Bool) (shown : Option String)
  | shownPopFault (display shown : String)
  | signalled
  | outcome (o : Workload.Outcome)
  | ranked (r : Result) (ceiling : Rank)
  | blocked
  | impossible
  deriving Inhabited

end Interlock.Script
