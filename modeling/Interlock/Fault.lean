import Interlock.Rank
import Interlock.Storage
import Interlock.Text.Quoted

/-!
# Faults

What can go wrong in a call, as causes; `message` words them. An empty collection and exhausted storage
are to be expected of a correct program, and nothing has changed when they are reported. A `Violation` is
a mistake in the order in which the caller takes or releases ranked locks. `inspect` shows a cause with
its fields.
-/

namespace Interlock

inductive Violation.Operation where
  | acquire
  | release
  deriving Repr, DecidableEq

def Violation.Operation.verb : Violation.Operation → String
  | .acquire => "acquire"
  | .release => "release"

def Violation.Operation.name : Violation.Operation → String
  | .acquire => "Acquire"
  | .release => "Release"

structure Violation where
  operation : Violation.Operation
  rank : Rank
  ceiling : Rank
  deriving Repr, DecidableEq

namespace Violation

def message (v : Violation) : String :=
  "Lock hierarchy violated: cannot " ++ v.operation.verb ++ " lock of rank " ++ toString v.rank ++
    " while thread ceiling is " ++ Rank.ceilingText v.ceiling

def inspect (v : Violation) : String :=
  "HierarchyViolation \x7b operation: " ++ v.operation.name ++ ", rank: " ++ toString v.rank ++
    ", ceiling: " ++ toString v.ceiling ++ " \x7d"

end Violation

inductive ConfigFault where
  | reservedRank
  | ranksInverted (directory entry : Rank)
  | other (reason : String)
  deriving Repr, DecidableEq

def ConfigFault.reason : ConfigFault → String
  | .reservedRank => "rank " ++ toString Rank.unbounded ++ " is reserved for the empty ceiling"
  | .ranksInverted directory entry =>
    "directory rank " ++ toString directory ++ " must be greater than entry rank " ++ toString entry
  | .other reason => reason

inductive FileFault where
  | notFound
  | isDirectory
  | notText
  | other (reason : String)
  deriving Repr, DecidableEq

def FileFault.reason : FileFault → String
  | .notFound => "no such file"
  | .isDirectory => "is a directory"
  | .notText => "not valid UTF-8"
  | .other reason => reason

inductive Fault where
  | emptyCollection
  | hierarchyViolated (v : Violation)
  | storageExhausted (f : StorageFault)
  | invalidConfig (f : ConfigFault)
  | unreadable (f : FileFault)
  /-- A document is not well formed, or a field of it has the wrong type. -/
  | malformed
  deriving Repr, DecidableEq

namespace Fault

def message : Fault → String
  | .emptyCollection => "Pop attempted on an empty collection"
  | .hierarchyViolated v => v.message
  | .storageExhausted f => "Storage exhausted: " ++ f.message
  | .invalidConfig f => "Invalid configuration: " ++ f.reason
  | .unreadable f => f.reason
  | .malformed => "malformed document"

def isHierarchyViolation : Fault → Bool
  | .hierarchyViolated _ => true
  | _ => false

/-- The cause with its fields, where they are the library's own. -/
def inspect? : Fault → Option String
  | .emptyCollection => some "EmptyCollection"
  | .hierarchyViolated v => some v.inspect
  | .invalidConfig f => some ("Config(" ++ Text.quoted f.reason ++ ")")
  | _ => none

end Fault

inductive PopFault where
  | empty
  /-- The builder refused the top, which stays on the stack. -/
  | build (reason : String)
  deriving Repr, DecidableEq

namespace PopFault

def message : PopFault → String
  | .empty => Fault.message .emptyCollection
  | .build reason => "Failed to build pop result: " ++ reason

def inspect : PopFault → String
  | .empty => "Empty"
  | .build reason => "Build(" ++ Text.quoted reason ++ ")"

end PopFault

end Interlock
