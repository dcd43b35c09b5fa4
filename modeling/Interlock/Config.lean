import Interlock.Fault
import Interlock.Toml.Reader

/-!
# Configuration

Initial capacities of the collections and the two ranks of a registry. A configuration is read from a
document of which every section and every field may be missing; unknown ones are passed over. It is valid
when the directory is ranked above the entries and neither has the rank of the empty ceiling.
-/

namespace Interlock

structure RegistryRanks where
  directory : Rank := 10000
  entry : Rank := 5000
  deriving Repr, DecidableEq

def RegistryRanks.validate (ranks : RegistryRanks) : Except ConfigFault Unit :=
  if ranks.directory = Rank.unbounded ∨ ranks.entry = Rank.unbounded then .error .reservedRank
  else if ranks.directory ≤ ranks.entry then .error (.ranksInverted ranks.directory ranks.entry)
  else .ok ()

structure Config where
  queueCapacity : Nat := 0
  stackCapacity : Nat := 0
  cacheCapacity : Nat := 0
  ranks : RegistryRanks := {}
  deriving Repr, DecidableEq

namespace Config

def validate (c : Config) : Except Fault Unit :=
  match c.ranks.validate with
  | .ok () => .ok ()
  | .error f => .error (.invalidConfig f)

/-! ## Reading -/

/-- The fields of a section, by position and by name. A section is a table, or an array that holds the
fields in order; a date or time has no fields. -/
def fields? : Option Toml.Value → Option (Nat → String → Option Toml.Value)
  | none => some fun _ _ => none
  | some .moment => some fun _ _ => none
  | some (.table _ entries) => some fun _ name => Toml.Entries.find name entries
  | some (.array elements) => some fun position _ => elements[position]?
  | some _ => none

def number? (default : Nat) : Option Toml.Value → Option Nat
  | none => some default
  | some (.integer n) => if 0 ≤ n then some n.toNat else none
  | some _ => none

def capacity? (root : Toml.Entries) (name : String) : Option Nat := do
  let field ← fields? (Toml.Entries.find name root)
  number? 0 (field 0 "initial_capacity")

def ranks? (root : Toml.Entries) : Option RegistryRanks := do
  let defaults : RegistryRanks := {}
  let field ← fields? (Toml.Entries.find "ranks" root)
  let directory ← number? defaults.directory (field 0 "directory")
  let entry ← number? defaults.entry (field 1 "entry")
  some ⟨directory, entry⟩

def ofEntries? (root : Toml.Entries) : Option Config := do
  let queue ← capacity? root "queue"
  let stack ← capacity? root "stack"
  let cache ← capacity? root "cache"
  let ranks ← ranks? root
  some ⟨queue, stack, cache, ranks⟩

def parse (text : String) : Except Fault Config :=
  match (Toml.parse text).bind ofEntries? with
  | none => .error .malformed
  | some c =>
    match c.validate with
    | .ok () => .ok c
    | .error f => .error f

inductive File where
  | missing
  | directory
  | content (bytes : ByteArray)

def load : File → Except Fault Config
  | .missing => .error (.unreadable .notFound)
  | .directory => .error (.unreadable .isDirectory)
  | .content bytes =>
    match String.fromUTF8? bytes with
    | none => .error (.unreadable .notText)
    | some text => parse text

/-! ## Writing -/

def maxWritten : Nat := Word.maxSigned.toNat

def writable (c : Config) : Bool :=
  [c.queueCapacity, c.stackCapacity, c.cacheCapacity, c.ranks.directory, c.ranks.entry].all (· ≤ maxWritten)

def fieldText (name : String) (n : Nat) : String := name ++ " = " ++ toString n ++ "\n"

def document (c : Config) : String :=
  "[queue]\n" ++ fieldText "initial_capacity" c.queueCapacity ++
  "\n[stack]\n" ++ fieldText "initial_capacity" c.stackCapacity ++
  "\n[cache]\n" ++ fieldText "initial_capacity" c.cacheCapacity ++
  "\n[ranks]\n" ++ fieldText "directory" c.ranks.directory ++ fieldText "entry" c.ranks.entry

/-- The document of a configuration; there is none if a number is too large for it. -/
def write? (c : Config) : Option String := if c.writable then some c.document else none

/-! ## Showing -/

def inspectCapacity (n : Nat) : String := "CapacityConfig \x7b initial_capacity: " ++ toString n ++ " \x7d"

def inspect (c : Config) : String :=
  "ToolkitConfig \x7b queue: " ++ inspectCapacity c.queueCapacity ++
    ", stack: " ++ inspectCapacity c.stackCapacity ++ ", cache: " ++ inspectCapacity c.cacheCapacity ++
    ", ranks: RankTable \x7b directory: " ++ toString c.ranks.directory ++
    ", entry: " ++ toString c.ranks.entry ++ " \x7d \x7d"

end Config

end Interlock
