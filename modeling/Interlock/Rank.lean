import Interlock.Word

/-!
# Ranks

The rank of a lock is its place in the one order in which every thread acquires: greater ranks first.
-/

namespace Interlock

abbrev Rank := Nat

namespace Rank

/-- The greatest 64-bit word, the ceiling of a thread that holds no ranked lock. A lock of this rank can
never be acquired. -/
def unbounded : Rank := Word.max

def ceilingText (r : Rank) : String :=
  if r = unbounded then "unbounded" else toString r

end Rank

end Interlock
