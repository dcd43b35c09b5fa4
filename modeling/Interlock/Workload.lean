import Interlock.Datum

/-!
# Workloads

Work for several threads at once on one object, whose outcome does not depend on how they interleave.
-/

namespace Interlock

namespace Workload

inductive Kind where
  | queue
  | stack
  | swap
  | lock
  | registry
  | cache
  deriving Repr, DecidableEq

inductive Outcome where
  | queue (popped : List Int) (len : Nat)
  | stack (popped : List Int) (isEmpty : Bool)
  | swap (a b : Datum)
  /-- `clean` counts the threads that hold no lock in the end. -/
  | lock (outer inner : Datum) (clean : Nat)
  | registry (up down : Datum)
  /-- `torn` counts the reads that did not find what one thread wrote. -/
  | cache (len torn queuedWriters : Nat)

end Workload

structure Workload where
  kind : Workload.Kind
  threads : Nat
  count : Nat
  deriving Repr, DecidableEq

end Interlock
