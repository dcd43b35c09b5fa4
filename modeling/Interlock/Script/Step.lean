import Interlock.Config
import Interlock.Datum
import Interlock.Workload

/-!
# Steps of a script

A script is a list of commands, each a step that a named thread takes. Objects and slots go by names. A
callback is a list of actions, which can hold further steps.
-/

namespace Interlock.Script

inductive ConfigSource where
  | document (text : String)
  /-- Given as it is, valid or not. -/
  | given (c : Config)

inductive Origin where
  | empty
  | capacity (n : Nat)
  | items (vs : List Datum)
  | config (c : ConfigSource)

inductive QueueStep where
  | new (target : String) (o : Origin)
  | push (on : String) (v : Datum)
  | tryPop (on : String)
  | tryPopInto (on : String) (out : Datum)
  | waitPop (on : String)
  | waitPopInto (on : String) (out : Datum)
  | len (on : String)
  | isEmpty (on : String)
  | clone (on target : String)
  | take (on target : String)
  | dump (on : String)
  | consume (on : String)
  | reserve (on : String) (n : Nat)
  | inspect (on : String)

inductive StackStep where
  | new (target : String) (o : Origin)
  | push (on : String) (v : Datum)
  | pop (on : String)
  | popInto (on : String) (out : Datum)
  | len (on : String)
  | isEmpty (on : String)
  | clone (on target : String)
  | dump (on : String)
  | consume (on : String)
  | reserve (on : String) (n : Nat)
  | inspect (on : String)

inductive CacheStep where
  | new (target : String) (o : Origin)
  | write (on key : String) (v : Datum)
  | read (on key : String)
  | remove (on key : String)
  | len (on : String)
  | isEmpty (on : String)
  | reserve (on : String) (n : Nat)
  | queuedWriters (on : String)
  | awaitQueuedWriter (on : String)
  | inspect (on : String)

inductive CellStep where
  | new (target : String) (v : Datum)
  | snapshot (on : String)
  | sameValue (on other : String)
  | swap (on other : String)
  | consume (on : String)
  | inspect (on : String)

inductive LockStep where
  | ceiling
  | new (target : String) (rank : Rank) (v : Datum)
  | rank (on : String)
  | inspect (on : String)
  | lock (on slot : String)
  | tryLock (on slot : String)
  | consume (on : String)

inductive GuardStep where
  | rank (slot : String)
  | read (slot : String)
  | inspect (slot : String)
  /-- Release; if that is refused, `discard` says to drop the guard with the refusal. -/
  | unlock (slot : String) (discard : Bool)

inductive HandleStep where
  | deferred (on slot : String)
  | acquire (on slot : String)
  | adopt (slot target : String)
  | detach (slot target : String)
  | state (slot : String)
  | rank (slot : String)
  | lock (slot : String)
  | tryLock (slot : String)
  | unlock (slot : String)
  | get (slot : String)
  | inspect (slot : String)

inductive RegistryStep where
  | new (target : String)
  | withRanks (target : String) (ranks : RegistryRanks)
  | fromConfig (target : String) (c : ConfigSource)
  | insert (on name : String) (v : Datum)
  | get (on name : String)
  | contains (on name : String)
  | len (on : String)
  | isEmpty (on : String)
  | ranks (on : String)
  | inspect (on : String)
  | entry (on name : String) (target : Option String)
  | remove (on name : String) (target : Option String)

inductive RankedStep where
  | lock (s : LockStep)
  | guard (s : GuardStep)
  | handle (s : HandleStep)
  | registry (s : RegistryStep)
  /-- Drop what is in the slots, in order; with a message, while panicking with it. -/
  | drop (slots : List String) (panic : Option String)

inductive TokenStep where
  | reached (token : String)
  | signal (token : String)

inductive ConfigStep where
  | parse (text : String)
  | make (c : ConfigSource)
  | validate (c : ConfigSource)
  | inspect (c : ConfigSource)
  | serialize (c : ConfigSource)
  | load (f : Config.File)

inductive FaultStep where
  | fault (f : Fault)
  | pop (f : PopFault)

mutual

inductive Step where
  | queue (s : QueueStep)
  | stack (s : StackStep)
  | popWith (on : String) (actions : List Action)
  | cache (s : CacheStep)
  | readWith (on key : String) (actions : List Action)
  | cell (s : CellStep)
  | withLock (on : String) (actions : List Action)
  | ranked (s : RankedStep)
  /-- Change what a lock protects without locking it, when nothing else refers to it. -/
  | changeLock (on : String) (actions : List Action)
  | changeGuarded (slot : String) (actions : List Action)
  | changeHandled (slot : String) (actions : List Action)
  | update (on name : String) (actions : List Action)
  | token (s : TokenStep)
  | config (s : ConfigStep)
  | fault (s : FaultStep)
  | workload (w : Workload)
  /-- A step of no known kind. It cannot be taken, but may stand where it never comes to it. -/
  | unknown

inductive Action where
  | get
  | set (v : Datum)
  | add (n : Int)
  | append (v : Datum)
  | panic (message : String)
  | wait (token : String)
  | steps (steps : List Step)
  | refuse (reason : String)
  /-- Refuse to build unless the top is a 64-bit integer of at most `n`. -/
  | atMost (n : Int)
  | unknown

end

instance : Inhabited Step := ⟨.unknown⟩
instance : Inhabited Action := ⟨.unknown⟩

inductive Order where
  | take (s : Step)
  | await

structure Command where
  thread : String
  order : Order

end Interlock.Script
