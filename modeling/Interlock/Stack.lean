import Interlock.Fault
import Interlock.Thread

/-!
# The concurrent stack

The only way to read the top is to take it. A pop with a builder shows the top to the builder and removes
it only when the builder succeeds; the mutex is held throughout, so the element removed is the one that the
builder saw. Any other call does its work in the step in which it takes the mutex.
-/

namespace Interlock

namespace Stack

inductive Request (α : Type) where
  | push (v : α)
  | pop
  | popInto (out : α)
  | popWith
  | len
  | isEmpty
  | clone
  | reserve (n : Nat)

inductive Ending (α : Type) where
  | built (v : α)
  | refused (reason : String)
  | panicked (message : String)

inductive Answer (α : Type) where
  | done
  | exhausted (f : StorageFault)
  | popped (v : α)
  | empty
  | moved (found : Bool) (out : α)
  | built (v : α)
  | notBuilt (f : PopFault)
  | panicked (message : String)
  | count (n : Nat)
  | flag (b : Bool)
  | contents (items : List α)

inductive Phase (α : Type) where
  | entering (r : Request α)
  /-- Has the mutex, and the builder looks at the top. -/
  | building (top : α)
  /-- Has done its work and still has the mutex. -/
  | leaving (panicking : Bool) (a : Answer α)
  | returned (a : Answer α)

end Stack

/-- The elements stand top first. -/
structure Stack (α : Type) where
  items : List α := []
  mutex : Mutex := {}
  calls : Calls (Stack.Phase α) := {}

namespace Stack

variable {α : Type}

/-- The stack on which the elements have been pushed from left to right. -/
def ofList (items : List α) : Stack α := { items := items.reverse }

def toList (s : Stack α) : List α := s.items.reverse

/-- A thread makes a call; inside another call on this stack it does so only from a builder. -/
def start? (s : Stack α) (t : ThreadId) (r : Request α) : Option (Stack α) :=
  match s.calls.current? t with
  | none => some { s with calls := s.calls.start t (.entering r) }
  | some (.building _) => some { s with calls := s.calls.start t (.entering r) }
  | some _ => none

def into (s : Stack α) (t : ThreadId) (p : Phase α) : Stack α := { s with calls := s.calls.move t p }

def act (env : Environment) (t : ThreadId) (s : Stack α) : Request α → Stack α
  | .push v =>
    match env.array s.items.length 1 with
    | .ok () => { s with items := v :: s.items }.into t (.leaving false .done)
    | .error f => s.into t (.leaving false (.exhausted f))
  | .pop =>
    match s.items with
    | [] => s.into t (.leaving false .empty)
    | v :: rest => { s with items := rest }.into t (.leaving false (.popped v))
  | .popInto out =>
    match s.items with
    | [] => s.into t (.leaving false (.moved false out))
    | v :: rest => { s with items := rest }.into t (.leaving false (.moved true v))
  | .popWith =>
    match s.items with
    | [] => s.into t (.leaving false (.notBuilt .empty))
    | top :: _ => s.into t (.building top)
  | .len => s.into t (.leaving false (.count s.items.length))
  | .isEmpty => s.into t (.leaving false (.flag s.items.isEmpty))
  | .clone => s.into t (.leaving false (.contents s.items))
  | .reserve n =>
    match env.array s.items.length n with
    | .ok () => s.into t (.leaving false .done)
    | .error f => s.into t (.leaving false (.exhausted f))

def step? (env : Environment) (t : ThreadId) (s : Stack α) : Option (Stack α) :=
  match s.calls.current? t with
  | none => none
  | some (.entering r) => (s.mutex.acquire? t).map fun m => { s with mutex := m }.act env t r
  | some (.leaving panicking a) =>
    some ({ s with mutex := s.mutex.release panicking }.into t (.returned a))
  | some (.building _) => none
  | some (.returned _) => none

def top? (s : Stack α) (t : ThreadId) : Option α :=
  match s.calls.current? t with
  | some (.building top) => some top
  | _ => none

/-- The stack after the thread's builder has ended. Only if it has built something the top goes. -/
def end? (s : Stack α) (t : ThreadId) (e : Ending α) : Option (Stack α) :=
  match s.calls.current? t with
  | some (.building _) =>
    some (match e with
      | .built v => { s with items := s.items.tail }.into t (.leaving false (.built v))
      | .refused reason => s.into t (.leaving false (.notBuilt (.build reason)))
      | .panicked message => s.into t (.leaving true (.panicked message)))
  | _ => none

def answer? (s : Stack α) (t : ThreadId) : Option (Answer α) :=
  match s.calls.current? t with
  | some (.returned a) => some a
  | _ => none

def collect (s : Stack α) (t : ThreadId) : Stack α := { s with calls := s.calls.finish t }

end Stack

end Interlock
