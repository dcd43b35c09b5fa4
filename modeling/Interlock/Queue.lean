import Interlock.Thread

/-!
# The blocking queue

A mutex guards the elements; a consumer that finds none sleeps until it is notified. A push notifies one
sleeper, if there is one. A woken consumer takes the mutex again and looks again, so being woken promises
nothing. Elements leave from the front in the order in which they came.

A call does its work in the step in which it takes the mutex, since nobody else can touch the elements
until it lets the mutex go.
-/

namespace Interlock

namespace Queue

inductive Request (α : Type) where
  | push (v : α)
  | tryPop
  | tryPopInto (out : α)
  | waitPop
  | waitPopInto (out : α)
  | len
  | isEmpty
  | clone
  | take
  | reserve (n : Nat)

inductive Answer (α : Type) where
  | done
  | exhausted (f : StorageFault)
  | popped (v : Option α)
  /-- Whether there was an element, and the caller's variable afterwards. -/
  | moved (found : Bool) (out : α)
  | value (v : α)
  | count (n : Nat)
  | flag (b : Bool)
  | contents (items : List α)

inductive Phase (α : Type) where
  /-- Wants the mutex for the first time. -/
  | entering (r : Request α)
  | asleep (r : Request α)
  /-- Woken, and wants the mutex again. -/
  | woken (r : Request α)
  /-- Has done its work and still has the mutex. -/
  | leaving (a : Answer α)
  | returned (a : Answer α)

end Queue

structure Queue (α : Type) where
  items : List α := []
  mutex : Mutex := {}
  calls : Calls (Queue.Phase α) := {}

namespace Queue

variable {α : Type}

def ofList (items : List α) : Queue α := { items }

/-- A thread makes a call; it makes none from inside another. -/
def start? (q : Queue α) (t : ThreadId) (r : Request α) : Option (Queue α) :=
  match q.calls.current? t with
  | none => some { q with calls := q.calls.start t (.entering r) }
  | some _ => none

/-- The threads asleep, the one that called first in front. -/
def sleepers (q : Queue α) : List ThreadId :=
  (q.calls.pending.filterMap fun
    | (t, .asleep _) => some t
    | _ => none).reverse

/-- The queue after a sleeping call of the thread has been woken, by a notice or for no reason. -/
def wake? (q : Queue α) (t : ThreadId) : Option (Queue α) :=
  match q.calls.current? t with
  | some (.asleep r) => some { q with calls := q.calls.move t (.woken r) }
  | _ => none

/-- Wake one sleeper, if there is one; `pick` says which. -/
def notify (q : Queue α) (pick : Nat) : Queue α :=
  match q.sleepers[pick % q.sleepers.length]? with
  | none => q
  | some t => (q.wake? t).getD q

def into (q : Queue α) (t : ThreadId) (p : Phase α) : Queue α :=
  { q with calls := q.calls.move t p }

/-- What a call does with the mutex in hand. To fall asleep it lets the mutex go. -/
def act (env : Environment) (t : ThreadId) (q : Queue α) : Request α → Queue α
  | .push v =>
    match env.array q.items.length 1 with
    | .ok () => ({ q with items := q.items ++ [v] }.notify env.pick).into t (.leaving .done)
    | .error f => q.into t (.leaving (.exhausted f))
  | .tryPop =>
    match q.items with
    | [] => q.into t (.leaving (.popped none))
    | v :: rest => { q with items := rest }.into t (.leaving (.popped (some v)))
  | .tryPopInto out =>
    match q.items with
    | [] => q.into t (.leaving (.moved false out))
    | v :: rest => { q with items := rest }.into t (.leaving (.moved true v))
  | .waitPop =>
    match q.items with
    | [] => { q with mutex := q.mutex.release false }.into t (.asleep .waitPop)
    | v :: rest => { q with items := rest }.into t (.leaving (.value v))
  | .waitPopInto out =>
    match q.items with
    | [] => { q with mutex := q.mutex.release false }.into t (.asleep (.waitPopInto out))
    | v :: rest => { q with items := rest }.into t (.leaving (.value v))
  | .len => q.into t (.leaving (.count q.items.length))
  | .isEmpty => q.into t (.leaving (.flag q.items.isEmpty))
  | .clone => q.into t (.leaving (.contents q.items))
  | .take => { q with items := [] }.into t (.leaving (.contents q.items))
  | .reserve n =>
    match env.array q.items.length n with
    | .ok () => q.into t (.leaving .done)
    | .error f => q.into t (.leaving (.exhausted f))

def step? (env : Environment) (t : ThreadId) (q : Queue α) : Option (Queue α) :=
  match q.calls.current? t with
  | none => none
  | some (.entering r) => (q.mutex.acquire? t).map fun m => { q with mutex := m }.act env t r
  | some (.woken r) => (q.mutex.acquire? t).map fun m => { q with mutex := m }.act env t r
  | some (.leaving a) => some ({ q with mutex := q.mutex.release false }.into t (.returned a))
  | some (.asleep _) => none
  | some (.returned _) => none

def answer? (q : Queue α) (t : ThreadId) : Option (Answer α) :=
  match q.calls.current? t with
  | some (.returned a) => some a
  | _ => none

def collect (q : Queue α) (t : ThreadId) : Queue α := { q with calls := q.calls.finish t }

end Queue

end Interlock
