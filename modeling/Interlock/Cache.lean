import Interlock.Thread

/-!
# The shared cache

A table that many readers look into at once and one writer changes alone. A gate stands before the lock: a
writer holds the gate while it waits for exclusive mode, a reader passes through it before it asks for
shared mode. So readers that come after a waiting writer wait behind it, and those already admitted finish.
The counter of queued writers is raised under the gate and lowered there once exclusive mode is reached.

A reader looks in the step in which it enters shared mode. A writer changes the table some steps after it
has entered exclusive mode, when it has left the gate.
-/

namespace Interlock

/-- A lock held by any number of readers or by one writer. It prefers nobody. -/
structure SharedLock where
  readers : Nat := 0
  writer : Option ThreadId := none
  deriving Repr, DecidableEq

namespace SharedLock

def share? (l : SharedLock) : Option SharedLock :=
  match l.writer with
  | none => some { l with readers := l.readers + 1 }
  | some _ => none

def unshare (l : SharedLock) : SharedLock := { l with readers := l.readers - 1 }

def exclude? (l : SharedLock) (t : ThreadId) : Option SharedLock :=
  match l.writer with
  | none => if l.readers = 0 then some { l with writer := some t } else none
  | some _ => none

def readmit (l : SharedLock) : SharedLock := { l with writer := none }

end SharedLock

namespace Cache

inductive Look (κ : Type) where
  | read (key : κ)
  | readWith (key : κ)
  | len
  | isEmpty

inductive Change (κ α : Type) where
  | write (key : κ) (v : α)
  | remove (key : κ)
  | reserve (n : Nat)

inductive Request (κ α : Type) where
  | look (l : Look κ)
  | change (c : Change κ α)

inductive Answer (α : Type) where
  | done
  | exhausted (f : StorageFault)
  | found (v : Option α)
  | visited
  | panicked (message : String)
  | count (n : Nat)
  | flag (b : Bool)

inductive Phase (κ α : Type) where
  /-- Wants to pass the gate. -/
  | arriving (l : Look κ)
  /-- Is in the gate. -/
  | passing (l : Look κ)
  /-- Has passed the gate and wants shared mode. -/
  | admitted (l : Look κ)
  /-- In shared mode, and the callback runs. -/
  | visiting (key : κ)
  /-- In shared mode only to leave it. -/
  | unsharing (a : Answer α)
  /-- Wants to hold the gate. -/
  | queueing (c : Change κ α)
  /-- Holds the gate. -/
  | gated (c : Change κ α)
  /-- Holds the gate, is counted as queued and wants exclusive mode. -/
  | counted (c : Change κ α)
  /-- Holds the gate in exclusive mode, still counted. -/
  | excluding (c : Change κ α)
  /-- Holds the gate in exclusive mode, not counted any more. -/
  | uncounted (c : Change κ α)
  /-- In exclusive mode. -/
  | changing (c : Change κ α)
  /-- In exclusive mode only to leave it. -/
  | readmitting (a : Answer α)
  | returned (a : Answer α)

end Cache

structure Cache (κ α : Type) where
  entries : Table κ α := {}
  gate : Mutex := {}
  lock : SharedLock := {}
  queuedWriters : UInt64 := 0
  calls : Calls (Cache.Phase κ α) := {}

namespace Cache

variable {κ α : Type}

/-- A thread makes a call; inside another call on this cache it does so only from a callback. -/
def start? (c : Cache κ α) (t : ThreadId) (r : Request κ α) : Option (Cache κ α) :=
  let phase := match r with
    | .look l => .arriving l
    | .change ch => .queueing ch
  match c.calls.current? t with
  | none => some { c with calls := c.calls.start t phase }
  | some (.visiting _) => some { c with calls := c.calls.start t phase }
  | some _ => none

def into (c : Cache κ α) (t : ThreadId) (p : Phase κ α) : Cache κ α := { c with calls := c.calls.move t p }

def look [DecidableEq κ] (t : ThreadId) (c : Cache κ α) : Look κ → Cache κ α
  | .read key => c.into t (.unsharing (.found (c.entries.get? key)))
  | .readWith key => c.into t (.visiting key)
  | .len => c.into t (.unsharing (.count c.entries.size))
  | .isEmpty => c.into t (.unsharing (.flag (c.entries.size == 0)))

/-- Room for a key; one that is there needs none. -/
def room [DecidableEq κ] (env : Environment) (c : Cache κ α) (key : κ) : Except StorageFault Unit :=
  if c.entries.contains key then .ok () else env.table c.entries.size 1

def change [DecidableEq κ] (env : Environment) (t : ThreadId) (c : Cache κ α) : Change κ α → Cache κ α
  | .write key v =>
    match c.room env key with
    | .ok () =>
      { c with entries := c.entries.insert key v }.into t (.readmitting (.found (c.entries.get? key)))
    | .error f => c.into t (.readmitting (.exhausted f))
  | .remove key =>
    { c with entries := c.entries.erase key }.into t (.readmitting (.found (c.entries.get? key)))
  | .reserve n =>
    match env.table c.entries.size n with
    | .ok () => c.into t (.readmitting .done)
    | .error f => c.into t (.readmitting (.exhausted f))

def step? [DecidableEq κ] (env : Environment) (t : ThreadId) (c : Cache κ α) : Option (Cache κ α) :=
  match c.calls.current? t with
  | none => none
  | some (.arriving l) => (c.gate.acquire? t).map fun g => { c with gate := g }.into t (.passing l)
  | some (.passing l) => some ({ c with gate := c.gate.release false }.into t (.admitted l))
  | some (.admitted l) => c.lock.share?.map fun k => { c with lock := k }.look t l
  | some (.visiting _) => none
  | some (.unsharing a) => some ({ c with lock := c.lock.unshare }.into t (.returned a))
  | some (.queueing ch) => (c.gate.acquire? t).map fun g => { c with gate := g }.into t (.gated ch)
  | some (.gated ch) => some ({ c with queuedWriters := c.queuedWriters + 1 }.into t (.counted ch))
  | some (.counted ch) => (c.lock.exclude? t).map fun k => { c with lock := k }.into t (.excluding ch)
  | some (.excluding ch) =>
    some ({ c with queuedWriters := c.queuedWriters - 1 }.into t (.uncounted ch))
  | some (.uncounted ch) => some ({ c with gate := c.gate.release false }.into t (.changing ch))
  | some (.changing ch) => some (c.change env t ch)
  | some (.readmitting a) => some ({ c with lock := c.lock.readmit }.into t (.returned a))
  | some (.returned _) => none

def seen? [DecidableEq κ] (c : Cache κ α) (t : ThreadId) : Option (Option α) :=
  match c.calls.current? t with
  | some (.visiting key) => some (c.entries.get? key)
  | _ => none

def end? (c : Cache κ α) (t : ThreadId) (e : Ending) : Option (Cache κ α) :=
  match c.calls.current? t with
  | some (.visiting _) =>
    some (c.into t (.unsharing (match e with
      | .finished => .visited
      | .panicked message => .panicked message)))
  | _ => none

def answer? (c : Cache κ α) (t : ThreadId) : Option (Answer α) :=
  match c.calls.current? t with
  | some (.returned a) => some a
  | _ => none

def collect (c : Cache κ α) (t : ThreadId) : Cache κ α := { c with calls := c.calls.finish t }

end Cache

end Interlock
