import Interlock.Storage
import Interlock.Table

/-!
# Threads, mutexes and calls under way

The machines of this library make a call in small steps, and the steps of different threads interleave at
will. What stands here is common to all machines: mutexes, and the phases that the calls of the threads
are in.
-/

namespace Interlock

abbrev ThreadId := Nat

/-- What the outside decides in a step: whether storage is granted, and which sleeper a notice goes to. -/
structure Environment where
  array : Allocator
  table : Allocator
  pick : Nat

inductive Ending where
  | finished
  | panicked (message : String)

/-- A mutual exclusion lock. A thread that lets it go while panicking leaves a mark, which keeps nobody
out. -/
structure Mutex where
  holder : Option ThreadId := none
  poisoned : Bool := false
  deriving Repr, DecidableEq

namespace Mutex

def acquire? (m : Mutex) (t : ThreadId) : Option Mutex :=
  match m.holder with
  | none => some { m with holder := some t }
  | some _ => none

def release (m : Mutex) (panicking : Bool) : Mutex :=
  { holder := none, poisoned := m.poisoned || panicking }

theorem acquire?_eq_some {m m' : Mutex} {t : ThreadId} (h : m.acquire? t = some m') :
    m.holder = none ∧ m' = { m with holder := some t } := by
  unfold acquire? at h
  cases hm : m.holder with
  | none =>
    rw [hm] at h
    cases h
    exact ⟨rfl, rfl⟩
  | some u =>
    rw [hm] at h
    cases h

end Mutex

/-- The calls under way on one object. A thread can be inside several of them, one made from the callback
of another; of these the innermost stands first, and it is the only one that moves. -/
structure Calls (φ : Type) where
  pending : List (ThreadId × φ) := []

namespace Calls

variable {φ : Type}

def current? (c : Calls φ) (t : ThreadId) : Option φ := Entries.find t c.pending

def start (c : Calls φ) (t : ThreadId) (phase : φ) : Calls φ := ⟨(t, phase) :: c.pending⟩

def move (c : Calls φ) (t : ThreadId) (phase : φ) : Calls φ := ⟨Entries.put t phase c.pending⟩

def finish (c : Calls φ) (t : ThreadId) : Calls φ := ⟨c.pending.eraseP fun e => e.1 = t⟩

@[simp] theorem current?_start (c : Calls φ) (t u : ThreadId) (p : φ) :
    (c.start t p).current? u = if t = u then some p else c.current? u := rfl

@[simp] theorem current?_move (c : Calls φ) (t u : ThreadId) (p : φ) :
    (c.move t p).current? u = if t = u then some p else c.current? u := Entries.find_put

end Calls

end Interlock
