import Interlock.Fault
import Interlock.Thread

/-!
# Ranked locks

A thread may take a ranked lock only if its rank is below the ceiling of the thread, which is the rank of
the lock that it took last and still holds. The guard of an acquisition remembers the ceiling that it
displaced. Only the lock taken last can be released, and its guard then restores that ceiling. Whatever is
attempted in another order changes nothing: neither the mutex, nor the ceiling, nor the guard.

This module holds the locks, guards and handles and what one thread does with one guard; registries are
made of the same locks, so the state of their calls stands here too.
-/

namespace Interlock

abbrev LockId := Nat

abbrev RegistryId := Nat

abbrev Directory := Table String LockId

namespace Hierarchy

inductive Content (α : Type) where
  | element (v : α)
  | directory (names : Directory)

structure Lock (α : Type) where
  rank : Rank
  content : Content α
  mutex : Mutex := {}

/-- The right and the duty to release a lock once. -/
structure Guard where
  lock : LockId
  /-- The ceiling that the acquisition displaced. -/
  previous : Rank
  deriving Repr, DecidableEq

inductive Handle.State where
  | unlocked
  /-- Holds a lock that it took itself. -/
  | locked
  /-- Holds a lock that was taken before the handle was made. -/
  | adopted
  deriving Repr, DecidableEq

def Handle.State.name : Handle.State → String
  | .unlocked => "Unlocked"
  | .locked => "Locked"
  | .adopted => "Adopted"

structure Handle where
  lock : LockId
  state : Handle.State
  guard : Option Guard
  deriving Repr, DecidableEq

inductive Holding where
  | guard (g : Guard)
  /-- A guard that came back from a refused release, with the reason. -/
  | refused (v : Violation) (g : Guard)
  | handle (h : Handle)
  deriving Repr, DecidableEq

namespace Holding

def guard? : Holding → Option Guard
  | .guard g => some g
  | .refused _ g => some g
  | .handle h => h.guard

def lock : Holding → LockId
  | .guard g => g.lock
  | .refused _ g => g.lock
  | .handle h => h.lock

end Holding

structure Standing where
  ceiling : Rank := Rank.unbounded
  slots : Table String Holding := {}

inductive Aim where
  | guard (slot : String)
  | newHandle (slot : String)
  | handle (slot : String)
  deriving Repr, DecidableEq

inductive Inquiry (α : Type) where
  | insert (name : String) (v : α)
  | remove (name : String)
  | entry (name : String)
  | contains (name : String)
  | len
  | isEmpty
  | get (name : String)
  | update (name : String)

inductive Request (α : Type) where
  | lock (l : LockId) (aim : Aim)
  /-- Drop what is in the slots, one after another; with a message, while panicking with it. -/
  | drop (slots : List String) (panic : Option String)
  | registry (r : RegistryId) (i : Inquiry α)

inductive Answer (α : Type) where
  | done
  | violated (v : Violation)
  | exhausted (f : StorageFault)
  | panicked (message : String)
  | flag (b : Bool)
  | count (n : Nat)
  | bound (l : Option LockId)
  | value (v : Option α)
  | visited (found : Bool)

def Answer.isPanic {α : Type} : Answer α → Bool
  | .panicked _ => true
  | _ => false

inductive Purpose (α : Type) where
  | hold (aim : Aim)
  | inquire (r : RegistryId) (i : Inquiry α)
  /-- An entry, with the directory in hand: to run a callback on it, or else to copy its value. -/
  | visit (directory : Guard) (callback : Bool)

inductive Phase (α : Type) where
  | entering (r : Request α)
  /-- Has passed the check of the order and wants the mutex; `previous` is the ceiling at the check. -/
  | waiting (l : LockId) (previous : Rank) (p : Purpose α)
  /-- Holds the directory and an entry, and the callback runs. -/
  | visiting (entry directory : Guard)
  /-- Drops the guards one after another; whether it panics meanwhile the answer says. -/
  | releasing (guards : List Guard) (a : Answer α)
  | returned (a : Answer α)

structure Registry where
  directory : LockId
  entryRank : Rank
  deriving Repr, DecidableEq

end Hierarchy

structure Hierarchy (α : Type) where
  locks : List (Hierarchy.Lock α) := []
  registries : List Hierarchy.Registry := []
  threads : Table ThreadId Hierarchy.Standing := {}
  calls : Calls (Hierarchy.Phase α) := {}

namespace Hierarchy

variable {α : Type}

/-! ## Looking -/

def standing (h : Hierarchy α) (t : ThreadId) : Standing := (h.threads.get? t).getD {}

def ceiling (h : Hierarchy α) (t : ThreadId) : Rank := (h.standing t).ceiling

/-- The rank of a lock; one that does not exist cannot be acquired. -/
def rank (h : Hierarchy α) (l : LockId) : Rank := ((h.locks[l]?).map (·.rank)).getD Rank.unbounded

def element? (h : Hierarchy α) (l : LockId) : Option α :=
  match h.locks[l]? with
  | some { content := .element v, .. } => some v
  | _ => none

def names (h : Hierarchy α) (l : LockId) : Directory :=
  match h.locks[l]? with
  | some { content := .directory names, .. } => names
  | _ => {}

def slot? (h : Hierarchy α) (t : ThreadId) (slot : String) : Option Holding :=
  (h.standing t).slots.get? slot

/-- Whether the thread is in no call on the locks, or in the callback of one. -/
def isFree (h : Hierarchy α) (t : ThreadId) : Bool :=
  match h.calls.current? t with
  | none => true
  | some (.visiting _ _) => true
  | some _ => false

/-! ## Changing one part -/

def setStanding (h : Hierarchy α) (t : ThreadId) (s : Standing) : Hierarchy α :=
  { h with threads := h.threads.insert t s }

def setCeiling (h : Hierarchy α) (t : ThreadId) (r : Rank) : Hierarchy α :=
  h.setStanding t { h.standing t with ceiling := r }

def setSlot (h : Hierarchy α) (t : ThreadId) (slot : String) (x : Holding) : Hierarchy α :=
  h.setStanding t { h.standing t with slots := (h.standing t).slots.insert slot x }

def clearSlot (h : Hierarchy α) (t : ThreadId) (slot : String) : Hierarchy α :=
  h.setStanding t { h.standing t with slots := (h.standing t).slots.erase slot }

def setContent (h : Hierarchy α) (l : LockId) (c : Content α) : Hierarchy α :=
  { h with locks := h.locks.modify l fun k => { k with content := c } }

def addLock (h : Hierarchy α) (rank : Rank) (c : Content α) : Hierarchy α × LockId :=
  ({ h with locks := h.locks ++ [{ rank, content := c }] }, h.locks.length)

def addRegistry (h : Hierarchy α) (directoryRank entryRank : Rank) : Hierarchy α × RegistryId :=
  let (h, l) := h.addLock directoryRank (.directory {})
  ({ h with registries := h.registries ++ [⟨l, entryRank⟩] }, h.registries.length)

def into (h : Hierarchy α) (t : ThreadId) (p : Phase α) : Hierarchy α := { h with calls := h.calls.move t p }

/-! ## Taking and releasing -/

/-- The order check before an acquisition: the ceiling that it would displace. -/
def checkAcquire (h : Hierarchy α) (t : ThreadId) (l : LockId) : Except Violation Rank :=
  if h.ceiling t ≤ h.rank l then .error ⟨.acquire, h.rank l, h.ceiling t⟩ else .ok (h.ceiling t)

/-- The mutex taken and the ceiling lowered, if the mutex is free. -/
def admit? (h : Hierarchy α) (t : ThreadId) (l : LockId) (previous : Rank) :
    Option (Hierarchy α × Guard) := do
  let k ← h.locks[l]?
  let m ← k.mutex.acquire? t
  some ({ h with locks := h.locks.set l { k with mutex := m } }.setCeiling t k.rank, ⟨l, previous⟩)

def checkRelease (h : Hierarchy α) (t : ThreadId) (g : Guard) : Except Violation Unit :=
  if h.ceiling t = h.rank g.lock then .ok () else .error ⟨.release, h.rank g.lock, h.ceiling t⟩

def release (h : Hierarchy α) (t : ThreadId) (g : Guard) (panicking : Bool) : Hierarchy α :=
  { h with locks := h.locks.modify g.lock fun k => { k with mutex := k.mutex.release panicking } }.setCeiling
    t g.previous

end Hierarchy

end Interlock
