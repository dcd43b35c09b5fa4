import Interlock.Hierarchy.Basic

/-!
# Guards and handles in slots

What a thread does at once, without waiting: trying a lock, releasing a guard, and moving guards between
slots and handles. A refused release leaves the guard where it was. A handle is a reference to a lock with
an optional guard; it behaves as the guard would by itself.
-/

namespace Interlock.Hierarchy

variable {α : Type}

def deliver (h : Hierarchy α) (t : ThreadId) (g : Guard) : Aim → Hierarchy α
  | .guard slot => h.setSlot t slot (.guard g)
  | .newHandle slot => h.setSlot t slot (.handle ⟨g.lock, .locked, some g⟩)
  | .handle slot => h.setSlot t slot (.handle ⟨g.lock, .locked, some g⟩)

def accepts (h : Hierarchy α) (t : ThreadId) (l : LockId) : Aim → Bool
  | .guard slot => (h.slot? t slot).isNone
  | .newHandle slot => (h.slot? t slot).isNone
  | .handle slot =>
    match h.slot? t slot with
    | some (.handle k) => k.lock = l
    | _ => false

/-! ## Deeds -/

inductive Deed where
  | tryLock (l : LockId) (aim : Aim)
  | unlock (slot : String)
  /-- Make the guard of a refused release a plain guard again. -/
  | recover (slot : String)
  | unlockHandle (slot : String)
  | defer (l : LockId) (slot : String)
  /-- Make a handle that takes over a guard. -/
  | adopt (source target : String)
  /-- Give up a handle for the guard that it holds, if any. -/
  | detach (source target : String)
  deriving Repr, DecidableEq

inductive Outcome where
  | done
  | flag (b : Bool)
  | violated (v : Violation)
  deriving Repr, DecidableEq

def tryLock (h : Hierarchy α) (t : ThreadId) (l : LockId) (aim : Aim) : Hierarchy α × Outcome :=
  match h.checkAcquire t l with
  | .error v => (h, .violated v)
  | .ok previous =>
    match h.admit? t l previous with
    | none => (h, .flag false)
    | some (h, g) => (h.deliver t g aim, .flag true)

/-- Release the guard in the slot. If that is refused the guard stays, with the reason. -/
def unlock (h : Hierarchy α) (t : ThreadId) (slot : String) (g : Guard) : Hierarchy α × Outcome :=
  match h.checkRelease t g with
  | .ok () => ((h.release t g false).clearSlot t slot, .done)
  | .error v => (h.setSlot t slot (.refused v g), .violated v)

/-- Release what the handle in the slot holds. If that is refused the handle stays as it is. -/
def unlockHandle (h : Hierarchy α) (t : ThreadId) (slot : String) (k : Handle) : Hierarchy α × Outcome :=
  match k.guard with
  | none => (h, .done)
  | some g =>
    match h.checkRelease t g with
    | .ok () => ((h.release t g false).setSlot t slot (.handle ⟨k.lock, .unlocked, none⟩), .done)
    | .error v => (h, .violated v)

def detach (h : Hierarchy α) (t : ThreadId) (source target : String) (k : Handle) : Hierarchy α × Outcome :=
  match k.guard with
  | none => (h.clearSlot t source, .flag false)
  | some g => ((h.clearSlot t source).setSlot t target (.guard g), .flag true)

def canMove (h : Hierarchy α) (t : ThreadId) (source target : String) : Bool :=
  source = target || (h.slot? t target).isNone

def attempt? (h : Hierarchy α) (t : ThreadId) : Deed → Option (Hierarchy α × Outcome)
  | .tryLock l aim => if h.accepts t l aim then some (h.tryLock t l aim) else none
  | .unlock slot =>
    match h.slot? t slot with
    | some (.guard g) => some (h.unlock t slot g)
    | _ => none
  | .recover slot =>
    match h.slot? t slot with
    | some (.refused _ g) => some (h.setSlot t slot (.guard g), .done)
    | _ => none
  | .unlockHandle slot =>
    match h.slot? t slot with
    | some (.handle k) => some (h.unlockHandle t slot k)
    | _ => none
  | .defer l slot =>
    match h.slot? t slot with
    | none => some (h.setSlot t slot (.handle ⟨l, .unlocked, none⟩), .done)
    | some _ => none
  | .adopt source target =>
    match h.slot? t source, h.canMove t source target with
    | some (.guard g), true =>
      some ((h.clearSlot t source).setSlot t target (.handle ⟨g.lock, .adopted, some g⟩), .done)
    | _, _ => none
  | .detach source target =>
    match h.slot? t source, h.canMove t source target with
    | some (.handle k), true => some (h.detach t source target k)
    | _, _ => none

def perform? (h : Hierarchy α) (t : ThreadId) (d : Deed) : Option (Hierarchy α × Outcome) :=
  if h.isFree t then h.attempt? t d else none

/-! ## Who refers to a lock -/

def isKept (h : Hierarchy α) (l : LockId) : Bool :=
  h.threads.toList.any fun (_, s) => s.slots.toList.any fun (_, x) => x.lock = l

def lists (h : Hierarchy α) (r : RegistryId) (l : LockId) : Bool :=
  (h.registries[r]?).any fun k => (h.names k.directory).toList.any fun (_, e) => e = l

/-! ## How things show -/

def inspectLock (h : Hierarchy α) (l : LockId) : String :=
  "RankedLock \x7b rank: " ++ toString (h.rank l) ++ ", .. \x7d"

def inspectGuard (h : Hierarchy α) (g : Guard) : String :=
  "RankedGuard \x7b rank: " ++ toString (h.rank g.lock) ++ ", previous: " ++ toString g.previous ++ ", .. \x7d"

def inspectRefused (h : Hierarchy α) (v : Violation) (g : Guard) : String :=
  "UnlockError \x7b violation: " ++ v.inspect ++ ", guard: " ++ h.inspectGuard g ++ " \x7d"

def inspectHandle (h : Hierarchy α) (k : Handle) : String :=
  "RankedHandle \x7b rank: " ++ toString (h.rank k.lock) ++ ", state: " ++ k.state.name ++ " \x7d"

def inspectRegistry (h : Hierarchy α) (r : Registry) : String :=
  "Registry \x7b directory_rank: " ++ toString (h.rank r.directory) ++ ", entry_rank: " ++
    toString r.entryRank ++ ", .. \x7d"

end Interlock.Hierarchy
