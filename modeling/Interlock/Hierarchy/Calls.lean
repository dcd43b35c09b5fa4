import Interlock.Hierarchy.Slots

/-!
# Calls that wait for ranked locks

Taking a lock, dropping guards and every call on a registry, step by step. The check of the order comes
before any waiting, and a call does its work in the step in which it takes the lock for it. A registry holds
its directory during the whole call and an entry inside that; both guards are dropped when the call ends,
the inner one first. A guard that is dropped out of order stays in force for good: the drop starts a panic,
or passes over it in silence if one is already under way.
-/

namespace Interlock.Hierarchy

variable {α : Type}

def admits (h : Hierarchy α) (t : ThreadId) : Request α → Bool
  | .lock l aim => l < h.locks.length && h.accepts t l aim
  | .drop slots _ => slots.all fun slot => (h.slot? t slot).isSome
  | .registry r _ => r < h.registries.length

/-- A thread makes a call; inside another call it does so only from a callback. -/
def start? (h : Hierarchy α) (t : ThreadId) (r : Request α) : Option (Hierarchy α) :=
  if h.isFree t && h.admits t r then some { h with calls := h.calls.start t (.entering r) } else none

/-- Check the order and then wait for the lock. Refused, the guards in hand are dropped. -/
def approach (h : Hierarchy α) (t : ThreadId) (l : LockId) (p : Purpose α) (inHand : List Guard) :
    Hierarchy α :=
  match h.checkAcquire t l with
  | .ok previous => h.into t (.waiting l previous p)
  | .error v => h.into t (.releasing inHand (.violated v))

def takeOut (h : Hierarchy α) (t : ThreadId) : List String → Hierarchy α × List Guard
  | [] => (h, [])
  | slot :: rest =>
    let guard := (h.slot? t slot).bind Holding.guard?
    let (h, guards) := (h.clearSlot t slot).takeOut t rest
    (h, guard.toList ++ guards)

def enter (h : Hierarchy α) (t : ThreadId) : Request α → Hierarchy α
  | .lock l aim => h.approach t l (.hold aim) []
  | .drop slots panic =>
    let (h, guards) := h.takeOut t slots
    h.into t (.releasing guards (match panic with
      | none => .done
      | some message => .panicked message))
  | .registry r i =>
    match h.registries[r]? with
    | some k => h.approach t k.directory (.inquire r i) []
    | none => h.into t (.returned .done)

def openEntry (h : Hierarchy α) (t : ThreadId) (g : Guard) (name : String) (callback : Bool) : Hierarchy α :=
  match (h.names g.lock).get? name with
  | none => h.into t (.releasing [g] (if callback then .visited false else .value none))
  | some l => h.approach t l (.visit g callback) [g]

/-- Bind the name to a new lock at the rank of the registry's entries. -/
def bind (h : Hierarchy α) (t : ThreadId) (g : Guard) (r : RegistryId) (name : String) (v : α) :
    Hierarchy α :=
  let entryRank := ((h.registries[r]?).map (·.entryRank)).getD Rank.unbounded
  let names := h.names g.lock
  let (h, l) := h.addLock entryRank (.element v)
  (h.setContent g.lock (.directory (names.insert name l))).into t
    (.releasing [g] (.flag (names.contains name)))

def inquire (env : Environment) (t : ThreadId) (h : Hierarchy α) (g : Guard)
    (r : RegistryId) : Inquiry α → Hierarchy α
  | .insert name v =>
    match env.table (h.names g.lock).size 1 with
    | .ok () => h.bind t g r name v
    | .error f => h.into t (.releasing [g] (.exhausted f))
  | .remove name =>
    let names := h.names g.lock
    (h.setContent g.lock (.directory (names.erase name))).into t (.releasing [g] (.bound (names.get? name)))
  | .entry name => h.into t (.releasing [g] (.bound ((h.names g.lock).get? name)))
  | .contains name => h.into t (.releasing [g] (.flag ((h.names g.lock).contains name)))
  | .len => h.into t (.releasing [g] (.count (h.names g.lock).size))
  | .isEmpty => h.into t (.releasing [g] (.flag ((h.names g.lock).size == 0)))
  | .get name => h.openEntry t g name false
  | .update name => h.openEntry t g name true

def proceed (env : Environment) (t : ThreadId) (h : Hierarchy α) (g : Guard) : Purpose α → Hierarchy α
  | .hold aim => (h.deliver t g aim).into t (.returned .done)
  | .inquire r i => h.inquire env t g r i
  | .visit directory true => h.into t (.visiting g directory)
  | .visit directory false => h.into t (.releasing [g, directory] (.value (h.element? g.lock)))

/-- Drop the guards from the first on. A drop out of order releases nothing; the first one, unless there
is a panic already, starts one. -/
def dropNext (h : Hierarchy α) (t : ThreadId) : List Guard → Answer α → Hierarchy α
  | [], a => h.into t (.returned a)
  | g :: rest, a =>
    match h.checkRelease t g with
    | .ok () => (h.release t g a.isPanic).into t (.releasing rest a)
    | .error v => h.into t (.releasing rest (if a.isPanic then a else .panicked v.message))

/-- The next step of the thread's call, unless it has to wait, is in its callback or has returned. -/
def step? (env : Environment) (t : ThreadId) (h : Hierarchy α) : Option (Hierarchy α) :=
  match h.calls.current? t with
  | none => none
  | some (.entering r) => some (h.enter t r)
  | some (.waiting l previous p) => (h.admit? t l previous).map fun (h, g) => h.proceed env t g p
  | some (.visiting _ _) => none
  | some (.releasing guards a) => some (h.dropNext t guards a)
  | some (.returned _) => none

def visited? (h : Hierarchy α) (t : ThreadId) : Option LockId :=
  match h.calls.current? t with
  | some (.visiting e _) => some e.lock
  | _ => none

def end? (h : Hierarchy α) (t : ThreadId) (e : Ending) : Option (Hierarchy α) :=
  match h.calls.current? t with
  | some (.visiting entry directory) =>
    some (h.into t (.releasing [entry, directory] (match e with
      | .finished => .visited true
      | .panicked message => .panicked message)))
  | _ => none

def answer? (h : Hierarchy α) (t : ThreadId) : Option (Answer α) :=
  match h.calls.current? t with
  | some (.returned a) => some a
  | _ => none

def collect (h : Hierarchy α) (t : ThreadId) : Hierarchy α := { h with calls := h.calls.finish t }

end Interlock.Hierarchy
