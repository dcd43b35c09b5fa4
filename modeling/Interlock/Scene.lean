import Interlock.Client
import Interlock.Datum
import Interlock.World

/-!
# Scenes

A scene is a world whose objects have names, together with the tokens by which callbacks wait for each
other. Clients that act on a scene make calls on the objects.
-/

namespace Interlock

inductive Scene.Kind where
  | queue
  | stack
  | cache
  | cell
  | lock
  | registry
  deriving Repr, DecidableEq

structure Scene where
  world : World Datum := {}
  names : Table (Scene.Kind × String) Nat := {}
  reached : List String := []
  signalled : List String := []

namespace Scene

/-- Whether a slot or a registry refers to the lock, so that nobody can have it to himself. A registry
without a name is gone. -/
def isShared (s : Scene) (l : LockId) : Bool :=
  s.world.hierarchy.isKept l ||
  s.names.toList.any fun ((k, _), r) => k = .registry && s.world.hierarchy.lists r l

abbrev Act (ρ : Type) := Client Scene ρ

def modifyWorld (f : World Datum → World Datum) : Act Unit :=
  .modify fun s => { s with world := f s.world }

def modifyHierarchy (f : Hierarchy Datum → Hierarchy Datum) : Act Unit :=
  modifyWorld fun w => { w with hierarchy := f w.hierarchy }

def deed (t : ThreadId) (d : Hierarchy.Deed) : Act (Option Hierarchy.Outcome) :=
  .modifyGet fun s =>
    match s.world.hierarchy.perform? t d with
    | some (h, o) => (some o, { s with world := { s.world with hierarchy := h } })
    | none => (none, s)

def hierarchy : Act (Hierarchy Datum) := .query (·.world.hierarchy)

def lookup (k : Kind) (name : String) : Act (Option Nat) := .query (·.names.get? (k, name))

def bind (k : Kind) (name : String) (i : Nat) : Act Unit :=
  .modify fun s => { s with names := s.names.insert (k, name) i }

def forget (k : Kind) (name : String) : Act Unit :=
  .modify fun s => { s with names := s.names.erase (k, name) }

def create (k : Kind) (name : String) (make : World Datum → World Datum × Nat) : Act Unit := do
  let i ← Client.modifyGet fun s =>
    let (world, i) := make s.world
    (i, { s with world })
  bind k name i

inductive Progress where
  | impossible
  | answered (a : World.Answer Datum)
  | callback

/-- Go on once the thread's innermost call has come to its callback or to its answer. -/
def settle (t : ThreadId) : Act Progress := do
  Client.waitFor (·.world.isSettled t)
  Client.modifyGet fun s =>
    match s.world.answer? t with
    | some a => (.answered a, { s with world := s.world.collect t })
    | none => (.callback, s)

def call (t : ThreadId) (c : World.Call Datum) : Act Progress := do
  let started ← Client.modifyGet fun s =>
    match s.world.start? t c with
    | some world => (true, { s with world })
    | none => (false, s)
  if started then settle t else pure .impossible

def answer (t : ThreadId) (c : World.Call Datum) : Act (Option (World.Answer Datum)) := do
  match ← call t c with
  | .answered a => pure (some a)
  | _ => pure none

def endCallback (t : ThreadId) (e : World.Ending Datum) : Act (Option (World.Answer Datum)) := do
  modifyWorld fun w => (w.end? t e).getD w
  match ← settle t with
  | .answered a => pure (some a)
  | _ => pure none

end Scene

end Interlock
