import Interlock.Scene

/-!
# Sessions

A session runs clients on one scene, each on its thread. A turn is one step of a thread: of the call that
it is in, if that can move, and else of its client. A session is settled when no thread has a turn.
-/

namespace Interlock

/-- The usual storage; a notice goes to the sleeper that has called first. -/
def Environment.standard : Environment := ⟨.array, .table, 0⟩

inductive Session.Policy where
  /-- A thread goes on for as long as it can. -/
  | inOrder
  /-- A thread that had a turn goes to the end of the line. -/
  | inTurn
  deriving Repr, DecidableEq

structure Session (ρ : Type) where
  scene : Scene := {}
  clients : List (ThreadId × Client Scene ρ) := []

namespace Session

variable {ρ : Type}

def turn? (s : Scene) (t : ThreadId) (c : Client Scene ρ) : Option (Scene × Client Scene ρ) :=
  match s.world.step? .standard t with
  | some world => some ({ s with world }, c)
  | none => c.step? s

def advance? (policy : Policy) (scene : Scene) :
    (clients : List (ThreadId × Client Scene ρ)) → Option (Session ρ)
  | [] => none
  | (t, c) :: rest =>
    match turn? scene t c with
    | some (scene, c) =>
      some ⟨scene, match policy with
        | .inOrder => (t, c) :: rest
        | .inTurn => rest ++ [(t, c)]⟩
    | none => (advance? policy scene rest).map fun s => { s with clients := (t, c) :: s.clients }

def settle (policy : Policy) : (turns : Nat) → Session ρ → Session ρ
  | 0, s => s
  | turns + 1, s =>
    match advance? policy s.scene s.clients with
    | some s => settle policy turns s
    | none => s

def result? (s : Session ρ) (t : ThreadId) : Option ρ :=
  (Entries.find t s.clients).bind Client.result?

end Session

end Interlock
