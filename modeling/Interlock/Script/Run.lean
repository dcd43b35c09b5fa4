import Interlock.Script.Perform

/-!
# Running scripts

A script is run command by command. After each, all threads go on for as long as they can, the thread of
the command first and then those that have waited longest. A step that has not come to an end by then is
blocked; its result can be awaited later.
-/

namespace Interlock.Script

/-! ## How long a script can run -/

mutual

def Step.size : Step → Nat
  | .popWith _ actions => 1 + sizeOfActions actions
  | .readWith _ _ actions => 1 + sizeOfActions actions
  | .withLock _ actions => 1 + sizeOfActions actions
  | .changeLock _ actions => 1 + sizeOfActions actions
  | .changeGuarded _ actions => 1 + sizeOfActions actions
  | .changeHandled _ actions => 1 + sizeOfActions actions
  | .update _ _ actions => 1 + sizeOfActions actions
  | .ranked (.drop slots _) => 1 + slots.length
  | _ => 1

def Action.size : Action → Nat
  | .steps ss => 1 + sizeOfSteps ss
  | _ => 1

def sizeOfActions : List Action → Nat
  | [] => 0
  | a :: rest => a.size + sizeOfActions rest

def sizeOfSteps : List Step → Nat
  | [] => 0
  | s :: rest => s.size + sizeOfSteps rest

end

/-- More turns than a step or an action of size one can take. -/
def turnsPerUnit : Nat := 64

/-! ## Commands -/

structure Stage where
  session : Session Result := {}
  threads : Table String ThreadId := {}
  size : Nat := 0

namespace Stage

def threadOf (s : Stage) (name : String) : Stage × ThreadId :=
  match s.threads.get? name with
  | some t => (s, t)
  | none => ({ s with threads := s.threads.insert name s.threads.size }, s.threads.size)

def settle (s : Stage) : Stage :=
  { s with session := s.session.settle .inOrder (turnsPerUnit * (s.size + 1)) }

/-- Take the result of the thread, if it has one. Without one it goes to the end of the line. -/
def harvest (s : Stage) (t : ThreadId) : Stage × Option Result :=
  let others := s.session.clients.filter fun (u, _) => u != t
  match s.session.result? t, Entries.find t s.session.clients with
  | some r, _ => ({ s with session := { s.session with clients := others } }, some r)
  | none, some c => ({ s with session := { s.session with clients := others ++ [(t, c)] } }, none)
  | none, none => (s, none)

def take (s : Stage) (t : ThreadId) (step : Step) : Stage × Result :=
  if (Entries.find t s.session.clients).isSome then (s, .impossible)
  else
    let clients := (t, step.run t) :: s.session.clients
    let s := { s with session := { s.session with clients }, size := s.size + step.size }
    let (s, r) := s.settle.harvest t
    (s, r.getD .blocked)

def await (s : Stage) (t : ThreadId) : Stage × Result :=
  let (s, r) := s.settle.harvest t
  (s, r.getD .blocked)

def obey (s : Stage) (c : Command) : Stage × Result :=
  let (s, t) := s.threadOf c.thread
  match c.order with
  | .take step => s.take t step
  | .await => s.await t

end Stage

def runFrom (s : Stage) : List Command → List Result
  | [] => []
  | c :: rest =>
    let (s, r) := s.obey c
    r :: runFrom s rest

def run (commands : List Command) : List Result := runFrom {} commands

end Interlock.Script
