import Interlock.Script.Ranked
import Interlock.Workload.Run

/-!
# Performing steps

Callbacks run their actions in order until one of them panics or, in a builder, refuses; then the call
whose callback it was ends accordingly. A panic ends the step whose call it leaves and goes no further, so
the steps around it go on.
-/

namespace Interlock.Script

open Scene

/-! ## Steps without a world -/

def configResult : Except Fault Config → Result
  | .ok c => .config c
  | .error f => .fault f

def withConfig (c : ConfigSource) (f : Config → Result) : Result :=
  match c.read with
  | .ok c => f c
  | .error e => .fault e

def ConfigStep.result : ConfigStep → Result
  | .parse text => configResult (Config.parse text)
  | .make c => configResult c.read
  | .validate c => withConfig c fun c =>
    match c.validate with
    | .ok () => .ok
    | .error f => .fault f
  | .inspect c => withConfig c fun c => .text c.inspect
  | .serialize c => withConfig c fun c => .document c.write?
  | .load f => configResult (Config.load f)

def FaultStep.result : FaultStep → Result
  | .fault f => .shownFault f.message f.isHierarchyViolation f.inspect?
  | .pop f => .shownPopFault f.message f.inspect

/-! ## Tokens -/

def awaitToken (token : String) : Act Unit := do
  Client.modify fun s => { s with reached := token :: s.reached }
  Client.waitFor (·.signalled.contains token)

def TokenStep.run : TokenStep → Act Result
  | .reached token => do
    Client.waitFor (·.reached.contains token)
    pure .ok
  | .signal token => do
    Client.modify fun s => { s with signalled := token :: s.signalled }
    pure .ok

/-! ## Callbacks -/

inductive Stop where
  | panicked (message : String)
  | refused (reason : String)

def Stop.ending : Option Stop → Ending
  | some (.panicked message) => .panicked message
  | _ => .finished

/-- How a builder ends that looks at the top; it builds the top itself. -/
def Stop.builderEnding (top : Datum) : Option Stop → Stack.Ending Datum
  | none => .built top
  | some (.panicked message) => .panicked message
  | some (.refused reason) => .refused reason

def worldEnding (stop : Option Stop) : World.Grip Datum → World.Ending Datum
  | .top v => .builder (Stop.builderEnding v stop)
  | _ => .callback (Stop.ending stop)

/-- Make a call and, if its callback runs, do what the callback does and end it; `f` turns the answer and
the results of the callback into the result. -/
def visit (t : ThreadId) (c : World.Call Datum) (body : World.Grip Datum → Act (List Result × Option Stop))
    (f : World.Answer Datum → List Result → Result) : Act Result := do
  match ← call t c with
  | .impossible => pure .impossible
  | .answered a => pure (f a [])
  | .callback => do
    match ← Client.query (·.world.grip? t) with
    | none => pure .impossible
    | some g => do
      let (rs, stop) ← body g
      match ← endCallback t (worldEnding stop g) with
      | some a => pure (f a rs)
      | none => pure .impossible

def inHand (body : Act (List Result × Option Stop)) : Act Result := do
  match ← body with
  | (_, some (.panicked message)) => pure (.panicked message)
  | (rs, _) => pure (.list rs)

def visitResult : World.Answer Datum → List Result → Result
  | .stack a, _ => stackResult a
  | .cache .visited, rs => .list rs
  | .cache a, _ => cacheResult a
  | .cells .done, rs => .list rs
  | .cells a, _ => cellResult a
  | .hierarchy (.visited true), rs => .visited (some rs)
  | .hierarchy (.visited false), _ => .visited none
  | .hierarchy a, _ => hierarchyResult a
  | _, _ => .impossible

/-! ## Actions -/

def change (g : World.Grip Datum) (f : Datum → Except String (Datum × Result)) : Act (Except Stop Result) :=
  .modifyGet fun s =>
    match s.world.gripped? g with
    | none => (.ok .impossible, s)
    | some v =>
      match f v with
      | .error message => (.error (.panicked message), s)
      | .ok (v, r) => (.ok r, { s with world := s.world.setGripped g v })

def getResult (g : World.Grip Datum) (v : Option Datum) : Result :=
  match g, v with
  | .entry _, v => .option v
  | _, some v => .value v
  | _, none => .impossible

def addResult (n : Int) (v : Datum) : Except String (Datum × Result) :=
  match v.add? n with
  | some v => .ok (v, .value v)
  | none => .error "not an integer"

def appendResult (item v : Datum) : Except String (Datum × Result) :=
  match v.append? item with
  | some (v, n) => .ok (v, .count n)
  | none => .error "not appendable"

def checkMost (n : Int) : World.Grip Datum → Except Stop Result
  | .top v =>
    if v.int64?.any (· ≤ n) then .ok .ok
    else .error (.refused (v.compact ++ " exceeds " ++ toString n))
  | _ => .ok .impossible

mutual

def Action.run (t : ThreadId) (g : World.Grip Datum) : Action → Act (Except Stop Result)
  | .get => .query fun s => .ok (getResult g (s.world.gripped? g))
  | .set v => change g fun old => .ok (v, .value old)
  | .add n => change g (addResult n)
  | .append v => change g (appendResult v)
  | .panic message => pure (.error (.panicked message))
  | .wait token => do
    awaitToken token
    pure (.ok .signalled)
  | .steps ss => do
    let rs ← runSteps t ss
    pure (.ok (.list rs))
  | .refuse reason => pure (.error (.refused reason))
  | .atMost n => pure (checkMost n g)
  | .unknown => pure (.ok .impossible)

def runActions (t : ThreadId) (g : World.Grip Datum) : List Action → Act (List Result × Option Stop)
  | [] => pure ([], none)
  | a :: rest => do
    match ← a.run t g with
    | .error stop => pure ([], some stop)
    | .ok r => do
      let (rs, stop) ← runActions t g rest
      pure (r :: rs, stop)

def runSteps (t : ThreadId) : List Step → Act (List Result)
  | [] => pure []
  | s :: rest => do
    let r ← s.run t
    let rs ← runSteps t rest
    pure (r :: rs)

def Step.run (t : ThreadId) : Step → Act Result
  | .queue s => s.run t
  | .stack s => s.run t
  | .popWith on actions => withName .stack on fun i =>
    visit t (.stack i .popWith) (fun g => runActions t g actions) visitResult
  | .cache s => s.run t
  | .readWith on key actions => withName .cache on fun i =>
    visit t (.cache i (.look (.readWith key))) (fun g => runActions t g actions) visitResult
  | .cell s => s.run t
  | .withLock on actions => withName .cell on fun i =>
    visit t (.cells (.withLock i)) (fun g => runActions t g actions) visitResult
  | .ranked s => s.run t
  | .changeLock on actions => withCeiling t (withName .lock on fun l => do
    if ← Client.query (·.isShared l) then pure .impossible
    else inHand (runActions t (.lock l) actions))
  | .changeGuarded slot actions => withCeiling t (withGuard t slot fun g =>
    inHand (runActions t (.lock g.lock) actions))
  | .changeHandled slot actions => withCeiling t (withHandle t slot fun k =>
    match k.guard with
    | none => pure .none
    | some g => inHand (runActions t (.lock g.lock) actions))
  | .update on name actions => withCeiling t (withName .registry on fun r =>
    visit t (.hierarchy (.registry r (.update name))) (fun g => runActions t g actions) visitResult)
  | .token s => s.run
  | .config s => pure s.result
  | .fault s => pure s.result
  | .workload w => pure (.outcome w.run)
  | .unknown => pure .impossible

end

end Interlock.Script
