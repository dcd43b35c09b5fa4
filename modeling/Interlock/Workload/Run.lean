import Interlock.Session
import Interlock.Workload

/-!
# Running workloads

The threads of a workload take turns step by step, so that their calls interleave as much as they can.
-/

namespace Interlock.Workload

open Scene

/-! ## What one thread does -/

def push (t : ThreadId) (queue : Nat) (n : Nat) : Act Unit := do
  let _ ← answer t (.queue queue (.push (.int n)))

def number : Datum → Int
  | .int n => n
  | _ => 0

def waitPop (t : ThreadId) (queue : Nat) : Act Int := do
  match ← answer t (.queue queue .waitPop) with
  | some (.queue (.value v)) => pure (number v)
  | _ => pure 0

def drain (t : ThreadId) (stack : Nat) : Nat → Act (List Int)
  | 0 => pure []
  | n + 1 => do
    match ← answer t (.stack stack .pop) with
    | some (.stack (.popped v)) => do
      let rest ← drain t stack n
      pure (number v :: rest)
    | _ => pure []

def addTo (l : LockId) (n : Int) : Act Unit :=
  modifyHierarchy fun h =>
    match (h.element? l).bind (·.add? n) with
    | some v => h.setContent l (.element v)
    | none => h

def elementOf (l : LockId) : Act Int := do
  let h ← hierarchy
  pure (((h.element? l).map number).getD 0)

/-- Take two locks one inside the other, add one to the outer element and that to the inner one. -/
def nest (t : ThreadId) (outer inner : LockId) : Act Unit := do
  let _ ← answer t (.hierarchy (.lock outer (.guard "outer")))
  let _ ← answer t (.hierarchy (.lock inner (.guard "inner")))
  addTo outer 1
  let n ← elementOf outer
  addTo inner n
  let _ ← deed t (.unlock "inner")
  let _ ← deed t (.unlock "outer")

def tally (t : ThreadId) (registry : Nat) (name : String) (n : Int) : Act Unit := do
  match ← call t (.hierarchy (.registry registry (.update name))) with
  | .callback => do
    let w ← Client.query (·.world)
    match w.grip? t with
    | some (.lock l) => addTo l n
    | _ => pure ()
    let _ ← endCallback t (.callback .finished)
  | _ => pure ()

def sharedKey : String := toString Word.max

/-- Write a key of one's own and a pair at the shared key, and tell whether what was read there was torn. -/
def writePair (t : ThreadId) (cache key : Nat) : Act Bool := do
  let pair : Datum := .list [.int t, .int t]
  let _ ← answer t (.cache cache (.change (.write (toString key) (.int key))))
  let _ ← answer t (.cache cache (.change (.write sharedKey pair)))
  match ← answer t (.cache cache (.look (.read sharedKey))) with
  | some (.cache (.found (some (.list [a, b])))) => pure (number a != number b)
  | _ => pure true

/-! ## What all threads do -/

def together {ρ : Type} (w : Workload) (world : World Datum) (clients : List (Act ρ)) :
    World Datum × List ρ :=
  let numbered := clients.zipIdx.map fun (c, t) => (t, c)
  let session : Session ρ := ⟨{ world }, numbered⟩
  let session := session.settle .inTurn (512 * (w.threads * w.count + w.threads + 1))
  (session.scene.world, (List.range clients.length).filterMap session.result?)

def times {ρ : Type} (n : Nat) (f : Nat → Act ρ) : Act (List ρ) := (List.range n).mapM f

def sorted (ns : List Int) : List Int := ns.mergeSort (· ≤ ·)

def runQueue (w : Workload) : Outcome :=
  let (world, q) := World.addQueue {} {}
  let producers := (List.range w.threads).map fun t => do
    let _ ← times w.count fun i => push t q (t * w.count + i)
    pure []
  let consumers := (List.range w.threads).map fun i => times w.count fun _ => waitPop (w.threads + i) q
  let (world, popped) := together w world (producers ++ consumers)
  .queue (sorted popped.flatten) (((world.queueList[q]?).map (·.items.length)).getD 0)

def runStack (w : Workload) : Outcome :=
  let total := w.threads * w.count
  let (world, k) := World.addStack {} (.ofList ((List.range total).map fun n => .int n))
  let (world, popped) := together w world ((List.range w.threads).map fun t => drain t k (total + 1))
  .stack (sorted popped.flatten) (((world.stackList[k]?).map (·.items.isEmpty)).getD true)

def runSwap (w : Workload) : Outcome :=
  let (world, a) := World.addCell {} (.int 0)
  let (world, b) := world.addCell (.int 1)
  let (world, _) := together w world ((List.range w.threads).map fun t =>
    times w.count fun _ => answer t (.cells (if t % 2 = 0 then .swap a b else .swap b a)))
  .swap ((world.cells.value? a).getD .null) ((world.cells.value? b).getD .null)

def runLock (w : Workload) : Outcome :=
  let (world, outer) := World.addLock {} 100 (.int 0)
  let (world, inner) := world.addLock 50 (.int 0)
  let threads := List.range w.threads
  let (world, _) := together w world (threads.map fun t => times w.count fun _ => nest t outer inner)
  let h := world.hierarchy
  .lock ((h.element? outer).getD .null) ((h.element? inner).getD .null)
    (threads.countP fun t => h.ceiling t = Rank.unbounded)

def runRegistry (w : Workload) : Outcome :=
  let (world, r) := World.addRegistry {} 10000 5000
  let prepare : Act Unit := do
    let _ ← answer 0 (.hierarchy (.registry r (.insert "up" (.int 0))))
    let _ ← answer 0 (.hierarchy (.registry r (.insert "down" (.int 0))))
  let (world, _) := together w world [prepare]
  let (world, _) := together w world ((List.range w.threads).map fun t =>
    times w.count fun _ => do
      tally t r "up" 1
      tally t r "down" (-1))
  let value (name : String) : Datum := (do
    let k ← world.hierarchy.registries[r]?
    let l ← (world.hierarchy.names k.directory).get? name
    world.hierarchy.element? l).getD .null
  .registry (value "up") (value "down")

def runCache (w : Workload) : Outcome :=
  let (world, c) := World.addCache {} {}
  let (world, torn) := together w world ((List.range w.threads).map fun t =>
    times w.count fun i => writePair t c (t * w.count + i))
  match world.cacheList[c]? with
  | some k => .cache k.entries.size (torn.flatten.count true) k.queuedWriters.toNat
  | none => .cache 0 0 0

def run (w : Workload) : Outcome :=
  match w.kind with
  | .queue => runQueue w
  | .stack => runStack w
  | .swap => runSwap w
  | .lock => runLock w
  | .registry => runRegistry w
  | .cache => runCache w

end Interlock.Workload
