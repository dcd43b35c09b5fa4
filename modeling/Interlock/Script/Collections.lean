import Interlock.Scene
import Interlock.Script.Result

/-!
# Steps on the collections

Steps on queues, stacks, caches and guarded cells that run no callback.
-/

namespace Interlock.Script

open Scene

def ConfigSource.read : ConfigSource → Except Fault Config
  | .document text => Config.parse text
  | .given c => .ok c

/-- The elements of a new collection, or why there is none; `field` is its capacity in a configuration. -/
def Origin.contents (layout : Storage.Layout) (field : Config → Nat) : Origin → Except Result (List Datum)
  | .empty => .ok []
  | .items vs => .ok vs
  | .capacity n => if layout.fits n then .ok [] else .error (.panicked layout.overflow)
  | .config c =>
    match c.read with
    | .error f => .error (.fault f)
    | .ok c => if layout.fits (field c) then .ok [] else .error (.panicked layout.overflow)

def exhausted (f : StorageFault) : Result := .fault (.storageExhausted f)

def withName (k : Kind) (name : String) (f : Nat → Act Result) : Act Result := do
  match ← lookup k name with
  | some i => f i
  | none => pure .impossible

/-! ## Queues -/

def queueResult : Queue.Answer Datum → Result
  | .done => .ok
  | .exhausted f => exhausted f
  | .popped v => .option v
  | .moved found out => .found found out
  | .value v => .value v
  | .count n => .count n
  | .flag b => .flag b
  | .contents items => .items items

def onQueue (t : ThreadId) (name : String) (r : Queue.Request Datum) (f : Queue.Answer Datum → Act Result) :
    Act Result :=
  withName .queue name fun i => do
    match ← answer t (.queue i r) with
    | some (.queue a) => f a
    | _ => pure .impossible

def askQueue (t : ThreadId) (name : String) (r : Queue.Request Datum) : Act Result :=
  onQueue t name r fun a => pure (queueResult a)

def keepQueue (target : String) : Queue.Answer Datum → Act Result
  | .contents items => do
    create .queue target (·.addQueue (.ofList items))
    pure .ok
  | a => pure (queueResult a)

def QueueStep.run (t : ThreadId) : QueueStep → Act Result
  | .new target o =>
    match o.contents Storage.array (·.queueCapacity) with
    | .error r => pure r
    | .ok items => keepQueue target (.contents items)
  | .push on v => askQueue t on (.push v)
  | .tryPop on => askQueue t on .tryPop
  | .tryPopInto on out => askQueue t on (.tryPopInto out)
  | .waitPop on => askQueue t on .waitPop
  | .waitPopInto on out => askQueue t on (.waitPopInto out)
  | .len on => askQueue t on .len
  | .isEmpty on => askQueue t on .isEmpty
  | .clone on target => onQueue t on .clone (keepQueue target)
  | .take on target => onQueue t on .take (keepQueue target)
  | .dump on => askQueue t on .clone
  | .consume on => withName .queue on fun i => do
    forget .queue on
    .query fun s => match s.world.queueList[i]? with
      | some q => .items q.items
      | none => .impossible
  | .reserve on n => askQueue t on (.reserve n)
  | .inspect on => onQueue t on .len fun
    | .count n => pure (.text ("BlockingQueue \x7b len: " ++ toString n ++ " \x7d"))
    | _ => pure .impossible

/-! ## Stacks -/

def stackResult : Stack.Answer Datum → Result
  | .done => .ok
  | .exhausted f => exhausted f
  | .popped v => .value v
  | .empty => .fault .emptyCollection
  | .moved found out => .moved (if found then none else some .emptyCollection) out
  | .built v => .built v
  | .notBuilt f => .popFault f
  | .panicked message => .panicked message
  | .count n => .count n
  | .flag b => .flag b
  | .contents items => .items items.reverse

def onStack (t : ThreadId) (name : String) (r : Stack.Request Datum) (f : Stack.Answer Datum → Act Result) :
    Act Result :=
  withName .stack name fun i => do
    match ← answer t (.stack i r) with
    | some (.stack a) => f a
    | _ => pure .impossible

def askStack (t : ThreadId) (name : String) (r : Stack.Request Datum) : Act Result :=
  onStack t name r fun a => pure (stackResult a)

def StackStep.run (t : ThreadId) : StackStep → Act Result
  | .new target o =>
    match o.contents Storage.array (·.stackCapacity) with
    | .error r => pure r
    | .ok items => do
      create .stack target (·.addStack (.ofList items))
      pure .ok
  | .push on v => askStack t on (.push v)
  | .pop on => askStack t on .pop
  | .popInto on out => askStack t on (.popInto out)
  | .len on => askStack t on .len
  | .isEmpty on => askStack t on .isEmpty
  | .clone on target => onStack t on .clone fun
    | .contents items => do
      create .stack target (·.addStack { items })
      pure .ok
    | a => pure (stackResult a)
  | .dump on => askStack t on .clone
  | .consume on => withName .stack on fun i => do
    forget .stack on
    .query fun s => match s.world.stackList[i]? with
      | some k => .items k.toList
      | none => .impossible
  | .reserve on n => askStack t on (.reserve n)
  | .inspect on => onStack t on .len fun
    | .count n => pure (.text ("ConcurrentStack \x7b len: " ++ toString n ++ " \x7d"))
    | _ => pure .impossible

/-! ## Caches -/

def cacheResult : Cache.Answer Datum → Result
  | .done => .ok
  | .exhausted f => exhausted f
  | .found v => .option v
  | .visited => .ok
  | .panicked message => .panicked message
  | .count n => .count n
  | .flag b => .flag b

def askCache (t : ThreadId) (name : String) (r : Cache.Request String Datum) : Act Result :=
  withName .cache name fun i => do
    match ← answer t (.cache i r) with
    | some (.cache a) => pure (cacheResult a)
    | _ => pure .impossible

def queuedIn (s : Scene) (i : Nat) : Nat :=
  ((s.world.cacheList[i]?).map (·.queuedWriters.toNat)).getD 0

def CacheStep.run (t : ThreadId) : CacheStep → Act Result
  | .new target o =>
    match o.contents Storage.table (·.cacheCapacity) with
    | .error r => pure r
    | .ok _ => do
      create .cache target (·.addCache {})
      pure .ok
  | .write on key v => askCache t on (.change (.write key v))
  | .read on key => askCache t on (.look (.read key))
  | .remove on key => askCache t on (.change (.remove key))
  | .len on => askCache t on (.look .len)
  | .isEmpty on => askCache t on (.look .isEmpty)
  | .reserve on n => askCache t on (.change (.reserve n))
  | .queuedWriters on => withName .cache on fun i => .query fun s => .count (queuedIn s i)
  | .awaitQueuedWriter on => withName .cache on fun i => do
    Client.waitFor fun s => queuedIn s i != 0
    .query fun s => .count (queuedIn s i)
  | .inspect on => withName .cache on fun i => .query fun s =>
    .text ("SharedCache \x7b queued_writers: " ++ toString (queuedIn s i) ++ ", .. \x7d")

/-! ## Guarded cells -/

def cellResult : Cells.Answer Datum → Result
  | .done => .ok
  | .panicked message => .panicked message
  | .value v => .value v
  | .flag b => .flag b

def askCells (t : ThreadId) (r : Cells.Request) : Act Result := do
  match ← answer t (.cells r) with
  | some (.cells a) => pure (cellResult a)
  | _ => pure .impossible

def CellStep.run (t : ThreadId) : CellStep → Act Result
  | .new target v => do
    create .cell target (·.addCell v)
    pure .ok
  | .snapshot on => withName .cell on fun i => askCells t (.snapshot i)
  | .sameValue on other =>
    withName .cell on fun i => withName .cell other fun j => askCells t (.sameValue i j)
  | .swap on other => withName .cell on fun i => withName .cell other fun j => askCells t (.swap i j)
  | .consume on => withName .cell on fun i => do
    forget .cell on
    .query fun s => match s.world.cells.value? i with
      | some v => .value v
      | none => .impossible
  | .inspect on => withName .cell on fun _ => pure (.text "Guarded \x7b .. \x7d")

end Interlock.Script
