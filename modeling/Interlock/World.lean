import Interlock.Queue
import Interlock.Stack
import Interlock.Cache
import Interlock.Cells
import Interlock.Hierarchy.Calls

/-!
# The world

All objects together, and for each thread the calls that it is inside. A thread is either at rest, or in a
call that moves by itself, or in the callback of its innermost call, where it may touch what the callback
has in hand, make further calls, and end the callback. A step of a call is a step of the machine of the
object that the call was made on, and changes nothing else.
-/

namespace Interlock

namespace World

/-- The object that a call is made on. The guarded cells and the ranked locks each form one object. -/
inductive Site where
  | queue (i : Nat)
  | stack (i : Nat)
  | cache (i : Nat)
  | cells
  | hierarchy
  deriving Repr, DecidableEq

inductive Call (α : Type) where
  | queue (i : Nat) (r : Queue.Request α)
  | stack (i : Nat) (r : Stack.Request α)
  | cache (i : Nat) (r : Cache.Request String α)
  | cells (r : Cells.Request)
  | hierarchy (r : Hierarchy.Request α)

def Call.site {α : Type} : Call α → Site
  | .queue i _ => .queue i
  | .stack i _ => .stack i
  | .cache i _ => .cache i
  | .cells _ => .cells
  | .hierarchy _ => .hierarchy

inductive Answer (α : Type) where
  | queue (a : Queue.Answer α)
  | stack (a : Stack.Answer α)
  | cache (a : Cache.Answer α)
  | cells (a : Cells.Answer α)
  | hierarchy (a : Hierarchy.Answer α)

end World

structure World (α : Type) where
  queueList : List (Queue α) := []
  stackList : List (Stack α) := []
  cacheList : List (Cache String α) := []
  cells : Cells α := {}
  hierarchy : Hierarchy α := {}
  /-- Where the calls of each thread are made, the innermost first. -/
  sites : Table ThreadId (List World.Site) := {}

namespace World

variable {α : Type}

/-! ## Objects -/

def addQueue (w : World α) (q : Queue α) : World α × Nat :=
  ({ w with queueList := w.queueList ++ [q] }, w.queueList.length)

def addStack (w : World α) (s : Stack α) : World α × Nat :=
  ({ w with stackList := w.stackList ++ [s] }, w.stackList.length)

def addCache (w : World α) (c : Cache String α) : World α × Nat :=
  ({ w with cacheList := w.cacheList ++ [c] }, w.cacheList.length)

def addCell (w : World α) (v : α) : World α × CellId :=
  let (cells, i) := w.cells.add v
  ({ w with cells }, i)

def addLock (w : World α) (rank : Rank) (v : α) : World α × LockId :=
  let (hierarchy, l) := w.hierarchy.addLock rank (.element v)
  ({ w with hierarchy }, l)

def addRegistry (w : World α) (directoryRank entryRank : Rank) : World α × RegistryId :=
  let (hierarchy, r) := w.hierarchy.addRegistry directoryRank entryRank
  ({ w with hierarchy }, r)

/-! ## Calls -/

def sitesOf (w : World α) (t : ThreadId) : List Site := (w.sites.get? t).getD []

inductive Grip (α : Type) where
  | top (v : α)
  | entry (v : Option α)
  | cell (i : CellId)
  | lock (l : LockId)

def grip? (w : World α) (t : ThreadId) : Option (Grip α) :=
  match w.sitesOf t with
  | .stack i :: _ => do some (.top (← (← w.stackList[i]?).top? t))
  | .cache i :: _ => do some (.entry (← (← w.cacheList[i]?).seen? t))
  | .cells :: _ => do some (.cell (← w.cells.held? t))
  | .hierarchy :: _ => do some (.lock (← w.hierarchy.visited? t))
  | _ => none

def gripped? (w : World α) : Grip α → Option α
  | .top v => some v
  | .entry v => v
  | .cell i => w.cells.value? i
  | .lock l => w.hierarchy.element? l

/-- The world with another element in hand, where the callback may change it. -/
def setGripped (w : World α) (g : Grip α) (v : α) : World α :=
  match g with
  | .top _ => w
  | .entry _ => w
  | .cell i => { w with cells := w.cells.setValue i v }
  | .lock l => { w with hierarchy := w.hierarchy.setContent l (.element v) }

/-- Whether the thread is at rest or in a callback, so that it can do something of its own. -/
def isFree (w : World α) (t : ThreadId) : Bool := (w.sitesOf t).isEmpty || (w.grip? t).isSome

def start? (w : World α) (t : ThreadId) (c : Call α) : Option (World α) := do
  guard (w.isFree t)
  let w ← match c with
    | .queue i r => do
      let q ← w.queueList[i]?
      some { w with queueList := w.queueList.set i (← q.start? t r) }
    | .stack i r => do
      let s ← w.stackList[i]?
      some { w with stackList := w.stackList.set i (← s.start? t r) }
    | .cache i r => do
      let k ← w.cacheList[i]?
      some { w with cacheList := w.cacheList.set i (← k.start? t r) }
    | .cells r => do some { w with cells := ← w.cells.start? t r }
    | .hierarchy r => do some { w with hierarchy := ← w.hierarchy.start? t r }
  some { w with sites := w.sites.insert t (c.site :: w.sitesOf t) }

def step? [BEq α] (env : Environment) (t : ThreadId) (w : World α) : Option (World α) :=
  match w.sitesOf t with
  | [] => none
  | .queue i :: _ => do
    let q ← w.queueList[i]?
    some { w with queueList := w.queueList.set i (← q.step? env t) }
  | .stack i :: _ => do
    let s ← w.stackList[i]?
    some { w with stackList := w.stackList.set i (← s.step? env t) }
  | .cache i :: _ => do
    let k ← w.cacheList[i]?
    some { w with cacheList := w.cacheList.set i (← k.step? env t) }
  | .cells :: _ => do some { w with cells := ← w.cells.step? t }
  | .hierarchy :: _ => do some { w with hierarchy := ← w.hierarchy.step? env t }

def wake? (w : World α) (t : ThreadId) : Option (World α) :=
  match w.sitesOf t with
  | .queue i :: _ => do
    let q ← w.queueList[i]?
    some { w with queueList := w.queueList.set i (← q.wake? t) }
  | _ => none

def answer? (w : World α) (t : ThreadId) : Option (Answer α) :=
  match w.sitesOf t with
  | [] => none
  | .queue i :: _ => do some (.queue (← (← w.queueList[i]?).answer? t))
  | .stack i :: _ => do some (.stack (← (← w.stackList[i]?).answer? t))
  | .cache i :: _ => do some (.cache (← (← w.cacheList[i]?).answer? t))
  | .cells :: _ => do some (.cells (← w.cells.answer? t))
  | .hierarchy :: _ => do some (.hierarchy (← w.hierarchy.answer? t))

def collect (w : World α) (t : ThreadId) : World α :=
  match w.sitesOf t with
  | [] => w
  | site :: outer =>
    let w := match site with
      | .queue i => { w with queueList := w.queueList.modify i (·.collect t) }
      | .stack i => { w with stackList := w.stackList.modify i (·.collect t) }
      | .cache i => { w with cacheList := w.cacheList.modify i (·.collect t) }
      | .cells => { w with cells := w.cells.collect t }
      | .hierarchy => { w with hierarchy := w.hierarchy.collect t }
    { w with sites := w.sites.insert t outer }

/-! ## Callbacks -/

inductive Ending (α : Type) where
  | callback (e : Interlock.Ending)
  | builder (e : Stack.Ending α)

def end? (w : World α) (t : ThreadId) (e : Ending α) : Option (World α) :=
  match w.sitesOf t, e with
  | .stack i :: _, .builder e => do
    let s ← w.stackList[i]?
    some { w with stackList := w.stackList.set i (← s.end? t e) }
  | .cache i :: _, .callback e => do
    let k ← w.cacheList[i]?
    some { w with cacheList := w.cacheList.set i (← k.end? t e) }
  | .cells :: _, .callback e => do some { w with cells := ← w.cells.end? t e }
  | .hierarchy :: _, .callback e => do some { w with hierarchy := ← w.hierarchy.end? t e }
  | _, _ => none

def isSettled (w : World α) (t : ThreadId) : Bool := w.isFree t || (w.answer? t).isSome

end World

end Interlock
