import Interlock.Thread

/-!
# Guarded cells

Each cell holds a value that is touched only under the mutex of the cell. Cells are numbered. A swap holds
two mutexes at once and always takes that of the lower number first; a comparison copies one cell after
the other and never holds both.
-/

namespace Interlock

structure Cell (α : Type) where
  value : α
  mutex : Mutex := {}

abbrev CellId := Nat

namespace Cells

inductive Request where
  | withLock (i : CellId)
  | snapshot (i : CellId)
  | sameValue (i j : CellId)
  | swap (i j : CellId)

inductive Answer (α : Type) where
  | done
  | panicked (message : String)
  | value (v : α)
  | flag (b : Bool)

inductive Purpose (α : Type) where
  | snapshot
  /-- The first copy of a comparison; the second is to be of cell `j`. -/
  | first (j : CellId)
  /-- The second copy of a comparison, after the first. -/
  | second (v : α)

inductive Phase (α : Type) where
  | entering (r : Request)
  /-- Has the cell, and the callback runs. -/
  | using (i : CellId)
  /-- Wants a cell to copy. -/
  | approaching (i : CellId) (p : Purpose α)
  /-- Has the cell and the copy. -/
  | copied (i : CellId) (v : α) (p : Purpose α)
  /-- Has the copies of a comparison and no cell. -/
  | comparing (v w : α)
  /-- Has the first cell of a swap and wants the second. -/
  | halfway (i j : CellId)
  /-- Has both cells of a swap, exchanged. -/
  | exchanged (i j : CellId)
  /-- Has a cell only to let it go. -/
  | leaving (i : CellId) (panicking : Bool) (a : Answer α)
  | returned (a : Answer α)

end Cells

structure Cells (α : Type) where
  cells : List (Cell α) := []
  calls : Calls (Cells.Phase α) := {}

namespace Cells

variable {α : Type}

def add (c : Cells α) (v : α) : Cells α × CellId :=
  ({ c with cells := c.cells ++ [{ value := v }] }, c.cells.length)

def value? (c : Cells α) (i : CellId) : Option α := (c.cells[i]?).map (·.value)

def setValue (c : Cells α) (i : CellId) (v : α) : Cells α :=
  { c with cells := c.cells.modify i fun cell => { cell with value := v } }

def acquire? (c : Cells α) (t : ThreadId) (i : CellId) : Option (Cells α) := do
  let cell ← c.cells[i]?
  let m ← cell.mutex.acquire? t
  some { c with cells := c.cells.set i { cell with mutex := m } }

def release (c : Cells α) (i : CellId) (panicking : Bool) : Cells α :=
  { c with cells := c.cells.modify i fun cell => { cell with mutex := cell.mutex.release panicking } }

def start? (c : Cells α) (t : ThreadId) (r : Request) : Option (Cells α) :=
  match c.calls.current? t with
  | none => some { c with calls := c.calls.start t (.entering r) }
  | some (.using _) => some { c with calls := c.calls.start t (.entering r) }
  | some _ => none

def into (c : Cells α) (t : ThreadId) (p : Phase α) : Cells α := { c with calls := c.calls.move t p }

/-- The first step of a call. A cell is the same as itself, and swapping it with itself changes nothing. -/
def enter? (c : Cells α) (t : ThreadId) : Request → Option (Cells α)
  | .withLock i => (c.acquire? t i).map (·.into t (.using i))
  | .snapshot i => some (c.into t (.approaching i .snapshot))
  | .sameValue i j =>
    if i = j then some (c.into t (.returned (.flag true)))
    else some (c.into t (.approaching i (.first j)))
  | .swap i j =>
    if i = j then some (c.into t (.returned .done))
    else (c.acquire? t (min i j)).map (·.into t (.halfway (min i j) (max i j)))

def step? [BEq α] (t : ThreadId) (c : Cells α) : Option (Cells α) :=
  match c.calls.current? t with
  | none => none
  | some (.entering r) => c.enter? t r
  | some (.using _) => none
  | some (.approaching i p) => do
    let v ← c.value? i
    (c.acquire? t i).map (·.into t (.copied i v p))
  | some (.copied i v .snapshot) => some ((c.release i false).into t (.returned (.value v)))
  | some (.copied i v (.first j)) => some ((c.release i false).into t (.approaching j (.second v)))
  | some (.copied i v (.second w)) => some ((c.release i false).into t (.comparing w v))
  | some (.comparing v w) => some (c.into t (.returned (.flag (v == w))))
  | some (.halfway i j) => do
    let v ← c.value? i
    let w ← c.value? j
    let c ← c.acquire? t j
    some (((c.setValue i w).setValue j v).into t (.exchanged i j))
  | some (.exchanged i j) => some ((c.release j false).into t (.leaving i false .done))
  | some (.leaving i panicking a) => some ((c.release i panicking).into t (.returned a))
  | some (.returned _) => none

def held? (c : Cells α) (t : ThreadId) : Option CellId :=
  match c.calls.current? t with
  | some (.using i) => some i
  | _ => none

def end? (c : Cells α) (t : ThreadId) (e : Ending) : Option (Cells α) :=
  match c.calls.current? t with
  | some (.using i) =>
    some (c.into t (match e with
      | .finished => .leaving i false .done
      | .panicked message => .leaving i true (.panicked message)))
  | _ => none

def answer? (c : Cells α) (t : ThreadId) : Option (Answer α) :=
  match c.calls.current? t with
  | some (.returned a) => some a
  | _ => none

def collect (c : Cells α) (t : ThreadId) : Cells α := { c with calls := c.calls.finish t }

end Cells

end Interlock
