import Interlock.Word

/-!
# Storage

What a collection can ask of its storage. An `Allocator` answers every request for room; the machines
take it as an argument, so nothing about them depends on when storage runs out. `Allocator.array` and
`Allocator.table` are the limits of contiguous arrays and of hash tables on a 64-bit machine.
-/

namespace Interlock

inductive StorageFault where
  /-- The request is greater than any collection can be. -/
  | overflow
  /-- The request is a possible size, but the memory is not to be had. -/
  | refused
  deriving Repr, DecidableEq

def StorageFault.message : StorageFault → String
  | .overflow =>
    "memory allocation failed because the computed capacity exceeded the collection's maximum"
  | .refused => "memory allocation failed because the memory allocator returned an error"

/-- Answers a request for room for `additional` more elements in a collection of `len`. -/
abbrev Allocator := (len additional : Nat) → Except StorageFault Unit

namespace Storage

def maxBytes : Nat := Word.maxSigned.toNat

/-- Requests of this many elements, two to the power of fifty, and more find no memory. -/
def scarcity : Nat := 1125899906842624

structure Layout where
  bytes : (capacity : Nat) → Nat
  overflow : String

def array : Layout := ⟨fun capacity => 8 * capacity, "capacity overflow"⟩

/-- The buckets of a hash table for so many entries: a power of two of which one eighth stays free. -/
def buckets (capacity : Nat) : Nat :=
  if capacity < 4 then 4 else if capacity < 8 then 8 else (capacity * 8 / 7).nextPowerOfTwo

/-- A 32-byte entry and a control byte per bucket, and 16 control bytes more. -/
def table : Layout := ⟨fun capacity => 33 * buckets capacity + 16, "Hash table capacity overflow"⟩

def Layout.fits (l : Layout) (capacity : Nat) : Bool :=
  decide (capacity ≤ Word.max) && decide (l.bytes capacity ≤ maxBytes)

end Storage

def Allocator.limited (l : Storage.Layout) : Allocator := fun len additional =>
  if !l.fits (len + additional) then .error .overflow
  else if Storage.scarcity ≤ additional then .error .refused
  else .ok ()

def Allocator.array : Allocator := .limited Storage.array

def Allocator.table : Allocator := .limited Storage.table

end Interlock
