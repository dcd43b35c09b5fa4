import Mathlib.Data.List.Basic
import Interlock.Cells

/-!
# The values and the holders of cells

What taking a cell, letting it go and setting its value do to what the cells hold and to who has them.
-/

namespace Interlock.Cells

variable {α : Type}

def holder? (c : Cells α) (i : CellId) : Option ThreadId := (c.cells[i]?).bind (·.mutex.holder)

theorem value?_release (c : Cells α) (i j : CellId) (b : Bool) : (c.release i b).value? j = c.value? j := by
  simp only [value?, release, List.getElem?_modify]
  cases c.cells[j]? with
  | none => rfl
  | some k => by_cases hi : i = j <;> simp [hi]

theorem holder?_release (c : Cells α) (i j : CellId) (b : Bool) :
    (c.release i b).holder? j = if i = j then none else c.holder? j := by
  simp only [holder?, release, List.getElem?_modify]
  cases c.cells[j]? with
  | none => simp
  | some k => by_cases hi : i = j <;> simp [hi, Mutex.release]

theorem value?_setValue (c : Cells α) (i j : CellId) (v : α) :
    (c.setValue i v).value? j = if i = j then (c.value? j).map fun _ => v else c.value? j := by
  simp only [value?, setValue, List.getElem?_modify]
  cases c.cells[j]? with
  | none => simp
  | some k => by_cases hi : i = j <;> simp [hi]

theorem holder?_setValue (c : Cells α) (i j : CellId) (v : α) : (c.setValue i v).holder? j = c.holder? j := by
  simp only [holder?, setValue, List.getElem?_modify]
  cases c.cells[j]? with
  | none => rfl
  | some k => by_cases hi : i = j <;> simp [hi]

/-- The cell taken, whoever has it. -/
def hold (c : Cells α) (t : ThreadId) (i : CellId) : Cells α :=
  { c with cells := c.cells.modify i fun cell => { cell with mutex := { cell.mutex with holder := some t } } }

theorem value?_hold (c : Cells α) (t : ThreadId) (i j : CellId) : (c.hold t i).value? j = c.value? j := by
  simp only [value?, hold, List.getElem?_modify]
  cases c.cells[j]? with
  | none => rfl
  | some k => by_cases hi : i = j <;> simp [hi]

theorem holder?_hold (c : Cells α) (t : ThreadId) (i j : CellId) :
    (c.hold t i).holder? j = if i = j then (c.value? j).map fun _ => t else c.holder? j := by
  simp only [holder?, value?, hold, List.getElem?_modify]
  cases c.cells[j]? with
  | none => simp
  | some k => by_cases hi : i = j <;> simp [hi]

theorem holder?_hold_of_value {c : Cells α} {i : CellId} (hi : (c.value? i).isSome) (t : ThreadId) (j : CellId) :
    (c.hold t i).holder? j = if i = j then some t else c.holder? j := by
  obtain ⟨v, hv⟩ := Option.isSome_iff_exists.mp hi
  rw [holder?_hold]
  split
  · rename_i hij
    rw [← hij, hv, Option.map_some]
  · rfl

/-- Two values are exchanged by a thread that takes the second cell for it. -/
theorem holder?_exchange {c : Cells α} {j : CellId} {w : α} (hw : c.value? j = some w) (t : ThreadId) (i : CellId) (v : α)
    (k : CellId) : (((c.hold t j).setValue i w).setValue j v).holder? k = if j = k then some t else c.holder? k := by
  rw [holder?_setValue, holder?_setValue, holder?_hold_of_value (by rw [hw]; rfl)]

theorem acquire?_eq (c : Cells α) (t : ThreadId) (i : CellId) : c.acquire? t i =
    if (c.value? i).isSome ∧ c.holder? i = none then some (c.hold t i) else none := by
  unfold acquire? value? holder? hold Mutex.acquire?
  cases hi : c.cells[i]? with
  | none => rfl
  | some cell =>
    obtain ⟨hlt, rfl⟩ := List.getElem?_eq_some_iff.mp hi
    cases hh : c.cells[i].mutex.holder with
    | none => simp [hh, List.modify_eq_set_getElem?, hi]
    | some v => simp [hh]

theorem value?_isSome (c : Cells α) (i : CellId) : (c.value? i).isSome ↔ i < c.cells.length := by
  simp [value?]

theorem value?_add (c : Cells α) (v : α) (i : CellId) :
    (c.add v).1.value? i = if i = c.cells.length then some v else c.value? i := by
  simp only [value?, add, List.getElem?_append, List.getElem?_singleton]
  by_cases hlt : i < c.cells.length
  · rw [if_pos hlt, if_neg (Nat.ne_of_lt hlt)]
  · rw [if_neg hlt, List.getElem?_eq_none (Nat.le_of_not_lt hlt)]
    by_cases hi : i = c.cells.length
    · simp [hi]
    · have hne : ¬ i - c.cells.length = 0 := fun he =>
        hi (Nat.le_antisymm (Nat.sub_eq_zero_iff_le.mp he) (Nat.le_of_not_lt hlt))
      simp [hi, hne]

theorem holder?_add (c : Cells α) (v : α) (i : CellId) : (c.add v).1.holder? i = c.holder? i := by
  simp only [holder?, add, List.getElem?_append, List.getElem?_singleton]
  by_cases hlt : i < c.cells.length
  · rw [if_pos hlt]
  · rw [if_neg hlt, List.getElem?_eq_none (Nat.le_of_not_lt hlt)]
    split <;> rfl

end Interlock.Cells
