import Mathlib.Logic.Relation
import Interlock.Proofs.Cells.Moves

/-!
# No deadlock among cells

A thread that has a cell and wants another is in the middle of a swap and has the cell of the lower number. So
along a chain of waiting threads the numbers of the cells waited for rise, and since there are only so many
cells the chain ends at a thread that can move.
-/

namespace Interlock.Cells

variable {α : Type}

def WaitsAt (c : Cells α) (t : ThreadId) (i : CellId) : Prop :=
  ∃ p, c.calls.current? t = some p ∧ p.wants = some i

def BlockedBy (c : Cells α) (t u : ThreadId) : Prop := ∃ i, c.WaitsAt t i ∧ c.holder? i = some u

theorem WaitsAt.unique {c : Cells α} {t : ThreadId} {i k : CellId} (hi : c.WaitsAt t i) (hk : c.WaitsAt t k) :
    i = k := by
  obtain ⟨p, hp, hi⟩ := hi
  obtain ⟨q, hq, hk⟩ := hk
  rw [hp] at hq
  cases hq
  rw [hi] at hk
  exact Option.some.inj hk

def CanMove [BEq α] (c : Cells α) (t : ThreadId) : Prop := ∃ m : Move α, m.thread = t ∧ (c.move? m).isSome

theorem value_of_lt {c : Cells α} {i : CellId} (h : i < c.cells.length) : ∃ v, c.value? i = some v :=
  Option.isSome_iff_exists.mp ((value?_isSome c i).mpr h)

theorem acquire_free {c : Cells α} {t : ThreadId} {i : CellId} (hi : i < c.cells.length) (hfree : c.holder? i = none) : c.acquire? t i = some (c.hold t i) := by
  rw [acquire?_eq]
  exact if_pos ⟨(value?_isSome c i).mpr hi, hfree⟩

namespace Sound

variable {c : Cells α} {t u : ThreadId} {i k : CellId} (hs : c.Sound)
include hs

theorem lt_of_holds (hheld : c.holder? i = some t) (hk : c.WaitsAt t k) : i < k := by
  obtain ⟨p, hp, hk⟩ := hk
  exact Phase.lt_of_wants (hs.valid t p hp) ((hs.holds_iff hp).mp hheld) hk

theorem lt_of_blockedBy (hb : c.BlockedBy t u) (ht : c.WaitsAt t i) (hu : c.WaitsAt u k) : i < k := by
  obtain ⟨j, hj, hheld⟩ := hb
  rw [ht.unique hj]
  exact hs.lt_of_holds hheld hu

theorem lt_of_chain (hb : Relation.TransGen c.BlockedBy t u) (ht : c.WaitsAt t i) (hu : c.WaitsAt u k) : i < k := by
  induction hb generalizing k with
  | single hb => exact hs.lt_of_blockedBy hb ht hu
  | tail _ hb ih =>
    obtain ⟨j, hj, hheld⟩ := hb
    exact Nat.lt_trans (ih hj) (hs.lt_of_holds hheld hu)

theorem acyclic (t : ThreadId) : ¬ Relation.TransGen c.BlockedBy t t := by
  intro hb
  obtain ⟨u, ⟨i, hi, -⟩, -⟩ := Relation.TransGen.head'_iff.mp hb
  exact Nat.lt_irrefl _ (hs.lt_of_chain hb hi hi)

/-- A call goes on unless the cell that it wants is taken. -/
theorem canMove [BEq α] {p : Phase α} (hp : c.calls.current? t = some p)
    (hfree : ∀ i, p.wants = some i → c.holder? i = none) : c.CanMove t := by
  have hvalid := hs.valid t p hp
  have hacquire (i : CellId) (hi : p.wants = some i) : c.acquire? t i = some (c.hold t i) :=
    acquire_free (Phase.lt_of_wants_valid hvalid hi) (hfree i hi)
  have hstep (c' : Cells α) (h : c.step? t = some c') : c.CanMove t := ⟨.step t, rfl, by simp [move?, h]⟩
  cases p with
  | entering r =>
    cases r with
    | withLock i => exact hstep _ (by simp [step?, hp, enter?, hacquire i rfl]; rfl)
    | snapshot i => exact hstep _ (by simp [step?, hp, enter?]; rfl)
    | sameValue i j => by_cases h : i = j <;> exact hstep _ (by simp [step?, hp, enter?, h]; rfl)
    | swap i j =>
      by_cases h : i = j
      · exact hstep _ (by simp [step?, hp, enter?, h]; rfl)
      · have hwants : (Phase.entering (.swap i j) : Phase α).wants = some (min i j) := if_neg h
        exact hstep _ (by simp [step?, hp, enter?, h, hacquire _ hwants]; rfl)
  | approaching i q =>
    obtain ⟨v, hv⟩ := value_of_lt (Phase.lt_of_wants_valid hvalid (i := i) rfl)
    exact hstep _ (by simp [step?, hp, hv, hacquire i rfl]; rfl)
  | copied i v q => cases q <;> exact hstep _ (by simp [step?, hp]; rfl)
  | comparing v w => exact hstep _ (by simp [step?, hp]; rfl)
  | halfway i j =>
    obtain ⟨v, hv⟩ := value_of_lt (Nat.lt_trans hvalid.1 hvalid.2)
    obtain ⟨w, hw⟩ := value_of_lt hvalid.2
    exact hstep _ (by simp [step?, hp, hv, hw, hacquire j rfl]; rfl)
  | exchanged i j => exact hstep _ (by simp [step?, hp]; rfl)
  | leaving i panicking a => exact hstep _ (by simp [step?, hp]; rfl)
  | returned a => exact ⟨.collect t, rfl, by simp [move?, answer?, hp]⟩
  | _ => exact ⟨.finish t .finished, rfl, by simp [move?, end?, hp]⟩

/-- The chain of waiting threads from this one on ends at one that can move. -/
theorem someone_canMove [BEq α] {p : Phase α} (hp : c.calls.current? t = some p) :
    ∃ u, (∃ q, c.calls.current? u = some q) ∧ c.CanMove u := by
  have ends (i : CellId) (t : ThreadId) (hi : c.WaitsAt t i) :
      ∃ u, (∃ q, c.calls.current? u = some q) ∧ c.CanMove u := by
    -- the number of the cell waited for rises from one thread to the next
    induction hn : c.cells.length - i using Nat.strongRecOn generalizing i t with
    | ind n ih =>
      obtain ⟨p, hp, hi⟩ := hi
      cases hheld : c.holder? i with
      | none =>
        refine ⟨t, ⟨p, hp⟩, hs.canMove hp ?_⟩
        intro k hk
        rw [hi] at hk
        cases hk
        exact hheld
      | some u =>
        obtain ⟨q, hq, hmem⟩ := (hs.held i u).mp hheld
        cases hk : q.wants with
        | none =>
          refine ⟨u, ⟨q, hq⟩, hs.canMove hq ?_⟩
          intro k hk'
          rw [hk] at hk'
          cases hk'
        | some k =>
          have hik : i < k := Phase.lt_of_wants (hs.valid u q hq) hmem hk
          have hkn : k < c.cells.length := Phase.lt_of_wants_valid (hs.valid u q hq) hk
          exact ih (c.cells.length - k) (hn ▸ Nat.sub_lt_sub_left (Nat.lt_trans hik hkn) hik) k u ⟨q, hq, hk⟩ rfl
  cases hw : p.wants with
  | none =>
    refine ⟨t, ⟨p, hp⟩, hs.canMove hp ?_⟩
    intro k hk
    rw [hw] at hk
    cases hk
  | some i => exact ends i t ⟨p, hp, hw⟩

end Sound

end Interlock.Cells
