import Mathlib.Logic.Relation
import Interlock.Proofs.Hierarchy.HeldStack

/-!
# No circular wait

A thread that waits for a lock has passed the check of the order, and its ceiling has not moved since: it
waits below every lock that it holds. So along a chain of blocked threads the ranks waited for decrease,
and the chain ends at a thread that is not blocked.
-/

namespace Interlock.Hierarchy

variable {α : Type}

/-- The innermost call of the thread wants the mutex of the lock. -/
def WaitsAt (h : Hierarchy α) (t : ThreadId) (l : LockId) : Prop :=
  ∃ previous p, h.calls.current? t = some (.waiting l previous p)

def BlockedBy (h : Hierarchy α) (t u : ThreadId) : Prop := ∃ l, h.WaitsAt t l ∧ h.holder? l = some u

section
variable {h : Hierarchy α} (hr : h.Reachable)
include hr

/-- A thread waits below every lock that it holds. -/
theorem rank_waited_lt {t : ThreadId} {l k : LockId} (hw : h.WaitsAt t l) (hk : h.holder? k = some t) :
    h.rank l < h.rank k := by
  obtain ⟨r, recorded, rfl⟩ := hr.recorded
  have hs := recorded.sound
  obtain ⟨previous, p, hw⟩ := hw
  obtain ⟨⟨rfl, hl⟩, -⟩ := hs.poised t _ _ (phases_eq_cons hw)
  obtain ⟨g, hg, rfl⟩ := List.mem_map.mp ((hs.holds t k).mp hk)
  exact Nat.lt_of_lt_of_le hl ((hs.linked t).rank_mem g hg).1

theorem rank_lt_of_blockedBy {t u : ThreadId} {l k : LockId} (hb : h.BlockedBy t u) (ht : h.WaitsAt t l)
    (hu : h.WaitsAt u k) : h.rank k < h.rank l := by
  obtain ⟨l', ⟨_, _, ht'⟩, hl⟩ := hb
  obtain ⟨_, _, ht⟩ := ht
  rw [ht'] at ht
  cases ht
  exact rank_waited_lt hr hu hl

theorem rank_lt_of_chain {t u : ThreadId} {l k : LockId} (hb : Relation.TransGen h.BlockedBy t u)
    (ht : h.WaitsAt t l) (hu : h.WaitsAt u k) : h.rank k < h.rank l := by
  induction hb generalizing k with
  | single hb => exact rank_lt_of_blockedBy hr hb ht hu
  | tail _ hb ih =>
    obtain ⟨j, hj, hheld⟩ := hb
    exact Nat.lt_trans (rank_lt_of_blockedBy hr ⟨j, hj, hheld⟩ hj hu) (ih hj)

theorem chain_ends {t u : ThreadId} (hb : h.BlockedBy t u) :
    ∃ v, Relation.TransGen h.BlockedBy t v ∧ (∃ l, h.holder? l = some v) ∧ ∀ w, ¬ h.BlockedBy v w := by
  obtain ⟨l, ht, hl⟩ := hb
  -- the rank waited for goes down from one thread to the next
  induction hn : h.rank l using Nat.strongRecOn generalizing t u l with
  | ind n ih =>
    by_cases hu : ∃ w, h.BlockedBy u w
    · obtain ⟨w, k, hk, hw⟩ := hu
      have hlt := rank_waited_lt hr hk hl
      obtain ⟨v, hv, hends⟩ := ih _ (hn ▸ hlt) k hk hw rfl
      exact ⟨v, .head ⟨l, ht, hl⟩ hv, hends⟩
    · exact ⟨u, .single ⟨l, ht, hl⟩, ⟨l, hl⟩, fun w hw => hu ⟨w, hw⟩⟩

/-- **No circular wait.** No thread is blocked by itself, directly or through others; the ranks waited for
decrease along every chain of blocked threads; and if a thread is blocked, some thread that holds a lock
is not. -/
theorem no_circular_wait :
    (∀ t, ¬ h.BlockedBy t t) ∧ (∀ t, ¬ Relation.TransGen h.BlockedBy t t) ∧
    (∀ t u l k, Relation.TransGen h.BlockedBy t u → h.WaitsAt t l → h.WaitsAt u k → h.rank k < h.rank l) ∧
    ∀ t u, h.BlockedBy t u → ∃ v, (∃ l, h.holder? l = some v) ∧ ∀ w, ¬ h.BlockedBy v w := by
  have acyclic (t : ThreadId) : ¬ Relation.TransGen h.BlockedBy t t := by
    intro hb
    obtain ⟨u, ⟨l, hl, -⟩, -⟩ := Relation.TransGen.head'_iff.mp hb
    exact Nat.lt_irrefl _ (rank_lt_of_chain hr hb hl hl)
  refine ⟨fun t hb => acyclic t (.single hb), acyclic, fun t u l k => rank_lt_of_chain hr, ?_⟩
  intro t u hb
  obtain ⟨v, -, hv⟩ := chain_ends hr hb
  exact ⟨v, hv⟩

end

/-- The first thread waits for the second, and the second, with a lock of higher rank in hand, for the
third. -/
def chainOfThree : List (Move Nat) :=
  [.addLock 10 0, .addLock 5 0] ++ Move.taking 2 0 "outer" ++ Move.taking 3 1 "inner" ++
    [.start 2 (.lock 1 (.guard "inner")), .step 2 default, .start 1 (.lock 0 (.guard "outer")), .step 1 default]

theorem chainOfThree_waits : ∃ h : Hierarchy Nat, h.Reachable ∧ h.holder? 0 = some 2 ∧ h.holder? 1 = some 3 ∧
    h.calls.current? 1 = some (.waiting 0 Rank.unbounded (.hold (.guard "outer"))) ∧
    h.calls.current? 2 = some (.waiting 1 10 (.hold (.guard "inner"))) ∧ h.calls.current? 3 = none := by
  have hrun : (run? Record.next? {} chainOfThree).map (fun r => (r.state.holder? 0, r.state.holder? 1,
      r.state.calls.current? 1, r.state.calls.current? 2, r.state.calls.current? 3)) =
      some (some 2, some 3, some (.waiting 0 Rank.unbounded (.hold (.guard "outer"))),
        some (.waiting 1 10 (.hold (.guard "inner"))), none) := by rfl
  obtain ⟨r, hr, hq⟩ := Option.map_eq_some_iff.mp hrun
  simp only [Prod.mk.injEq] at hq
  exact ⟨r.state, Record.Reachable.state (Leads.refl.run _ hr), hq⟩

theorem no_circular_wait_chain_of_three : ∃ h : Hierarchy Nat, h.Reachable ∧ h.BlockedBy 1 2 ∧ h.BlockedBy 2 3 ∧
    ¬ h.BlockedBy 3 1 ∧ h.rank 1 < h.rank 0 ∧ ∃ v, (∃ l, h.holder? l = some v) ∧ ∀ w, ¬ h.BlockedBy v w := by
  obtain ⟨h, hr, h₂, h₃, hone, htwo, hthree⟩ := chainOfThree_waits
  have hb : h.BlockedBy 1 2 := ⟨0, ⟨_, _, hone⟩, h₂⟩
  have hb' : h.BlockedBy 2 3 := ⟨1, ⟨_, _, htwo⟩, h₃⟩
  obtain ⟨-, -, hlt, hends⟩ := no_circular_wait hr
  refine ⟨h, hr, hb, hb', ?_, hlt 1 2 0 1 (.single hb) ⟨_, _, hone⟩ ⟨_, _, htwo⟩, hends 1 2 hb⟩
  rintro ⟨l, ⟨_, _, hw⟩, -⟩
  rw [hthree] at hw
  cases hw

end Interlock.Hierarchy
