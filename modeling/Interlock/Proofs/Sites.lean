import Interlock.Proofs.Exhaustion.Objects

/-!
# Where a move is made

A call, a step of it, the end of its callback and the taking of its answer are made at the site of the call, and leave
the queues, the stacks and the calls on cells as they are elsewhere.
-/

namespace Interlock.World

variable {α : Type}

def Move.site? (w : World α) : Move α → Option Site
  | .start t c => if w.isFree t then some c.site else none
  | .step t _ => (w.sitesOf t).head?
  | .wake t => (w.sitesOf t).head?
  | .finish t _ => (w.sitesOf t).head?
  | .collect t => (w.sitesOf t).head?
  | .look t => (w.sitesOf t).head?
  | _ => none

/-- The queues and the stacks of the first world stand in the second as they were, and the calls on cells are the same,
except at this place. -/
structure Keeps (s : Option Site) (w w' : World α) : Prop where
  queueAt : ∀ i : Nat, s ≠ some (.queue i) → ∀ q, w.queueList[i]? = some q → w'.queueList[i]? = some q
  stackAt : ∀ i : Nat, s ≠ some (.stack i) → ∀ k, w.stackList[i]? = some k → w'.stackList[i]? = some k
  calls : s ≠ some .cells → w'.cells.calls = w.cells.calls

section
variable {w w' : World α} {s : Option Site} {t : ThreadId}

theorem Keeps.relocate (hk : Keeps s w w') (sites : Table ThreadId (List Site)) : Keeps s w { w' with sites } :=
  ⟨hk.queueAt, hk.stackAt, hk.calls⟩

/-- Queues and stacks stay, others may come, and no call is made on cells. -/
theorem keeps_of_append {qs : List (Queue α)} {ks : List (Stack α)} (hq : w'.queueList = w.queueList ++ qs)
    (hk : w'.stackList = w.stackList ++ ks) (hc : w'.cells.calls = w.cells.calls) : Keeps s w w' where
  queueAt i _ q h := by rw [hq, List.getElem?_append_left (List.getElem?_eq_some_iff.mp h).1, h]
  stackAt i _ k h := by rw [hk, List.getElem?_append_left (List.getElem?_eq_some_iff.mp h).1, h]
  calls _ := hc

theorem keeps_of_eq (hq : w'.queueList = w.queueList) (hk : w'.stackList = w.stackList)
    (hc : w'.cells.calls = w.cells.calls) : Keeps s w w' :=
  keeps_of_append (hq.trans (List.append_nil _).symm) (hk.trans (List.append_nil _).symm) hc

theorem isFree_of_start {c : Call α} (h : w.start? t c = some w') : w.isFree t = true := by
  obtain ⟨_, hfree, -⟩ := Option.bind_eq_some_iff.mp h
  simpa [guard] using hfree

theorem Alters.keeps {m : Move α} {s : Site} (ha : Alters m w s w') : Keeps (some s) w w' := by
  cases ha with
  | queue _ _ _ =>
    refine ⟨fun j hj q hq => ?_, fun _ _ _ h => h, fun _ => rfl⟩
    exact (List.getElem?_set_ne fun he => hj (congrArg (some <| Site.queue ·) he)).trans hq
  | stack _ _ _ =>
    refine ⟨fun _ _ _ h => h, fun j hj x hx => ?_, fun _ => rfl⟩
    exact (List.getElem?_set_ne fun he => hj (congrArg (some <| Site.stack ·) he)).trans hx
  | cache _ _ _ => exact keeps_of_eq rfl rfl rfl
  | cells c => exact ⟨fun _ _ _ h => h, fun _ _ _ h => h, fun h => absurd rfl h⟩
  | hierarchy _ _ => exact keeps_of_eq rfl rfl rfl

theorem keeps [BEq α] {m : Move α} (h : w.move? m = some w') : Keeps (m.site? w) w w' := by
  cases m with
  | start t c =>
    rw [Move.site?, if_pos (isFree_of_start h)]
    obtain ⟨w₁, ha, rfl⟩ := alters_start h
    exact ha.keeps.relocate _
  | step t env =>
    obtain ⟨s, hs, ha⟩ := alters_step h
    rw [Move.site?, hs]
    exact ha.keeps
  | wake t =>
    obtain ⟨s, hs, ha⟩ := alters_wake h
    rw [Move.site?, hs]
    exact ha.keeps
  | finish t e =>
    obtain ⟨s, hs, ha⟩ := alters_end h
    rw [Move.site?, hs]
    exact ha.keeps
  | collect t =>
    obtain ⟨a, ha, rfl⟩ := Option.map_eq_some_iff.mp h
    obtain ⟨s, outer, w₁, hs, ha, he⟩ := alters_collect ha
    rw [he, Move.site?, hs]
    exact ha.keeps.relocate _
  | addQueue items =>
    obtain rfl := Option.some.inj h
    exact keeps_of_append rfl (List.append_nil _).symm rfl
  | addStack items =>
    obtain rfl := Option.some.inj h
    exact keeps_of_append (List.append_nil _).symm rfl rfl
  | addCache | addCell | addLock | addRegistry | ceiling =>
    obtain rfl := Option.some.inj h
    exact keeps_of_eq rfl rfl rfl
  | look | perform | read | write | queuedWriters =>
    obtain ⟨x, -, rfl⟩ := Option.map_eq_some_iff.mp h
    exact keeps_of_eq rfl rfl rfl
  | change t v =>
    obtain ⟨g, -, rfl⟩ := Option.map_eq_some_iff.mp h
    cases g <;> exact keeps_of_eq rfl rfl rfl
  | leak t slot =>
    simp only [move?] at h
    split at h
    · obtain rfl := Option.some.inj h
      exact keeps_of_eq rfl rfl rfl
    · cases h

/-- Only when a call is made or its answer is taken a thread goes to another site. -/
theorem sites_eq [BEq α] {m : Move α} (h : w.move? m = some w') (hstart : ∀ t c, m ≠ .start t c)
    (hcollect : ∀ t, m ≠ .collect t) : w'.sites = w.sites := by
  cases m with
  | start t c => exact absurd rfl (hstart t c)
  | collect t => exact absurd rfl (hcollect t)
  | step t env =>
    obtain ⟨s, -, ha⟩ := alters_step h
    exact ha.sites
  | wake t =>
    obtain ⟨s, -, ha⟩ := alters_wake h
    exact ha.sites
  | finish t e =>
    obtain ⟨s, -, ha⟩ := alters_end h
    exact ha.sites
  | addQueue | addStack | addCache | addCell | addLock | addRegistry | ceiling =>
    obtain rfl := Option.some.inj h
    rfl
  | look | perform | read | write | queuedWriters =>
    obtain ⟨x, -, rfl⟩ := Option.map_eq_some_iff.mp h
    rfl
  | change t v =>
    obtain ⟨g, -, rfl⟩ := Option.map_eq_some_iff.mp h
    cases g <;> rfl
  | leak t slot =>
    simp only [move?] at h
    split at h
    · obtain rfl := Option.some.inj h
      rfl
    · cases h

/-- A thread stays in a call in which no callback runs until it takes the answer. -/
theorem sitesOf_own [BEq α] {m : Move α} (h : w.move? m = some w') (ht : m.thread? = some t) (hin : w.sitesOf t ≠ [])
    (hgrip : w.grip? t = none) (hopen : m ≠ .collect t) : w'.sitesOf t = w.sitesOf t := by
  have hstart (u : ThreadId) (c : Call α) : m ≠ .start u c := by
    rintro rfl
    obtain rfl : u = t := Option.some.inj ht
    have hfree := isFree_of_start h
    simp [isFree, hin, hgrip] at hfree
  have hcollect (u : ThreadId) : m ≠ .collect u := by
    rintro rfl
    exact hopen (congrArg Move.collect (Option.some.inj ht))
  rw [sitesOf, sites_eq h hstart hcollect, sitesOf]

end

end Interlock.World
