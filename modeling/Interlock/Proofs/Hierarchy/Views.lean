import Interlock.Proofs.Hierarchy.Moves

/-!
# What each change does to ranks, mutexes, ceilings and guards

All that the order of locks depends on is read off a state by `rank`, `holder?`, `ceiling`, `phases` and
`owned`. A change that takes and releases no mutex is `Quiet`: it keeps the first three, touches one thread
only, and moves guards in and out of its hands. Every function of the calls is made of such changes, with
at most one mutex taken or released before them.
-/

namespace Interlock.Hierarchy

variable {α : Type}

/-! ## Standings -/

@[simp] theorem standing_setStanding (h : Hierarchy α) (t u : ThreadId) (s : Standing) :
    (h.setStanding t s).standing u = if t = u then s else h.standing u := by
  simp only [standing, setStanding, Table.get?_insert]
  split <;> rfl

@[simp] theorem ceiling_setCeiling (h : Hierarchy α) (t u : ThreadId) (r : Rank) :
    (h.setCeiling t r).ceiling u = if t = u then r else h.ceiling u := by
  simp only [ceiling, setCeiling, standing_setStanding]
  split <;> rfl

@[simp] theorem slots_setCeiling (h : Hierarchy α) (t u : ThreadId) (r : Rank) :
    ((h.setCeiling t r).standing u).slots = (h.standing u).slots := by
  by_cases ht : t = u
  · subst ht; simp [setCeiling]
  · simp [setCeiling, ht]

@[simp] theorem ceiling_setSlot (h : Hierarchy α) (t u : ThreadId) (slot : String) (x : Holding) :
    (h.setSlot t slot x).ceiling u = h.ceiling u := by
  by_cases ht : t = u
  · subst ht; simp [ceiling, setSlot]
  · simp [ceiling, setSlot, ht]

@[simp] theorem ceiling_clearSlot (h : Hierarchy α) (t u : ThreadId) (slot : String) :
    (h.clearSlot t slot).ceiling u = h.ceiling u := by
  by_cases ht : t = u
  · subst ht; simp [ceiling, clearSlot]
  · simp [ceiling, clearSlot, ht]

theorem Standing.guards_insert (s : Standing) (slot : String) (x : Holding) :
    ({ s with slots := s.slots.insert slot x } : Standing).guards +
      (s.slots.get? slot).elim 0 Holding.guards = s.guards + x.guards :=
  Entries.total_put ..

theorem Standing.guards_erase (s : Standing) (slot : String) :
    ({ s with slots := s.slots.erase slot } : Standing).guards +
      (s.slots.get? slot).elim 0 Holding.guards = s.guards :=
  Entries.total_drop _ s.slots.nodup_keys

/-! ## Locks -/

theorem lt_of_holder? {h : Hierarchy α} {l : LockId} {t : ThreadId} (hl : h.holder? l = some t) :
    l < h.locks.length := by
  rcases Nat.lt_or_ge l h.locks.length with hlt | hge; exact hlt
  simp [holder?, List.getElem?_eq_none hge] at hl

theorem lt_of_rank {h : Hierarchy α} {l : LockId} (hl : h.rank l < Rank.unbounded) : l < h.locks.length := by
  by_contra hge
  simp [rank, List.getElem?_eq_none (Nat.le_of_not_lt hge)] at hl

theorem holder?_congr {h h' : Hierarchy α} (hlocks : h'.locks = h.locks) (l : LockId) :
    h'.holder? l = h.holder? l := by
  rw [holder?, hlocks, holder?]

@[simp] theorem rank_setContent (h : Hierarchy α) (l k : LockId) (c : Content α) :
    (h.setContent l c).rank k = h.rank k := by
  simp only [rank, setContent, List.getElem?_modify]
  cases h.locks[k]? with
  | none => rfl
  | some x => by_cases hl : l = k <;> simp [hl]

@[simp] theorem holder?_setContent (h : Hierarchy α) (l k : LockId) (c : Content α) :
    (h.setContent l c).holder? k = h.holder? k := by
  simp only [holder?, setContent, List.getElem?_modify]
  cases h.locks[k]? with
  | none => rfl
  | some x => by_cases hl : l = k <;> simp [hl]

theorem rank_addLock {h : Hierarchy α} {k : LockId} (hk : h.rank k < Rank.unbounded) (r : Rank)
    (c : Content α) : (h.addLock r c).1.rank k = h.rank k := by
  simp [rank, addLock, List.getElem?_append_left (lt_of_rank hk)]

@[simp] theorem holder?_addLock (h : Hierarchy α) (k : LockId) (r : Rank) (c : Content α) :
    (h.addLock r c).1.holder? k = h.holder? k := by
  simp only [holder?, addLock, List.getElem?_append]
  split
  · rfl
  · rename_i hk
    rw [List.getElem?_eq_none (Nat.le_of_not_lt hk)]
    cases hx : k - h.locks.length <;> simp

/-! ## Taking and releasing -/

theorem rank_release (h : Hierarchy α) (t : ThreadId) (g : Guard) (b : Bool) (k : LockId) :
    (h.release t g b).rank k = h.rank k := by
  simp only [rank, release, setCeiling, setStanding, List.getElem?_modify]
  cases h.locks[k]? with
  | none => rfl
  | some x => by_cases hl : g.lock = k <;> simp [hl]

theorem holder?_release (h : Hierarchy α) (t : ThreadId) (g : Guard) (b : Bool) (k : LockId) :
    (h.release t g b).holder? k = if g.lock = k then none else h.holder? k := by
  simp only [holder?, release, setCeiling, setStanding, List.getElem?_modify]
  cases h.locks[k]? with
  | none => simp
  | some x => by_cases hl : g.lock = k <;> simp [hl, Mutex.release]

theorem ceiling_release (h : Hierarchy α) (t u : ThreadId) (g : Guard) (b : Bool) :
    (h.release t g b).ceiling u = if t = u then g.previous else h.ceiling u := by
  rw [release, ceiling_setCeiling]
  rfl

theorem slots_release (h : Hierarchy α) (t u : ThreadId) (g : Guard) (b : Bool) :
    ((h.release t g b).standing u).slots = (h.standing u).slots := by
  rw [release, slots_setCeiling]
  rfl

/-- An admission takes a lock that nobody has, and its rank is the ceiling then. -/
theorem admit?_eq_some {h h' : Hierarchy α} {t : ThreadId} {l : LockId} {previous : Rank} {g : Guard}
    (ha : h.admit? t l previous = some (h', g)) :
    ∃ k, h.locks[l]? = some k ∧ k.mutex.holder = none ∧ g = ⟨l, previous⟩ ∧
      h' = { h with locks := h.locks.set l { k with mutex.holder := some t } }.setCeiling t k.rank := by
  obtain ⟨k, hk, ha⟩ := Option.bind_eq_some_iff.mp ha
  obtain ⟨m, hm, ha⟩ := Option.bind_eq_some_iff.mp ha
  obtain ⟨hfree, rfl⟩ := Mutex.acquire?_eq_some hm
  cases ha
  exact ⟨k, hk, hfree, rfl, rfl⟩

theorem admit?_eq {h h' : Hierarchy α} {t : ThreadId} {l : LockId} {previous : Rank} {g : Guard}
    (ha : h.admit? t l previous = some (h', g)) :
    g = ⟨l, previous⟩ ∧ h.holder? l = none ∧
      (∀ k, h'.rank k = h.rank k) ∧
      (∀ k, h'.holder? k = if l = k then some t else h.holder? k) ∧
      (∀ u, h'.ceiling u = if t = u then h.rank l else h.ceiling u) ∧
      (∀ u, (h'.standing u).slots = (h.standing u).slots) ∧ h'.calls = h.calls := by
  obtain ⟨k, hk, hfree, rfl, rfl⟩ := admit?_eq_some ha
  obtain ⟨hlt, rfl⟩ := List.getElem?_eq_some_iff.mp hk
  refine ⟨rfl, by simp [holder?, hk, hfree], fun j => ?_, fun j => ?_, fun u => ?_, fun u => ?_, rfl⟩
  · by_cases hj : l = j
    · subst hj; simp [rank, setCeiling, setStanding, hlt]
    · simp [rank, setCeiling, setStanding, List.getElem?_set_ne hj]
  · by_cases hj : l = j
    · subst hj; simp [holder?, setCeiling, setStanding, hlt]
    · simp [holder?, setCeiling, setStanding, List.getElem?_set_ne hj, hj]
  · rw [ceiling_setCeiling]
    simp only [rank, hk, Option.map_some, Option.getD_some]
    rfl
  · rw [slots_setCeiling]
    rfl

theorem admit?_of_held {h : Hierarchy α} {l : LockId} {t : ThreadId} (hl : h.holder? l = some t) (u : ThreadId)
    (previous : Rank) : h.admit? u l previous = none := by
  cases ha : h.admit? u l previous with
  | none => rfl
  | some y =>
    rw [(admit?_eq ha).2.1] at hl
    cases hl

theorem admit?_of_free {h : Hierarchy α} {l : LockId} (t : ThreadId) (previous : Rank) (hlt : l < h.locks.length)
    (hnone : h.holder? l = none) : ∃ h₁, h.admit? t l previous = some (h₁, ⟨l, previous⟩) := by
  rw [holder?, List.getElem?_eq_getElem hlt, Option.bind_some] at hnone
  simp only [admit?, List.getElem?_eq_getElem hlt, Mutex.acquire?, hnone, Option.bind_eq_bind, Option.bind_some]
  exact ⟨_, rfl⟩

/-! ## Quiet changes -/

theorem owned_congr {h h' : Hierarchy α} {u : ThreadId}
    (hs : (h'.standing u).slots = (h.standing u).slots) (hp : h'.phases u = h.phases u) :
    h'.owned u = h.owned u := by
  simp only [owned, Standing.guards, hs, hp]

theorem owned_release (h : Hierarchy α) (t u : ThreadId) (g : Guard) (b : Bool) :
    (h.release t g b).owned u = h.owned u := owned_congr (slots_release ..) rfl

/-- An admission leaves the guards where they are; the new one is still to be delivered. -/
theorem admit?_keeps {h h' : Hierarchy α} {t : ThreadId} {l : LockId} {previous : Rank} {g : Guard}
    (ha : h.admit? t l previous = some (h', g)) (u : ThreadId) :
    h'.owned u = h.owned u ∧ h'.phases u = h.phases u := by
  obtain ⟨-, -, -, -, -, hslots, hcalls⟩ := admit?_eq ha
  have hp : h'.phases u = h.phases u := by rw [phases, hcalls, phases]
  exact ⟨owned_congr (hslots u) hp, hp⟩

/-- A call that waits for a lock takes it in its next step and goes on. -/
theorem step?_waiting {h h' : Hierarchy α} {t : ThreadId} {env : Environment} {l : LockId} {previous : Rank}
    {q : Purpose α} {rest : List (Phase α)} (hp : h.phases t = .waiting l previous q :: rest)
    (hs : h.step? env t = some h') : ∃ h₁, h.admit? t l previous = some (h₁, ⟨l, previous⟩) ∧
      h₁.phases t = .waiting l previous q :: rest ∧ h' = h₁.proceed env t ⟨l, previous⟩ q := by
  simp only [step?, Calls.current?_eq_of_cons hp] at hs
  obtain ⟨⟨h₁, g⟩, ha, rfl⟩ := Option.map_eq_some_iff.mp hs
  obtain ⟨rfl, -⟩ := admit?_eq ha
  exact ⟨h₁, ha, (admit?_keeps ha t).2.trans hp, rfl⟩

/-- Nothing is taken or released, and of the thread's guards `gain` come in and `loss` go out. -/
structure Quiet (t : ThreadId) (gain loss : Multiset Guard) (h h' : Hierarchy α) : Prop where
  rank : ∀ l, h.rank l < Rank.unbounded → h'.rank l = h.rank l
  holder : ∀ l, h'.holder? l = h.holder? l
  ceiling : ∀ u, h'.ceiling u = h.ceiling u
  owned : h'.owned t + loss = h.owned t + gain
  others : ∀ u, t ≠ u → h'.owned u = h.owned u ∧ h'.phases u = h.phases u

namespace Quiet

variable {t : ThreadId} {gain loss gain' loss' : Multiset Guard} {h h₁ h' : Hierarchy α}

theorem refl (t : ThreadId) (h : Hierarchy α) : Quiet t 0 0 h h :=
  ⟨fun _ _ => rfl, fun _ => rfl, fun _ => rfl, rfl, fun _ _ => ⟨rfl, rfl⟩⟩

theorem trans (a : Quiet t gain loss h h₁) (b : Quiet t gain' loss' h₁ h') :
    Quiet t (gain + gain') (loss + loss') h h' where
  rank l hl := by
    rw [b.rank l (by rwa [a.rank l hl]), a.rank l hl]
  holder l := by rw [b.holder, a.holder]
  ceiling u := by rw [b.ceiling, a.ceiling]
  owned := by
    calc h'.owned t + (loss + loss') = (h'.owned t + loss') + loss := by ac_rfl
      _ = (h₁.owned t + loss) + gain' := by rw [b.owned]; ac_rfl
      _ = h.owned t + (gain + gain') := by rw [a.owned]; ac_rfl
  others u hu := by
    obtain ⟨ao, ap⟩ := a.others u hu
    obtain ⟨bo, bp⟩ := b.others u hu
    exact ⟨bo.trans ao, bp.trans ap⟩

theorem cancel {m : Multiset Guard} (a : Quiet t (gain + m) (loss + m) h h') :
    Quiet t gain loss h h' where
  rank := a.rank
  holder := a.holder
  ceiling := a.ceiling
  owned := by
    have := a.owned
    rw [← add_assoc, ← add_assoc] at this
    exact add_right_cancel this
  others := a.others

/-- The guard that was released is gone. -/
theorem owned_released {g : Guard} {b : Bool} (a : Quiet t 0 {g} (h.release t g b) h') :
    h'.owned t + {g} = h.owned t := by
  rw [a.owned, add_zero, owned_release]

end Quiet

theorem phases_into {h : Hierarchy α} {t : ThreadId} {p₀ : Phase α} {rest : List (Phase α)}
    (hp : h.phases t = p₀ :: rest) (p : Phase α) : (h.into t p).phases t = p :: rest := by
  simp only [phases, into, Calls.of_move, if_pos] at hp ⊢
  rw [hp, List.tail_cons]

theorem quiet_into {h : Hierarchy α} {t : ThreadId} {p₀ : Phase α} {rest : List (Phase α)}
    (hp : h.phases t = p₀ :: rest) (p : Phase α) : Quiet t p.guards p₀.guards h (h.into t p) where
  rank _ _ := rfl
  holder _ := rfl
  ceiling _ := rfl
  owned := by
    simp only [owned, phases_into hp, hp, List.map_cons, List.sum_cons]
    show (h.standing t).guards + _ + _ = _
    ac_rfl
  others u hu := by
    have : (h.into t p).phases u = h.phases u := by simp [phases, into, hu]
    exact ⟨owned_congr rfl this, this⟩

theorem quiet_setSlot (h : Hierarchy α) (t : ThreadId) (slot : String) (x : Holding) :
    Quiet t x.guards ((h.slot? t slot).elim 0 Holding.guards) h (h.setSlot t slot x) where
  rank _ _ := rfl
  holder _ := rfl
  ceiling u := ceiling_setSlot ..
  owned := by
    have := Standing.guards_insert (h.standing t) slot x
    simp only [owned, setSlot, standing_setStanding, if_pos]
    show _ + ((h.phases t).map Phase.guards).sum + _ = _
    rw [add_right_comm, slot?, this]
    ac_rfl
  others u hu := ⟨owned_congr (by simp [setSlot, hu]) rfl, rfl⟩

theorem quiet_clearSlot (h : Hierarchy α) (t : ThreadId) (slot : String) :
    Quiet t 0 ((h.slot? t slot).elim 0 Holding.guards) h (h.clearSlot t slot) where
  rank _ _ := rfl
  holder _ := rfl
  ceiling u := ceiling_clearSlot ..
  owned := by
    have := Standing.guards_erase (h.standing t) slot
    simp only [owned, clearSlot, standing_setStanding, if_pos]
    show _ + ((h.phases t).map Phase.guards).sum + _ = _
    rw [add_right_comm, slot?, this, add_zero]
  others u hu := ⟨owned_congr (by simp [clearSlot, hu]) rfl, rfl⟩

theorem quiet_setContent (t : ThreadId) (h : Hierarchy α) (l : LockId) (c : Content α) :
    Quiet t 0 0 h (h.setContent l c) :=
  ⟨fun _ _ => rank_setContent .., fun _ => holder?_setContent .., fun _ => rfl, rfl, fun _ _ => ⟨rfl, rfl⟩⟩

theorem quiet_addLock (t : ThreadId) (h : Hierarchy α) (r : Rank) (c : Content α) :
    Quiet t 0 0 h (h.addLock r c).1 :=
  ⟨fun _ hl => rank_addLock hl .., fun _ => holder?_addLock .., fun _ => rfl, rfl, fun _ _ => ⟨rfl, rfl⟩⟩

theorem quiet_addRegistry (t : ThreadId) (h : Hierarchy α) (d e : Rank) :
    Quiet t 0 0 h (h.addRegistry d e).1 :=
  have q := quiet_addLock t h d (.directory {})
  ⟨q.rank, q.holder, q.ceiling, q.owned, q.others⟩

theorem phases_start (h : Hierarchy α) (t : ThreadId) (p : Phase α) :
    ({ h with calls := h.calls.start t p } : Hierarchy α).phases t = p :: h.phases t := by
  simp [phases]

theorem quiet_start (h : Hierarchy α) (t : ThreadId) (p : Phase α) :
    Quiet t p.guards 0 h { h with calls := h.calls.start t p } where
  rank _ _ := rfl
  holder _ := rfl
  ceiling _ := rfl
  owned := by
    simp only [owned, phases_start, List.map_cons, List.sum_cons, add_zero]
    show (h.standing t).guards + _ = _
    ac_rfl
  others u hu := by
    have : ({ h with calls := h.calls.start t p } : Hierarchy α).phases u = h.phases u := by
      simp [phases, hu]
    exact ⟨owned_congr rfl this, this⟩

theorem phases_collect (h : Hierarchy α) (t : ThreadId) : (h.collect t).phases t = (h.phases t).tail := by
  simp [phases, collect]

theorem quiet_collect {h : Hierarchy α} {t : ThreadId} {p : Phase α} {rest : List (Phase α)}
    (hp : h.phases t = p :: rest) : Quiet t 0 p.guards h (h.collect t) where
  rank _ _ := rfl
  holder _ := rfl
  ceiling _ := rfl
  owned := by
    simp only [owned, phases_collect, hp, List.tail_cons, List.map_cons, List.sum_cons, add_zero]
    show (h.standing t).guards + _ + _ = _
    ac_rfl
  others u hu := by
    have : (h.collect t).phases u = h.phases u := by simp [phases, collect, hu]
    exact ⟨owned_congr rfl this, this⟩

end Interlock.Hierarchy
