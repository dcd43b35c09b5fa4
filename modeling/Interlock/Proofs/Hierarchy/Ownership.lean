import Interlock.Proofs.Hierarchy.HeldStack
import Interlock.Proofs.Hierarchy.Ledger

/-!
# Who owns an acquisition

An acquisition that is not released is in one place: in a slot of the thread, as a guard, as a guard that came
back from a refused release, or in a handle; in hand in a call of the thread; or with nobody. `ownership_conserved`:
a mutex is held exactly if there is one such place for it over all threads, rearranging guards touches no lock,
and what a lock protects follows from the changes that its successive tenants made.
-/

namespace Interlock.Hierarchy

variable {α : Type}

/-! ## Places -/

inductive Place where
  | guard (slot : String)
  /-- In the slot of a refused release. -/
  | refused (slot : String)
  | handle (slot : String)
  /-- In hand in a call on a registry, or in a drop that has not come to it; so many calls are below that one. -/
  | call (depth : Nat)
  /-- With nobody, and in force for good. -/
  | nobody (c : Cause)
  deriving Repr, DecidableEq

def Holding.place (slot : String) : Holding → Place
  | .guard _ => .guard slot
  | .refused _ _ => .refused slot
  | .handle _ => .handle slot

def placesInSlots (slots : List (String × Holding)) : Multiset (Place × Guard) :=
  (slots.map fun e => e.2.guards.map (e.2.place e.1, ·)).sum

def placesInCalls : List (Phase α) → Multiset (Place × Guard)
  | [] => 0
  | p :: rest => p.guards.map (.call rest.length, ·) + placesInCalls rest

/-- The guards that exist on the thread, each with its place. -/
def kept (h : Hierarchy α) (t : ThreadId) : Multiset (Place × Guard) :=
  placesInSlots (h.standing t).slots.entries + placesInCalls (h.phases t)

def Ledger.places (g : Ledger α) (t : ThreadId) : Multiset (Place × Guard) :=
  g.state.kept t + (g.abandoned t).map fun e => (.nobody e.1, e.2)

/-- The places of the acquisitions of the lock by the thread. -/
def Ledger.owners (g : Ledger α) (t : ThreadId) (l : LockId) : Multiset Place :=
  ((g.places t).filter fun e => e.2.lock = l).map Prod.fst

section Places
variable {h : Hierarchy α} {g : Ledger α} {t : ThreadId} {l : LockId}

theorem placesInSlots_snd (slots : List (String × Holding)) :
    (placesInSlots slots).map Prod.snd = Entries.total Holding.guards slots := by
  induction slots with
  | nil => rfl
  | cons e slots ih =>
    unfold placesInSlots at ih ⊢
    simp [ih]

theorem placesInCalls_snd (ps : List (Phase α)) :
    (placesInCalls ps).map Prod.snd = (ps.map Phase.guards).sum := by
  induction ps with
  | nil => rfl
  | cons p ps ih => simp [placesInCalls, ih]

theorem kept_snd (h : Hierarchy α) (t : ThreadId) : (h.kept t).map Prod.snd = h.owned t := by
  rw [kept, Multiset.map_add, placesInSlots_snd, placesInCalls_snd, owned, Standing.guards]

theorem places_snd (g : Ledger α) (t : ThreadId) : (g.places t).map Prod.snd = g.outstanding t := by
  rw [Ledger.places, Multiset.map_add, kept_snd, Ledger.outstanding, Multiset.map_map]
  rfl

theorem place_of_mem_slots {slots : List (String × Holding)} {e : Place × Guard} (he : e ∈ placesInSlots slots) :
    ∀ c, e.1 ≠ .nobody c := by
  intro c
  obtain ⟨⟨slot, x⟩, -, hx⟩ := mem_sum_map.mp he
  obtain ⟨a, -, rfl⟩ := Multiset.mem_map.mp hx
  cases x <;> simp [Holding.place]

theorem place_of_mem_calls {ps : List (Phase α)} {e : Place × Guard} (he : e ∈ placesInCalls ps) :
    ∀ c, e.1 ≠ .nobody c := by
  induction ps with
  | nil => cases he
  | cons p ps ih =>
    intro c
    rcases Multiset.mem_add.mp he with hp | hps
    · obtain ⟨a, -, rfl⟩ := Multiset.mem_map.mp hp
      simp
    · exact ih hps c

theorem place_of_mem_kept {e : Place × Guard} (he : e ∈ h.kept t) (c : Cause) : e.1 ≠ .nobody c := by
  rcases Multiset.mem_add.mp he with hs | hc
  · exact place_of_mem_slots hs c
  · exact place_of_mem_calls hc c

theorem mem_owners {p : Place} : p ∈ g.owners t l ↔ ∃ x : Guard, (p, x) ∈ g.places t ∧ x.lock = l := by
  simp only [Ledger.owners, Multiset.mem_map, Multiset.mem_filter]
  constructor
  · rintro ⟨⟨q, x⟩, ⟨hmem, hx⟩, rfl⟩
    exact ⟨x, hmem, hx⟩
  · rintro ⟨x, hmem, hx⟩
    exact ⟨(p, x), ⟨hmem, hx⟩, rfl⟩

theorem card_owners (hg : g.Reachable) (t : ThreadId) (l : LockId) :
    (g.owners t l).card = if g.state.holder? l = some t then 1 else 0 := by
  rw [← hg.balanced t l, ← places_snd, Multiset.countP_map, Ledger.owners, Multiset.card_map]

theorem owners_eq_zero (hg : g.Reachable) : g.owners t l = 0 ↔ g.state.holder? l ≠ some t := by
  rw [← Multiset.card_eq_zero, card_owners hg]
  split <;> simp [*]

theorem owners_eq_singleton (hg : g.Reachable) :
    (∃ p, g.owners t l = {p}) ↔ g.state.holder? l = some t := by
  rw [← Multiset.card_eq_one, card_owners hg]
  split <;> simp [*]

theorem nobody_iff (hg : g.Reachable) : g.state.tenancy l = .stuck t ↔ ∃ c, g.owners t l = {.nobody c} := by
  constructor
  · intro hstuck
    obtain ⟨hholder, hnone⟩ := of_tenancy_stuck hstuck
    obtain ⟨p, hp⟩ := (owners_eq_singleton hg).mpr hholder
    obtain ⟨x, hmem, hx⟩ := mem_owners.mp (hp ▸ Multiset.mem_singleton_self p)
    rcases Multiset.mem_add.mp hmem with hkept | hnobody
    · have howned : x ∈ g.state.owned t := by
        rw [← kept_snd]
        exact Multiset.mem_map_of_mem Prod.snd hkept
      exact absurd (hx ▸ Multiset.mem_map_of_mem Guard.lock howned) hnone
    · obtain ⟨e, -, he⟩ := Multiset.mem_map.mp hnobody
      cases he
      exact ⟨e.1, hp⟩
  · rintro ⟨c, hc⟩
    refine tenancy_stuck ((owners_eq_singleton hg).mp ⟨_, hc⟩) fun hl => ?_
    obtain ⟨x, hx, rfl⟩ := Multiset.mem_map.mp hl
    rw [← kept_snd] at hx
    obtain ⟨e, he, rfl⟩ := Multiset.mem_map.mp hx
    have hmem : e.1 ∈ g.owners t e.2.lock := mem_owners.mpr ⟨e.2, Multiset.mem_add.mpr (.inl he), rfl⟩
    rw [hc, Multiset.mem_singleton] at hmem
    exact place_of_mem_kept he c hmem

end Places

/-! ## What the log adds up to -/

def Entry.apply (c : Option (Content α)) : Entry α → Option (Content α)
  | .made c' => some c'
  | .changed _ e => c.map e.apply
  | .borrowed e => c.map e.apply
  | _ => c

def Entry.isTaken (t : ThreadId) : Entry α → Bool
  | .taken u => u = t
  | _ => false

def Entry.isReleased (t : ThreadId) : Entry α → Bool
  | .released u => u = t
  | _ => false

/-- One if the thread has the lock. -/
def Tenancy.count (t : ThreadId) : Tenancy → Nat
  | .free => 0
  | .held u => if u = t then 1 else 0
  | .stuck u => if u = t then 1 else 0

section Log
variable {v v' : Option (Content α × Tenancy)} {es : List (Entry α)}

theorem foldl_of_tenures (h : Trace Tenure v es v') : es.foldl Entry.apply (v.map Prod.fst) = v'.map Prod.fst := by
  induction es generalizing v with
  | nil => rw [show v = v' from h, List.foldl_nil]
  | cons e es ih =>
    obtain ⟨v₁, he, hes⟩ := h
    rw [List.foldl_cons, ← ih hes]
    cases he <;> rfl

theorem count_of_tenures (h : Trace Tenure v es v') (t : ThreadId) :
    es.countP (Entry.isTaken t) + v.elim 0 (·.2.count t) = es.countP (Entry.isReleased t) + v'.elim 0 (·.2.count t) := by
  induction es generalizing v with
  | nil => rw [show v = v' from h]; rfl
  | cons e es ih =>
    obtain ⟨v₁, he, hes⟩ := h
    have hrest := ih hes
    rw [List.countP_cons, List.countP_cons]
    cases he <;> simp [Entry.isTaken, Entry.isReleased, Tenancy.count] at hrest ⊢ <;> omega

theorem tenancy_count {h : Hierarchy α} {l : LockId} (t : ThreadId) :
    (h.account l).elim 0 (·.2.count t) = if h.holder? l = some t then 1 else 0 := by
  cases hc : h.content? l with
  | none => simp [account, hc, holder?_of_content? hc]
  | some c =>
    rw [account, hc, Option.map_some, Option.elim_some]
    cases hl : h.holder? l with
    | none => simp [tenancy_free hl, Tenancy.count]
    | some u =>
      by_cases ho : l ∈ (h.owned u).map Guard.lock
      · simp [tenancy_held hl ho, Tenancy.count]
      · simp [tenancy_stuck hl ho, Tenancy.count]

end Log

/-! ## Rearranging guards -/

/-- The deeds that only move guards between slots and handles. -/
def Deed.rearranges : Deed → Bool
  | .recover _ => true
  | .defer _ _ => true
  | .adopt _ _ => true
  | .detach _ _ => true
  | _ => false

/-- No mutex, no content, no ceiling has changed, and each thread has the guards that it had. -/
structure Untouched (h h' : Hierarchy α) : Prop where
  locks : h'.locks = h.locks
  ceiling : ∀ t, h'.ceiling t = h.ceiling t
  owned : ∀ t, h'.owned t = h.owned t

section Rearranging
variable {h h' : Hierarchy α} {t : ThreadId}

theorem locks_tryLock {l : LockId} {aim : Aim} {v : Violation} (hv : (h.tryLock t l aim).2 = .violated v) :
    (h.tryLock t l aim).1.locks = h.locks := by
  unfold tryLock at hv ⊢
  cases hc : h.checkAcquire t l with
  | error w => rfl
  | ok previous =>
    cases ha : h.admit? t l previous with
    | none => simp only [ha]
    | some x =>
      simp only [hc, ha] at hv
      cases hv

theorem locks_unlock {slot : String} {g : Guard} {v : Violation} (hv : (h.unlock t slot g).2 = .violated v) :
    (h.unlock t slot g).1.locks = h.locks := by
  unfold unlock at hv ⊢
  cases hc : h.checkRelease t g with
  | error w => rfl
  | ok =>
    simp only [hc] at hv
    cases hv

theorem locks_unlockHandle {slot : String} {k : Handle} {v : Violation}
    (hv : (h.unlockHandle t slot k).2 = .violated v) : (h.unlockHandle t slot k).1.locks = h.locks := by
  unfold unlockHandle at hv ⊢
  cases hk : k.guard with
  | none => rfl
  | some g =>
    cases hc : h.checkRelease t g with
    | error w => simp only [hc]
    | ok =>
      simp only [hk, hc] at hv
      cases hv

theorem locks_attempt {d : Deed} {x : Hierarchy α × Outcome} (hd : h.Attempt t d x)
    (hquiet : d.rearranges = true ∨ ∃ v, x.2 = .violated v) : x.1.locks = h.locks := by
  rcases hquiet with hrearranges | ⟨v, hv⟩
  · cases hd with
    | detach _ _ => exact locks_detach ..
    | tryLock _ => cases hrearranges
    | unlock _ => cases hrearranges
    | unlockHandle _ => cases hrearranges
    | _ => rfl
  · cases hd with
    | detach _ _ => exact locks_detach ..
    | tryLock _ => exact locks_tryLock hv
    | unlock _ => exact locks_unlock hv
    | unlockHandle _ => exact locks_unlockHandle hv
    | _ => rfl

/-- A move that touches no lock and after which no guard is lost is a rearrangement. -/
theorem Reachable.untouched {m : Move α} (hr : Reachable h) (hm : h.move? m = some h') (hlocks : h'.locks = h.locks)
    (hlost : ∀ t, h.lost m t = 0) : h.Untouched h' := by
  obtain ⟨t, transfer, -⟩ := hr.transfer hm
  cases transfer with
  | keep _ hq =>
    refine ⟨hlocks, hq.ceiling, fun u => ?_⟩
    by_cases hu : t = u
    · subst hu
      have := hq.owned
      rwa [hlost, add_zero, add_zero] at this
    · exact (hq.others u hu).1
  | take l h₁ g _ ha _ _ hq =>
    obtain ⟨-, hfree, -, hholder, -⟩ := admit?_eq ha
    have hheld := (holder?_congr hlocks l).symm.trans ((hq.holder l).trans (hholder l))
    rw [hfree, if_pos rfl] at hheld
    cases hheld
  | free g b _ _ _ hq =>
    have hmem : g ∈ h.owned t := by simp [← hq.owned_released]
    have hheld := (holder?_congr hlocks g.lock).symm.trans ((hq.holder g.lock).trans (holder?_release h t g b g.lock))
    rw [hr.holder hmem, if_pos rfl] at hheld
    cases hheld

theorem Reachable.rearranged (hr : Reachable h) {d : Deed} {o : Outcome} (hp : h.perform? t d = some (h', o))
    (hquiet : d.rearranges = true ∨ ∃ v, o = .violated v) : h.Untouched h' := by
  have hm : h.move? (.perform t d) = some h' := by rw [move?, hp, Option.map_some]
  unfold perform? at hp
  split at hp
  · exact hr.untouched hm (locks_attempt (attempted hp) hquiet) fun _ => rfl
  · cases hp

end Rearranging

/-! ## Conservation -/

/-- The acquisitions of one lock are accounted for, and so is what it protects. -/
structure Ledger.Conserved (g : Ledger α) (l : LockId) : Prop where
  /-- The mutex is held exactly if there is one outstanding acquisition over all threads, and it is in one place. -/
  held : ∀ t, g.state.holder? l = some t ↔ (∃ p, g.owners t l = {p}) ∧ ∀ u, t ≠ u → g.owners u l = 0
  free : g.state.holder? l = none ↔ ∀ t, g.owners t l = 0
  nobody : ∀ t, g.state.tenancy l = .stuck t ↔ ∃ c, g.owners t l = {.nobody c}
  /-- Acquisitions do not overlap, each is released at most once, and only its owner changes what the lock
  protects, or somebody who has the lock to himself. -/
  tenures : Trace Tenure none (g.log l) (g.state.account l)
  releases : ∀ t, (g.log l).countP (Entry.isTaken t) =
    (g.log l).countP (Entry.isReleased t) + if g.state.holder? l = some t then 1 else 0
  /-- What the lock protects comes of all changes in the order of the log. -/
  content : (g.log l).foldl Entry.apply none = g.state.content? l

theorem Ledger.Reachable.conserved {g : Ledger α} (hg : g.Reachable) (l : LockId) : g.Conserved l where
  held t := by
    rw [owners_eq_singleton hg]
    refine ⟨fun ht => ⟨ht, fun u hu => ?_⟩, And.left⟩
    rw [owners_eq_zero hg, ht]
    exact fun he => hu (Option.some.inj he)
  free := by
    rw [Option.eq_none_iff_forall_ne_some]
    exact forall_congr' fun t => (owners_eq_zero hg).symm
  nobody t := nobody_iff hg
  tenures := hg.tenures l
  releases t := by
    have hcount := count_of_tenures (hg.tenures l) t
    rwa [tenancy_count, Option.elim_none, add_zero] at hcount
  content := by
    have hfold := foldl_of_tenures (hg.tenures l)
    rw [Option.map_none] at hfold
    rw [hfold, account, Option.map_map]
    exact Option.map_id'

/-- **Ownership of locks is exclusive and conserved.** In every state of every run, booked in a ledger. -/
theorem ownership_conserved {g : Ledger α} (hg : g.Reachable) : (∀ l, g.Conserved l) ∧
    ∀ t d h' o, g.state.perform? t d = some (h', o) → d.rearranges = true ∨ (∃ v, o = .violated v) →
      g.state.Untouched h' := by
  refine ⟨hg.conserved, ?_⟩
  intro t d h' o hp hquiet
  exact hg.state.rearranged hp hquiet

/-- A thread fails to release the outer of two locks, makes a handle of the guard, and releases it in order. Then
the element is borrowed, and another thread takes the lock, changes the element and drops the guard out of
order. -/
def releasedThenAbandoned : List (Work Nat) :=
  [.move (.addLock 10 0), .move (.addLock 5 0)] ++ (Move.taking 1 0 "outer").map .move ++
  [.modify 1 0 (· + 1)] ++ (Move.taking 1 1 "inner").map .move ++
  [.move (.perform 1 (.unlock "outer")), .move (.perform 1 (.recover "outer")),
    .move (.perform 1 (.adopt "outer" "handle")), .move (.perform 1 (.unlockHandle "handle"))] ++
  (Move.dropping 1 "inner").map .move ++
  [.move (.perform 1 (.unlockHandle "handle")), .move (.perform 1 (.detach "handle" "outer")),
    .amend 0 (· + 10), .move (.perform 2 (.tryLock 0 (.guard "outer"))), .modify 2 0 (· * 3)] ++
  (Move.taking 2 1 "inner").map .move ++ (Move.dropping 2 "outer").map .move

theorem ownership_conserved_released_then_abandoned : ∃ g : Ledger Nat, g.Reachable ∧
    g.state.element? 0 = some 33 ∧ g.owners 1 0 = 0 ∧ g.owners 2 0 = {.nobody .dropped} ∧
      g.owners 2 1 = {.guard "inner"} ∧ g.Conserved 0 ∧
        ∃ h, g.state.perform? 2 (.adopt "inner" "handle") = some (h, .done) ∧ g.state.Untouched h := by
  have hrun : (run? Ledger.next? {} releasedThenAbandoned).map (fun g =>
      (g.state.element? 0, g.owners 1 0, g.owners 2 0, g.owners 2 1,
        (g.state.perform? 2 (.adopt "inner" "handle")).map Prod.snd)) =
      some (some 33, 0, {.nobody .dropped}, {.guard "inner"}, some .done) := by decide +kernel
  obtain ⟨g, hg, he⟩ := Option.map_eq_some_iff.mp hrun
  have hg : g.Reachable := Leads.refl.run _ hg
  simp only [Prod.mk.injEq] at he
  obtain ⟨helement, hfirst, hsecond, hinner, hadopted⟩ := he
  obtain ⟨⟨h, o⟩, hperform, rfl⟩ := Option.map_eq_some_iff.mp hadopted
  obtain ⟨hconserved, huntouched⟩ := ownership_conserved hg
  exact ⟨g, hg, helement, hfirst, hsecond, hinner, hconserved 0, h, hperform, huntouched 2 _ h _ hperform (.inl rfl)⟩

end Interlock.Hierarchy
