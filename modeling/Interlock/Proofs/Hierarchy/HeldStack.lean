import Interlock.Proofs.Hierarchy.Slots

/-!
# The ceiling and the guards implement a stack of held locks

A thread knows of its locks only one number, its ceiling; each guard knows one more, the ceiling that it
displaced. `held_stack`: in every recorded state these numbers spell out the whole list of acquisitions
that the thread has not released. Their ranks increase from the innermost on, so comparing ranks decides
what comparing the acquisitions themselves would. A lock that is granted comes on top of the list, only the
top is ever released, and then the ceiling is again what the top displaced. An acquisition whose guard is
dropped in another order, or lost, stays in the list.
-/

namespace Interlock.Hierarchy

variable {α : Type}

/-! ## The stack and its decisions -/

/-- The acquisitions of the thread in force, innermost first, and what the ceiling and the guards say. -/
structure IsStack (h : Hierarchy α) (t : ThreadId) (gs : List Guard) : Prop where
  holds : ∀ l, h.holder? l = some t ↔ l ∈ gs.map Guard.lock
  /-- A guard that exists stands for one of the acquisitions, and no two for the same. -/
  listed : h.owned t ≤ (gs : Multiset Guard)
  increasing : (gs.map fun g => h.rank g.lock).Pairwise (· < ·)
  bounded : ∀ g ∈ gs, h.rank g.lock < Rank.unbounded
  ceiling : h.ceiling t = h.innermost gs
  unbounded : h.ceiling t = Rank.unbounded ↔ gs = []
  previous : ∀ inner g outer, gs = inner ++ g :: outer → g.previous = h.innermost outer

def mayAcquire (h : Hierarchy α) (gs : List Guard) (l : LockId) : Except Violation Rank :=
  if h.rank l < h.innermost gs then .ok (h.innermost gs) else .error ⟨.acquire, h.rank l, h.innermost gs⟩

/-- Whether a guard may be released, by the stack: only the acquisition on top. -/
def mayRelease (h : Hierarchy α) (gs : List Guard) (g : Guard) : Except Violation Unit :=
  if gs.head? = some g then .ok () else .error ⟨.release, h.rank g.lock, h.innermost gs⟩

/-- The checks decide as the stack does. What they refuse comes back as the violation and changes nothing
else; what they allow is granted once the mutex is free, or accepted at once. -/
structure Obeys (h : Hierarchy α) (t : ThreadId) (gs : List Guard) : Prop where
  acquire : ∀ l, h.checkAcquire t l = h.mayAcquire gs l
  release : ∀ g ∈ gs, h.checkRelease t g = h.mayRelease gs g
  tryLock : ∀ l v aim, h.mayAcquire gs l = .error v → h.tryLock t l aim = (h, .violated v)
  busy : ∀ l previous aim, h.mayAcquire gs l = .ok previous → h.holder? l ≠ none →
    h.tryLock t l aim = (h, .flag false)
  granted : ∀ l previous aim, h.mayAcquire gs l = .ok previous → h.holder? l = none →
    (h.tryLock t l aim).2 = .flag true
  /-- A call for a lock, or for an entry with the directory in hand. -/
  call : ∀ l v p inHand, h.mayAcquire gs l = .error v →
    h.approach t l p inHand = h.into t (.releasing inHand (.violated v))
  waits : ∀ l previous p inHand, h.mayAcquire gs l = .ok previous →
    h.approach t l p inHand = h.into t (.waiting l previous p)
  lock : ∀ l aim, h.enter t (.lock l aim) = h.into t (match h.mayAcquire gs l with
    | .ok previous => .waiting l previous (.hold aim)
    | .error v => .releasing [] (.violated v))
  registry : ∀ r k i, h.registries[r]? = some k → h.enter t (.registry r i) = h.into t
    (match h.mayAcquire gs k.directory with
    | .ok previous => .waiting k.directory previous (.inquire r i)
    | .error v => .releasing [] (.violated v))
  unlock : ∀ g ∈ gs, ∀ v slot, h.mayRelease gs g = .error v →
    h.unlock t slot g = (h.setSlot t slot (.refused v g), .violated v)
  unlocked : ∀ g ∈ gs, ∀ slot, h.mayRelease gs g = .ok () → (h.unlock t slot g).2 = .done
  unlockHandle : ∀ g ∈ gs, ∀ v slot k, k.guard = some g → h.mayRelease gs g = .error v →
    h.unlockHandle t slot k = (h, .violated v)
  unlockedHandle : ∀ g ∈ gs, ∀ slot k, k.guard = some g → h.mayRelease gs g = .ok () →
    (h.unlockHandle t slot k).2 = .done
  /-- What is dropped comes out of its slot, to be released. -/
  takeOut : ∀ slot x g panic, h.slot? t slot = some x → x.guard? = some g →
    h.enter t (.drop [slot] panic) = (h.clearSlot t slot).into t (.releasing [g] (match panic with
      | none => .done
      | some message => .panicked message))
  drop : ∀ g ∈ gs, ∀ v rest a, h.mayRelease gs g = .error v →
    h.dropNext t (g :: rest) a = h.into t (.releasing rest (if a.isPanic then a else .panicked v.message))
  dropped : ∀ g ∈ gs, ∀ rest a, h.mayRelease gs g = .ok () →
    (h.dropNext t (g :: rest) a).phases t = (h.into t (.releasing rest a)).phases t

/-- A call that is neither in its callback nor answered waits for nothing but a mutex that is held. -/
def GoesOn (h : Hierarchy α) : Phase α → Prop
  | .entering _ | .releasing _ _ => True
  | .waiting l _ _ => h.holder? l = none
  | .visiting _ _ | .returned _ => False

section Stack
variable {h : Hierarchy α} {t : ThreadId} {gs : List Guard}

theorem IsStack.of_linked (hl : h.Linked (h.ceiling t) gs)
    (holds : ∀ l, h.holder? l = some t ↔ l ∈ gs.map Guard.lock)
    (listed : h.owned t ≤ (gs : Multiset Guard)) : h.IsStack t gs where
  holds := holds
  listed := listed
  increasing := hl.increasing
  bounded g hg := (hl.rank_mem g hg).2
  ceiling := hl.eq_innermost
  unbounded := by
    constructor
    · intro hc
      cases gs with
      | nil => rfl
      | cons g gs =>
        have := hl.rank_mem g List.mem_cons_self
        rw [hc] at this
        exact absurd this.1 (Nat.not_le_of_lt this.2)
    · rintro rfl
      exact hl
  previous inner g outer he := by
    rw [he] at hl
    exact hl.previous

theorem IsStack.checkAcquire (hs : h.IsStack t gs) (l : LockId) :
    h.checkAcquire t l = h.mayAcquire gs l := by
  unfold Hierarchy.checkAcquire mayAcquire
  rw [hs.ceiling]
  by_cases hl : h.rank l < h.innermost gs
  · rw [if_pos hl, if_neg (Nat.not_le_of_lt hl)]
  · rw [if_neg hl, if_pos (Nat.le_of_not_lt hl)]

theorem IsStack.head?_eq_iff (hs : h.IsStack t gs) {g : Guard} (hg : g ∈ gs) :
    gs.head? = some g ↔ h.ceiling t = h.rank g.lock := by
  rw [hs.ceiling]
  cases gs with
  | nil => cases hg
  | cons x gs =>
    rcases List.mem_cons.mp hg with rfl | hx
    · simp [innermost]
    · have hlt : h.rank x.lock < h.rank g.lock :=
        List.rel_of_pairwise_cons hs.increasing (List.mem_map_of_mem hx)
      have hne : x ≠ g := by
        rintro rfl
        exact Nat.lt_irrefl _ hlt
      simp [innermost, hne, Nat.ne_of_lt hlt]

theorem IsStack.checkRelease (hs : h.IsStack t gs) {g : Guard} (hg : g ∈ gs) :
    h.checkRelease t g = h.mayRelease gs g := by
  unfold Hierarchy.checkRelease mayRelease
  have := hs.head?_eq_iff hg
  rw [hs.ceiling] at this ⊢
  by_cases hc : h.innermost gs = h.rank g.lock
  · rw [if_pos hc, if_pos (this.mpr hc)]
  · rw [if_neg hc, if_neg (fun he => hc (this.mp he))]

theorem IsStack.ceiling_le (hs : h.IsStack t gs) : h.ceiling t ≤ Rank.unbounded := by
  rw [hs.ceiling]
  cases gs with
  | nil => exact Nat.le_refl _
  | cons g gs => exact Nat.le_of_lt (hs.bounded g List.mem_cons_self)

/-- A lock that may be acquired exists. -/
theorem IsStack.lt_of_checkAcquire (hs : h.IsStack t gs) {l : LockId} {previous : Rank}
    (hc : h.checkAcquire t l = .ok previous) : l < h.locks.length := by
  obtain ⟨rfl, hl⟩ := checkAcquire_ok hc
  exact lt_of_rank (Nat.lt_of_lt_of_le hl hs.ceiling_le)

theorem IsStack.approach_eq (hs : h.IsStack t gs) (l : LockId) (p : Purpose α) (inHand : List Guard) :
    h.approach t l p inHand = h.into t (match h.mayAcquire gs l with
      | .ok previous => .waiting l previous p
      | .error v => .releasing inHand (.violated v)) := by
  rw [approach, hs.checkAcquire]
  cases h.mayAcquire gs l <;> rfl

theorem IsStack.obeys (hs : h.IsStack t gs) : h.Obeys t gs where
  acquire := hs.checkAcquire
  release _ hg := hs.checkRelease hg
  tryLock l v aim hv := by
    rw [← hs.checkAcquire] at hv
    simp only [Hierarchy.tryLock, hv]
  call l v p inHand hv := by rw [hs.approach_eq, hv]
  unlock g hg v slot hv := by
    rw [← hs.checkRelease hg] at hv
    simp only [Hierarchy.unlock, hv]
  unlockHandle g hg v slot k hk hv := by
    rw [← hs.checkRelease hg] at hv
    simp only [Hierarchy.unlockHandle, hk, hv]
  drop g hg v rest a hv := by
    rw [← hs.checkRelease hg] at hv
    simp only [dropNext, hv]
  granted l previous aim hv hfree := by
    rw [← hs.checkAcquire] at hv
    obtain ⟨h₁, ha⟩ := admit?_of_free t previous (hs.lt_of_checkAcquire hv) hfree
    simp only [Hierarchy.tryLock, hv, ha]
  busy l previous aim hv hbusy := by
    rw [← hs.checkAcquire] at hv
    obtain ⟨u, hu⟩ := Option.ne_none_iff_exists'.mp hbusy
    simp only [Hierarchy.tryLock, hv, admit?_of_held hu]
  waits l previous p inHand hv := by rw [hs.approach_eq, hv]
  lock l aim := hs.approach_eq l (.hold aim) []
  registry r k i hk := by
    simp only [enter, hk]
    exact hs.approach_eq k.directory (.inquire r i) []
  takeOut slot x g panic hx hg := by
    simp only [enter, Hierarchy.takeOut, hx, hg, Option.bind_some]
    rfl
  unlocked g hg slot hv := by
    rw [← hs.checkRelease hg] at hv
    simp only [Hierarchy.unlock, hv]
  unlockedHandle g hg slot k hk hv := by
    rw [← hs.checkRelease hg] at hv
    simp only [Hierarchy.unlockHandle, hk, hv]
  dropped g hg rest a hv := by
    rw [← hs.checkRelease hg] at hv
    simp only [dropNext, hv]
    rfl

end Stack

/-! ## What a move does to the lists -/

namespace Record

/-- A lock is granted if it is below the innermost one and free. -/
def takes (r : Record α) (t : ThreadId) (l : LockId) : Traffic :=
  if r.state.rank l < r.state.innermost (r.held t) ∧ r.state.holder? l = none then .taken t l else .none

/-- A release is accepted if it is of the innermost acquisition. -/
def releases (r : Record α) (t : ThreadId) (g : Guard) : Traffic :=
  if (r.held t).head? = some g then .released t g.lock else .none

/-- The lock that is granted or released in a move, as the lists have it: a call that waits, or an attempt, wants
one, and the guard that is dropped next, or that is to be unlocked, wants to release one. -/
def passes (r : Record α) : Move α → Traffic
  | .step t _ =>
    match r.state.calls.current? t with
    | some (.waiting l _ _) => r.takes t l
    | some (.releasing gs _) => gs.head?.elim .none (r.releases t)
    | _ => .none
  | .perform t (.tryLock l _) => r.takes t l
  | .perform t (.unlock slot) =>
    match r.state.slot? t slot with
    | some (.guard g) => r.releases t g
    | _ => .none
  | .perform t (.unlockHandle slot) =>
    match r.state.slot? t slot with
    | some (.handle k) => k.guard.elim .none (r.releases t)
    | _ => .none
  | _ => .none

/-- What a move makes of the lists, the ceilings, the mutexes and the guards when this is granted or released in
it, and these guards go without being released. -/
inductive Turn (r r' : Record α) (k : Traffic) (lost : ThreadId → Multiset Guard) : Prop
  | keep (passes : k = .none) (held : r'.held = r.held) (ceiling : ∀ u, r'.state.ceiling u = r.state.ceiling u)
      (holder : ∀ l, r'.state.holder? l = r.state.holder? l)
      (owned : ∀ u, r'.state.owned u + lost u = r.state.owned u)
  | push (t : ThreadId) (g : Guard) (passes : k = .taken t g.lock)
      (below : r.state.rank g.lock < r.state.innermost (r.held t))
      (previous : g.previous = r.state.innermost (r.held t))
      (held : r'.held = Function.update r.held t (g :: r.held t))
      (ceiling : r'.state.ceiling = Function.update r.state.ceiling t (r.state.rank g.lock))
      (holder : r.state.holder? g.lock = none ∧ r'.state.holder? = Function.update r.state.holder? g.lock (some t))
      (owned : r'.state.owned = Function.update r.state.owned t (r.state.owned t + {g})) (none : lost = 0)
  | pop (t : ThreadId) (g : Guard) (gs : List Guard) (passes : k = .released t g.lock) (top : r.held t = g :: gs)
      (held : r'.held = Function.update r.held t gs)
      (ceiling : r'.state.ceiling = Function.update r.state.ceiling t g.previous)
      (holder : r'.state.holder? = Function.update r.state.holder? g.lock none)
      (owned : r.state.owned = Function.update r'.state.owned t (r'.state.owned t + {g})) (none : lost = 0)

section
variable {r r' : Record α} {t : ThreadId} {l : LockId} {g : Guard} {m : Move α}

theorem Sound.isStack (hs : r.Sound) (t : ThreadId) :
    r.state.IsStack t (r.held t) :=
  .of_linked (hs.linked t) (hs.holds t) (hs.listed t)

/-- Between taking a directory and asking for an entry the directory is on top. -/
theorem Sound.isStack_admitted (hs : r.Sound) {previous : Rank} {p : Purpose α} {h₁ : Hierarchy α}
    (hw : r.state.calls.current? t = some (.waiting l previous p))
    (ha : r.state.admit? t l previous = some (h₁, g)) : h₁.IsStack t (g :: r.held t) := by
  obtain ⟨⟨rfl, hl⟩, -⟩ := hs.poised t _ _ (phases_eq_cons hw)
  have ho := (admit?_keeps ha t).1
  obtain ⟨rfl, hfree, hrank, hholder, hceiling, -⟩ := admit?_eq ha
  refine .of_linked ?_ (fun k => ?_) ?_
  · rw [hceiling, if_pos rfl]
    exact ⟨(hrank l).symm, hl, (hs.linked t).congr fun k _ => hrank k⟩
  · rw [hholder, List.map_cons, List.mem_cons, ← hs.holds t k]
    by_cases hk : l = k
    · simp [hk]
    · simp [hk, Ne.symm hk]
  · rw [ho]
    exact (hs.listed t).trans (Multiset.le_cons_self _ _)

theorem Sound.taking_eq (hs : r.Sound) (hl : r.state.rank l < r.state.innermost (r.held t)) (previous : Rank) :
    r.state.taking t l previous = r.takes t l := by
  have hc := (hs.isStack t).ceiling
  have hlt : l < r.state.locks.length := lt_of_rank (Nat.lt_of_lt_of_le hl (hc ▸ (hs.linked t).le))
  unfold taking takes
  cases hholder : r.state.holder? l with
  | none =>
    obtain ⟨h₁, ha⟩ := admit?_of_free t previous hlt hholder
    simp [ha, hl]
  | some u => simp [admit?_of_held hholder]

theorem Sound.releasing_eq (hs : r.Sound) (hg : g ∈ r.state.owned t) : r.state.releasing t g = r.releases t g := by
  have hheld : g ∈ r.held t := Multiset.mem_of_le (hs.listed t) hg
  rw [releasing, (hs.isStack t).checkRelease hheld, mayRelease, releases]
  by_cases hhead : (r.held t).head? = some g
  · rw [if_pos hhead, if_pos hhead]
  · rw [if_neg hhead, if_neg hhead]

theorem Sound.releasing_slot (hs : r.Sound) {slot : String} {x : Holding} (hx : r.state.slot? t slot = some x)
    (hg : x.guard? = some g) : r.state.releasing t g = r.releases t g := by
  refine hs.releasing_eq (Multiset.mem_of_le (guards_le_owned hx) ?_)
  rw [Holding.guards, hg]
  exact Multiset.mem_singleton_self g

theorem Sound.traffic_deed (hs : r.Sound) (t : ThreadId) (d : Deed) : d.traffic r.state t = r.passes (.perform t d) := by
  cases d with
  | tryLock l aim =>
    simp only [Deed.traffic, passes, (hs.isStack t).checkAcquire l, mayAcquire]
    by_cases hl : r.state.rank l < r.state.innermost (r.held t)
    · simp only [if_pos hl]
      exact hs.taking_eq hl _
    · simp [hl, takes]
  | unlock slot =>
    simp only [Deed.traffic, passes]
    cases hx : r.state.slot? t slot with
    | none => rfl
    | some x =>
      cases x with
      | guard g => exact hs.releasing_slot hx rfl
      | _ => rfl
  | unlockHandle slot =>
    simp only [Deed.traffic, passes]
    cases hx : r.state.slot? t slot with
    | none => rfl
    | some x =>
      cases x with
      | handle k =>
        show k.guard.elim .none (r.state.releasing t) = k.guard.elim .none (r.releases t)
        cases hk : k.guard with
        | none => rfl
        | some g => exact hs.releasing_slot hx hk
      | _ => rfl
  | _ => rfl

/-- What is taken and released is what the lists say. -/
theorem Sound.traffic_eq (hs : r.Sound) (m : Move α) : r.state.traffic m = r.passes m := by
  cases m with
  | step t env =>
    simp only [traffic, passes]
    cases hc : r.state.calls.current? t with
    | none => rfl
    | some p =>
      have hp := phases_eq_cons hc
      cases p with
      | waiting l previous q =>
        obtain ⟨⟨rfl, hl⟩, -⟩ := hs.poised t _ _ hp
        exact hs.taking_eq ((hs.isStack t).ceiling ▸ hl) _
      | releasing gs a =>
        cases gs with
        | nil => rfl
        | cons g gs =>
          refine hs.releasing_eq (mem_owned.mpr (.inr ⟨_, hp ▸ List.mem_cons_self, ?_⟩))
          exact List.mem_cons_self
      | _ => rfl
  | perform t d => exact hs.traffic_deed t d
  | _ => rfl

theorem Sound.turn_take (hs : r.Sound) {h₁ h' : Hierarchy α}
    (ha : r.state.admit? t l (r.state.ceiling t) = some (h₁, g)) (hl : r.state.rank l < r.state.ceiling t)
    (hq : Quiet t {g} 0 h₁ h') : r.Turn (r.after h') (.taken t l) 0 := by
  have ho := admit?_keeps ha
  obtain ⟨rfl, hfree, -, hholder, hceiling, -⟩ := admit?_eq ha
  have hc := (hs.isStack t).ceiling
  have hnew (k : LockId) : h'.holder? k = if l = k then some t else r.state.holder? k := by
    rw [hq.holder, hholder]
  refine .push t _ rfl (hc ▸ hl) hc (hs.held_take hfree hnew) ?_ ⟨hfree, ?_⟩ ?_ rfl
  · funext u
    simp only [after, hq.ceiling, hceiling, Function.update_apply, eq_comm]
  · funext k
    simp only [after, hnew, Function.update_apply, eq_comm]
  · funext u
    show h'.owned u = _
    by_cases hu : t = u
    · subst hu
      have howned := hq.owned
      rw [add_zero, (ho t).1] at howned
      rw [Function.update_self, howned]
    · rw [Function.update_of_ne (Ne.symm hu), (hq.others u hu).1, (ho u).1]

theorem Sound.turn_free (hs : r.Sound) {h' : Hierarchy α} {b : Bool} (hc : r.state.ceiling t = r.state.rank g.lock)
    (hq : Quiet t 0 {g} (r.state.release t g b) h') : r.Turn (r.after h') (.released t g.lock) 0 := by
  have howned := hq.owned_released
  obtain ⟨gs, hgs⟩ := hs.held_eq_cons (g := g) (by simp [← howned]) hc
  have hnew (k : LockId) : h'.holder? k = if g.lock = k then none else r.state.holder? k := by
    rw [hq.holder, holder?_release]
  refine .pop t g gs rfl hgs (hs.held_free hgs hnew) ?_ ?_ ?_ rfl
  · funext u
    simp only [after, hq.ceiling, ceiling_release, Function.update_apply, eq_comm]
  · funext k
    simp only [after, hnew, Function.update_apply, eq_comm]
  · funext u
    by_cases hu : t = u
    · subst hu
      rw [Function.update_self]
      exact howned.symm
    · rw [Function.update_of_ne (Ne.symm hu)]
      exact ((hq.others u hu).1.trans (owned_release ..)).symm

theorem Reachable.turn (hr : r.Reachable) (hn : r.next? m = some r') :
    r.Turn r' (r.passes m) (r.state.lost m) := by
  obtain ⟨h', hm, rfl⟩ := Option.map_eq_some_iff.mp hn
  have hs := hr.sound
  obtain ⟨t, transfer, hothers⟩ := hr.state.transfer hm
  have lost_none (hlost : r.state.lost m t = 0) : r.state.lost m = 0 := by
    funext u
    by_cases hu : t = u
    · exact hu ▸ hlost
    · exact hothers u hu
  rw [← hs.traffic_eq]
  cases transfer with
  | keep htraffic hq =>
    refine .keep htraffic (funext fun u => hs.held_keep hq.holder) hq.ceiling hq.holder fun u => ?_
    by_cases hu : t = u
    · subst hu
      rw [hq.owned, add_zero]
    · rw [hothers u hu, add_zero, (hq.others u hu).1]
  | take l h₁ g htraffic ha hl hnone hq =>
    have hlost := hnone (hr.state.tidy t)
    rw [hlost] at hq
    rw [htraffic, lost_none hlost]
    exact hs.turn_take ha hl hq
  | free g b htraffic hc hlost hq =>
    rw [htraffic, lost_none hlost]
    exact hs.turn_free hc hq

theorem Sound.goesOn (hs : r.Sound) {p : Phase α} (hc : r.state.calls.current? t = some p) (env : Environment) :
    (r.state.step? env t).isSome ↔ r.state.GoesOn p := by
  cases p with
  | waiting l previous q =>
    obtain ⟨⟨rfl, hl⟩, -⟩ := hs.poised t _ _ (phases_eq_cons hc)
    simp only [step?, hc, Option.isSome_map, GoesOn]
    constructor
    · intro ha
      obtain ⟨⟨h₁, g⟩, ha⟩ := Option.isSome_iff_exists.mp ha
      exact (admit?_eq ha).2.1
    · intro hfree
      have hlt : l < r.state.locks.length := lt_of_rank (Nat.lt_of_lt_of_le hl (hs.linked t).le)
      obtain ⟨h₁, ha⟩ := admit?_of_free t (r.state.ceiling t) hlt hfree
      rw [ha, Option.isSome_some]
  | _ => simp [step?, hc, GoesOn]

end

end Record

/-- **The ceiling and the guards implement a stack of held locks.** In every state of every run, with the
acquisitions of each thread recorded from its mutexes alone. In each move what the lists allow to be granted comes
on top of one, what they allow to be released goes from the top of one and restores the ceiling that it displaced,
and in all other moves the lists stay. No call waits for anything but a mutex that is held. -/
theorem held_stack {r : Record α} (hr : r.Reachable) :
    (∀ t, r.state.IsStack t (r.held t) ∧ r.state.Obeys t (r.held t)) ∧
    (∀ t l previous p h₁ g, r.state.calls.current? t = some (.waiting l previous p) →
      r.state.admit? t l previous = some (h₁, g) →
        h₁.IsStack t (g :: r.held t) ∧ h₁.Obeys t (g :: r.held t)) ∧
    (∀ m r', r.next? m = some r' → r.Turn r' (r.passes m) (r.state.lost m)) ∧
    ∀ t p env, r.state.calls.current? t = some p → ((r.state.step? env t).isSome ↔ r.state.GoesOn p) := by
  have hs := hr.sound
  refine ⟨fun t => ⟨hs.isStack t, (hs.isStack t).obeys⟩, ?_, fun m r' hn => hr.turn hn, ?_⟩
  · intro t l previous p h₁ g hw ha
    have hadmitted := hs.isStack_admitted hw ha
    exact ⟨hadmitted, hadmitted.obeys⟩
  · intro t p env hc
    exact hs.goesOn hc env

def Move.taking (t : ThreadId) (l : LockId) (slot : String) : List (Move α) :=
  [.start t (.lock l (.guard slot)), .step t default, .step t default, .collect t]

def Move.dropping (t : ThreadId) (slot : String) : List (Move α) :=
  [.start t (.drop [slot] none), .step t default, .step t default, .step t default, .collect t]

/-- A thread takes two locks and drops the outer guard first, while another waits for that lock. -/
def droppedOuterFirst : List (Move Nat) :=
  [.addLock 10 0, .addLock 5 0] ++ Move.taking 1 0 "outer" ++ Move.taking 1 1 "inner" ++
    Move.dropping 1 "outer" ++ [.start 2 (.lock 0 (.guard "outer")), .step 2 default]

/-- The acquisition dropped out of order is still in the list. The other one is on top, and can be released. -/
theorem held_stack_dropped_outer_first : ∃ r r' : Record Nat, r.Reachable ∧
    r.next? (.perform 1 (.unlock "inner")) = some r' ∧ r.passes (.perform 1 (.unlock "inner")) = .released 1 1 ∧
      r.held 1 = [⟨1, 10⟩, ⟨0, Rank.unbounded⟩] ∧ r.state.owned 1 = {⟨1, 10⟩} ∧
      r'.held 1 = [⟨0, Rank.unbounded⟩] ∧ r'.state.ceiling 1 = 10 ∧
      r.state.IsStack 1 (r.held 1) ∧ r.state.Obeys 1 (r.held 1) ∧ r.Turn r' (.released 1 1) 0 := by
  have hrun : ((run? Record.next? {} droppedOuterFirst).bind fun r =>
      (r.next? (.perform 1 (.unlock "inner"))).map fun r' => (r.passes (.perform 1 (.unlock "inner")), r.held 1,
        r.state.owned 1, r'.held 1, r'.state.ceiling 1)) =
      some (.released 1 1, [⟨1, 10⟩, ⟨0, Rank.unbounded⟩], {⟨1, 10⟩}, [⟨0, Rank.unbounded⟩], 10) := by decide +kernel
  obtain ⟨r, hr, hrun⟩ := Option.bind_eq_some_iff.mp hrun
  obtain ⟨r', hn, he⟩ := Option.map_eq_some_iff.mp hrun
  have hr : r.Reachable := Leads.refl.run _ hr
  simp only [Prod.mk.injEq] at he
  obtain ⟨hpasses, hheld, howned, hheld', hceiling'⟩ := he
  obtain ⟨hstack, -, hturn, -⟩ := held_stack hr
  have hturn := hturn _ _ hn
  rw [hpasses] at hturn
  exact ⟨r, r', hr, hn, hpasses, hheld, howned, hheld', hceiling', (hstack 1).1, (hstack 1).2, hturn⟩

end Interlock.Hierarchy
