import Mathlib.Data.List.Find
import Mathlib.Order.Bounds.Basic
import Interlock.Proofs.Handles.Changes
import Interlock.Proofs.Hierarchy.Beside
import Interlock.Proofs.Panic.Locks

/-!
# Guards dropped one after another

A vector drops its guards from the first on. One that is not the innermost acquisition in force at that moment is
refused and left without an owner, and the drops go on behind it. So what is released is a matter of two lists: the
acquisitions outstanding, innermost first, and the guards in the order in which they are dropped. It is as much of the
first list as occurs in the second in its order (`inTurn`), whether the thread panics meanwhile or not.
-/

namespace Interlock.Hierarchy

variable {α : Type}

/-! ## Two lists of guards -/

/-- How many of the acquisitions, from the innermost on, are released by these drops. -/
def inTurn : List Guard → List Guard → Nat
  | [], _ => 0
  | _ :: _, [] => 0
  | g :: gs, x :: ps => if g = x then inTurn gs ps + 1 else inTurn (g :: gs) ps

section
variable {g x : Guard} {gs ps : List Guard} {k : Nat}

@[simp] theorem inTurn_nil : inTurn gs [] = 0 := by cases gs <;> rfl

theorem inTurn_head : inTurn (x :: gs) (x :: ps) = inTurn gs ps + 1 := if_pos rfl

theorem inTurn_other (hx : gs.head? ≠ some x) : inTurn gs (x :: ps) = inTurn gs ps := by
  cases gs with
  | nil => cases ps <;> rfl
  | cons g gs => exact if_neg fun he => hx (congrArg some he)

theorem inTurn_le : inTurn gs ps ≤ gs.length := by
  induction ps generalizing gs with
  | nil => simp
  | cons x ps ih =>
    by_cases hx : gs.head? = some x
    · obtain ⟨gs, rfl⟩ := List.head?_eq_some_iff.mp hx
      rw [inTurn_head, List.length_cons]
      exact Nat.succ_le_succ ih
    · rw [inTurn_other hx]
      exact ih

theorem take_sublist_iff (hk : k ≤ gs.length) : (gs.take k).Sublist ps ↔ k ≤ inTurn gs ps := by
  -- over the guards dropped: the first is the innermost acquisition, or no prefix of the acquisitions starts with it
  induction ps generalizing gs k with
  | nil =>
    rw [List.sublist_nil, List.take_eq_nil_iff, inTurn_nil]
    cases gs <;> simp_all
  | cons x ps ih =>
    cases k with
    | zero => simp
    | succ k =>
      by_cases hx : gs.head? = some x
      · obtain ⟨gs, rfl⟩ := List.head?_eq_some_iff.mp hx
        rw [List.take_succ_cons, List.cons_sublist_cons, inTurn_head, Nat.succ_le_succ_iff]
        exact ih (Nat.succ_le_succ_iff.mp hk)
      · rw [inTurn_other hx, ← ih hk]
        cases gs with
        | nil => cases hk
        | cons g gs =>
          rw [List.take_succ_cons]
          refine ⟨fun hs => ?_, fun hs => hs.cons x⟩
          cases hs with
          | cons _ hs => exact hs
          | cons_cons _ _ => exact absurd rfl hx

theorem isGreatest_inTurn (gs ps : List Guard) :
    IsGreatest {k | k ≤ gs.length ∧ (gs.take k).Sublist ps} (inTurn gs ps) :=
  ⟨⟨inTurn_le, (take_sublist_iff inTurn_le).mpr (Nat.le_refl _)⟩, fun _ hk => (take_sublist_iff hk.1).mp hk.2⟩

/-- What is refused is not among what is released, before or after. -/
theorem notMem_take (hps : (x :: ps).Nodup) : x ∉ gs.take (inTurn gs ps) := by
  intro hmem
  have hsub : (gs.take (inTurn gs ps)).Sublist ps := (take_sublist_iff inTurn_le).mpr (Nat.le_refl _)
  exact (List.nodup_cons.mp hps).1 (hsub.subset hmem)

end

/-! ## What the drops answer -/

/-- Drop a guard while these acquisitions are outstanding: those outstanding then, and the answer so far. -/
def afterDrop (h : Hierarchy α) (s : List Guard × Answer α) (x : Guard) : List Guard × Answer α :=
  match h.mayRelease s.1 x with
  | .ok () => (s.1.tail, s.2)
  | .error v => (s.1, if s.2.isPanic then s.2 else .panicked v.message)

/-- The violation of the first guard that is dropped out of turn. All before it have been released by then. -/
def outOfTurn? (h : Hierarchy α) (gs ps : List Guard) (k : Nat) : Option Violation :=
  (ps.find? fun x => x ∉ gs.take k).map fun x =>
    ⟨.release, h.rank x.lock, h.innermost (gs.drop (ps.idxOf x))⟩

/-- The answer of a call that drops guards, by the panic under way and the violation that the drops come to. -/
def batchAnswer : Option String → Option Violation → Answer α
  | some message, _ => .panicked message
  | none, some v => .panicked v.message
  | none, none => .done

section
variable {h h' : Hierarchy α} {x : Guard} {gs ps : List Guard} {a : Answer α}

theorem afterDrop_head : h.afterDrop (x :: gs, a) x = (gs, a) := by
  simp only [afterDrop, mayRelease, List.head?_cons, if_true, List.tail_cons]

theorem afterDrop_other (hx : gs.head? ≠ some x) : h.afterDrop (gs, a) x = (gs, if a.isPanic then a else
    .panicked (Violation.message ⟨.release, h.rank x.lock, h.innermost gs⟩)) := by
  simp only [afterDrop, mayRelease, if_neg hx]

theorem dropped_fst : (ps.foldl h.afterDrop (gs, a)).1 = gs.drop (inTurn gs ps) := by
  induction ps generalizing gs a with
  | nil => simp
  | cons x ps ih =>
    by_cases hx : gs.head? = some x
    · obtain ⟨gs, rfl⟩ := List.head?_eq_some_iff.mp hx
      rw [List.foldl_cons, afterDrop_head, ih, inTurn_head, List.drop_succ_cons]
    · rw [List.foldl_cons, afterDrop_other hx, ih, inTurn_other hx]

/-- There is no second panic. -/
theorem dropped_snd_of_panic (ha : a.isPanic = true) : (ps.foldl h.afterDrop (gs, a)).2 = a := by
  induction ps generalizing gs with
  | nil => rfl
  | cons x ps ih =>
    by_cases hx : gs.head? = some x
    · obtain ⟨gs, rfl⟩ := List.head?_eq_some_iff.mp hx
      rw [List.foldl_cons, afterDrop_head, ih]
    · rw [List.foldl_cons, afterDrop_other hx, if_pos ha, ih]

theorem outOfTurn?_head (hps : (x :: ps).Nodup) :
    h.outOfTurn? (x :: gs) (x :: ps) (inTurn gs ps + 1) = h.outOfTurn? gs ps (inTurn gs ps) := by
  have hx : x ∉ ps := (List.nodup_cons.mp hps).1
  have hfind : (ps.find? fun y => y ∉ x :: gs.take (inTurn gs ps)) = ps.find? fun y => y ∉ gs.take (inTurn gs ps) := by
    refine List.find?_congr fun y hy => ?_
    have hne : y ≠ x := fun he => hx (he ▸ hy)
    simp [hne]
  rw [outOfTurn?, List.take_succ_cons, List.find?_cons_of_neg (by simp), hfind, outOfTurn?]
  refine Option.map_congr fun y hy => ?_
  have hne : x ≠ y := by
    rintro rfl
    exact hx (List.mem_of_find?_eq_some hy)
  rw [List.idxOf_cons_ne _ hne, List.drop_succ_cons]

theorem outOfTurn?_other (hps : (x :: ps).Nodup) :
    h.outOfTurn? gs (x :: ps) (inTurn gs ps) = some ⟨.release, h.rank x.lock, h.innermost gs⟩ := by
  have hnot : x ∉ gs.take (inTurn gs ps) := notMem_take hps
  rw [outOfTurn?, List.find?_cons_of_pos (by simp [hnot]), Option.map_some, List.idxOf_cons_self, List.drop_zero]

theorem dropped_snd (ha : a.isPanic = false) (hps : ps.Nodup) : (ps.foldl h.afterDrop (gs, a)).2 =
    ((h.outOfTurn? gs ps (inTurn gs ps)).map fun v => .panicked v.message).getD a := by
  induction ps generalizing gs with
  | nil => rfl
  | cons x ps ih =>
    by_cases hx : gs.head? = some x
    · obtain ⟨gs, rfl⟩ := List.head?_eq_some_iff.mp hx
      rw [List.foldl_cons, afterDrop_head, ih hps.of_cons, inTurn_head, outOfTurn?_head hps]
    · rw [List.foldl_cons, afterDrop_other hx, ha, inTurn_other hx, outOfTurn?_other hps]
      exact dropped_snd_of_panic rfl

theorem dropped_eq (panic : Option String) (hps : ps.Nodup) : ps.foldl h.afterDrop (gs, batchAnswer panic none) =
    (gs.drop (inTurn gs ps), batchAnswer panic (h.outOfTurn? gs ps (inTurn gs ps))) := by
  refine Prod.ext dropped_fst ?_
  cases panic with
  | some message => exact dropped_snd_of_panic rfl
  | none =>
    refine (dropped_snd rfl hps).trans ?_
    cases h.outOfTurn? gs ps (inTurn gs ps) <;> rfl

theorem innermost_congr (hgs : ∀ g ∈ gs, h'.rank g.lock = h.rank g.lock) : h'.innermost gs = h.innermost gs := by
  cases gs with
  | nil => rfl
  | cons g gs => exact hgs g List.mem_cons_self

/-- Of the state only the ranks of these guards matter. -/
theorem dropped_congr (hgs : ∀ g ∈ gs, h'.rank g.lock = h.rank g.lock)
    (hps : ∀ x ∈ ps, h'.rank x.lock = h.rank x.lock) :
    ps.foldl h'.afterDrop (gs, a) = ps.foldl h.afterDrop (gs, a) := by
  induction ps generalizing gs a with
  | nil => rfl
  | cons x ps ih =>
    have hps' := fun y hy => hps y (List.mem_cons_of_mem x hy)
    by_cases hx : gs.head? = some x
    · obtain ⟨gs, rfl⟩ := List.head?_eq_some_iff.mp hx
      rw [List.foldl_cons, List.foldl_cons, afterDrop_head, afterDrop_head]
      exact ih (fun g hg => hgs g (List.mem_cons_of_mem x hg)) hps'
    · rw [List.foldl_cons, List.foldl_cons, afterDrop_other hx, afterDrop_other hx, innermost_congr hgs,
        hps x List.mem_cons_self]
      exact ih hgs hps'

end

/-! ## The guards in slots -/

/-- The guards in the slots, in this order. -/
def guardsIn (h : Hierarchy α) (t : ThreadId) (slots : List String) : List Guard :=
  slots.filterMap fun slot => (h.slot? t slot).bind Holding.guard?

section
variable {h h' : Hierarchy α} {t : ThreadId} {slots : List String} {m : Move α}

theorem guardsIn_congr (hs : ∀ slot ∈ slots, h'.slot? t slot = h.slot? t slot) :
    h'.guardsIn t slots = h.guardsIn t slots :=
  List.filterMap_congr fun slot hslot => by rw [hs slot hslot]

theorem takeOut_snd (hslots : slots.Nodup) : (h.takeOut t slots).2 = h.guardsIn t slots := by
  induction slots generalizing h with
  | nil => rfl
  | cons slot slots ih =>
    obtain ⟨hnot, hslots⟩ := List.nodup_cons.mp hslots
    have hrest : (h.clearSlot t slot).guardsIn t slots = h.guardsIn t slots := by
      refine guardsIn_congr fun target htarget => ?_
      rw [slot?_clearSlot, if_neg]
      rintro rfl
      exact hnot htarget
    have htake : (h.takeOut t (slot :: slots)).2 = ((h.slot? t slot).bind Holding.guard?).toList ++
        ((h.clearSlot t slot).takeOut t slots).2 := rfl
    rw [htake, ih hslots, hrest, guardsIn, guardsIn, List.filterMap_cons]
    cases (h.slot? t slot).bind Holding.guard? <;> rfl

theorem guardsIn_le_owned (hslots : slots.Nodup) : (h.guardsIn t slots : Multiset Guard) ≤ h.owned t := by
  have howned := (quiet_takeOut t slots h).1.owned
  rw [takeOut_snd hslots, add_zero] at howned
  rw [← howned]
  exact Multiset.le_add_left _ _

theorem Reachable.nodup_guardsIn (hr : h.Reachable) (hslots : slots.Nodup) : (h.guardsIn t slots).Nodup := by
  have hlocks := Multiset.nodup_of_le (Multiset.map_le_map (guardsIn_le_owned hslots)) (hr.nodup_owned t)
  exact Multiset.coe_nodup.mp (Multiset.Nodup.of_map _ hlocks)

theorem Reachable.slots_others (hr : h.Reachable) (hm : h.move? m = some h') (ht : m.thread? ≠ some t) :
    (h'.standing t).slots = (h.standing t).slots := by
  have hne {u : ThreadId} (hu : m.thread? = some u) : u ≠ t := fun he => ht (he ▸ hu)
  cases moved hm with
  | step hs =>
    rcases step_cases hr.furnished.registries (hr.furnished.orderly _).directory hs with ⟨h₁, p, rfl, -, arranges⟩ | ⟨p, q, rfl, -⟩
    · exact arranges.others t (hne rfl)
    · rfl
  | perform _ hd => exact (arranges_attempt hd).others t (hne rfl)
  | @leak u slot _ => exact (arranges_clearSlot h u slot).others t (hne rfl)
  | _ => rfl

end

/-! ## Drops among moves of others -/

namespace Record

/-- A call has still to drop guards, or has dropped them; these acquisitions and this answer are what it comes to. The
number is that of the steps it has still to take. -/
inductive Dropping (r : Record α) (t : ThreadId) (outer : List (Phase α)) (goal : List Guard × Answer α) : Nat → Prop
  | entering {slots : List String} {panic : Option String} (distinct : slots.Nodup)
      (phase : r.state.phases t = .entering (.drop slots panic) :: outer)
      (comes : (r.state.guardsIn t slots).foldl r.state.afterDrop (r.held t, batchAnswer panic none) = goal) :
      Dropping r t outer goal ((r.state.guardsIn t slots).length + 2)
  | releasing {ps : List Guard} {a : Answer α} (phase : r.state.phases t = .releasing ps a :: outer)
      (comes : ps.foldl r.state.afterDrop (r.held t, a) = goal) : Dropping r t outer goal (ps.length + 1)
  | returned {a : Answer α} (phase : r.state.phases t = .returned a :: outer) (comes : (r.held t, a) = goal) :
      Dropping r t outer goal 0

/-- Whatever others do from here on, the thread never waits, and after `n` steps its call answers this, the thread holds
this and has this ceiling. -/
def Settles (r : Record α) (t : ThreadId) (n : Nat) (a : Answer α) (held : List Guard) (ceiling : Rank) : Prop :=
  ∀ ms r', run? next? r ms = some r' → .collect t ∉ ms →
    (ms.filter fun m => m.thread? = some t).length = n ∧
        r'.state.answer? t = some a ∧ r'.held t = held ∧ r'.state.ceiling t = ceiling ∨
      (ms.filter fun m => m.thread? = some t).length < n ∧ ∀ env, (r'.state.step? env t).isSome

section
variable {r r' : Record α} {t : ThreadId} {outer : List (Phase α)} {goal : List Guard × Answer α} {n : Nat}
variable {m : Move α} {env : Environment} {ms : List (Move α)}

/-- The acquisitions of a thread are its own affair. -/
theorem Reachable.held_others (hr : r.Reachable) (hn : r.next? m = some r') (ht : m.thread? ≠ some t) :
    r'.held t = r.held t := by
  obtain ⟨h', hm, rfl⟩ := Option.map_eq_some_iff.mp hn
  have hsame : h'.ceiling t = r.state.ceiling t := (hr.state.others hm ht).1
  have hlinked := hr.sound.linked t
  cases hr.turn hn with
  | keep _ held => exact congrFun held t
  | push u g _ below _ held ceiling =>
    rw [held]
    refine Function.update_of_ne (fun hu => ?_) _ _
    -- a new acquisition is below the ceiling
    subst hu
    rw [ceiling, Function.update_self, hlinked.eq_innermost] at hsame
    exact absurd hsame (Nat.ne_of_lt below)
  | pop u g gs _ top held ceiling =>
    rw [held]
    refine Function.update_of_ne (fun hu => ?_) _ _
    -- what the innermost acquisition has displaced is above the ceiling
    subst hu
    rw [top] at hlinked
    rw [ceiling, Function.update_self] at hsame
    exact absurd hsame (Nat.ne_of_gt hlinked.2.1)

theorem Reachable.mem_held (hr : r.Reachable) {g : Guard} (hg : g ∈ r.state.owned t) : g ∈ r.held t :=
  Multiset.mem_of_le (hr.sound.listed t) hg

theorem Reachable.mem_held_of_guardsIn (hr : r.Reachable) {slots : List String} (hslots : slots.Nodup) :
    ∀ g ∈ r.state.guardsIn t slots, g ∈ r.held t :=
  fun _ hg => hr.mem_held (Multiset.mem_of_le (guardsIn_le_owned hslots) hg)

theorem Reachable.mem_held_of_releasing (hr : r.Reachable) {ps : List Guard} {a : Answer α}
    (hp : r.state.phases t = .releasing ps a :: outer) : ∀ g ∈ ps, g ∈ r.held t := by
  intro g hg
  refine hr.mem_held (mem_owned.mpr (.inr ⟨.releasing ps a, ?_, hg⟩))
  rw [hp]
  exact List.mem_cons_self

theorem next?_step (hn : r.next? (.step t env) = some r') :
    r.state.step? env t = some r'.state ∧ r'.held t = revise r.state r'.state t (r.held t) := by
  obtain ⟨h', hm, rfl⟩ := Option.map_eq_some_iff.mp hn
  exact ⟨hm, rfl⟩

theorem stepped {h' : Hierarchy α} {gs : List Guard} (hs : r.state.step? env t = some h')
    (hheld : revise r.state h' t (r.held t) = gs) :
    ∃ r', r.next? (.step t env) = some r' ∧ r'.state = h' ∧ r'.held t = gs :=
  ⟨_, by rw [next?, move?, hs]; rfl, rfl, hheld⟩

/-- The acquisition of a lock comes before those outstanding. -/
theorem Sound.held_admitted (hs : r.Sound) {h₁ h' : Hierarchy α} {l : LockId} {g : Guard} {previous : Rank}
    (ha : r.state.admit? t l previous = some (h₁, g)) (hh : ∀ k, h'.holder? k = h₁.holder? k) :
    revise r.state h' t (r.held t) = ⟨l, r.state.ceiling t⟩ :: r.held t := by
  obtain ⟨-, hfree, -, hholder, -⟩ := admit?_eq ha
  have hheld : (r.after h').held = Function.update r.held t (⟨l, r.state.ceiling t⟩ :: r.held t) :=
    hs.held_take hfree fun k => (hh k).trans (hholder k)
  exact (congrFun hheld t).trans (Function.update_self ..)

/-- The innermost acquisition is released, whatever the call of the thread does then. -/
theorem Sound.held_release (hs : r.Sound) {x : Guard} {gs : List Guard} (hgs : r.held t = x :: gs) {b : Bool}
    {h' : Hierarchy α} (hlocks : h'.locks = (r.state.release t x b).locks) : revise r.state h' t (r.held t) = gs := by
  have hheld : (r.after h').held = Function.update r.held t gs :=
    hs.held_free hgs fun l => by rw [holder?_congr hlocks, holder?_release]
  exact (congrFun hheld t).trans (Function.update_self ..)

theorem Dropping.not_free (hd : r.Dropping t outer goal n) : r.state.isFree t = false := by
  cases hd with
  | entering _ phase _ => simp [isFree, Calls.current?_eq_of_cons phase]
  | releasing phase _ => simp [isFree, Calls.current?_eq_of_cons phase]
  | returned phase _ => simp [isFree, Calls.current?_eq_of_cons phase]

theorem Dropping.others (hd : r.Dropping t outer goal n) (hr : r.Reachable) (hn : r.next? m = some r')
    (ht : m.thread? ≠ some t) : r'.Dropping t outer goal n := by
  have hheld := hr.held_others hn ht
  obtain ⟨h', hm, rfl⟩ := Option.map_eq_some_iff.mp hn
  have hphases : h'.phases t = r.state.phases t := (hr.state.others hm ht).2.2
  have hrank : ∀ g ∈ r.held t, h'.rank g.lock = r.state.rank g.lock :=
    fun g hg => hr.state.rank_move hm (hr.sound.holder hg)
  cases hd with
  | @entering slots panic distinct phase comes =>
    have hguards : h'.guardsIn t slots = r.state.guardsIn t slots :=
      guardsIn_congr fun slot _ => slot?_congr (hr.state.slots_others hm ht) slot
    rw [← hguards]
    refine .entering distinct (hphases.trans phase) ?_
    rw [hheld, hguards]
    exact (dropped_congr hrank fun x hx => hrank x (hr.mem_held_of_guardsIn distinct x hx)).trans comes
  | releasing phase comes =>
    refine .releasing (hphases.trans phase) ?_
    rw [hheld]
    exact (dropped_congr hrank fun x hx => hrank x (hr.mem_held_of_releasing phase x hx)).trans comes
  | returned phase comes => exact .returned (hphases.trans phase) (by rw [hheld, comes])

/-- The call takes the guards out of the slots. -/
theorem Reachable.enters_drop (hr : r.Reachable) {slots : List String} {panic : Option String} (distinct : slots.Nodup)
    (phase : r.state.phases t = .entering (.drop slots panic) :: outer) (env : Environment) :
    ∃ r', r.next? (.step t env) = some r' ∧
      r'.Dropping t outer ((r.state.guardsIn t slots).foldl r.state.afterDrop (r.held t, batchAnswer panic none))
        ((r.state.guardsIn t slots).length + 1) := by
  obtain ⟨hq, hp⟩ := quiet_takeOut t slots r.state
  have hs : r.state.step? env t = some ((r.state.takeOut t slots).1.into t
      (.releasing (r.state.guardsIn t slots) (batchAnswer panic none))) := by
    rw [← takeOut_snd distinct]
    simp only [step?, Calls.current?_eq_of_cons phase, enter]
    cases panic <;> rfl
  obtain ⟨r', hn, hstate, hheld⟩ := stepped hs (hr.sound.held_keep hq.holder)
  have hphase := phases_into (hp.trans phase) (.releasing (r.state.guardsIn t slots) (batchAnswer panic none))
  refine ⟨r', hn, .releasing (by rw [hstate, hphase]) ?_⟩
  have hrank (l : LockId) : r'.state.rank l = r.state.rank l := by
    rw [hstate]
    exact rank_of_locks (locks_takeOut t slots r.state)
  rw [hheld]
  exact dropped_congr (fun g _ => hrank g.lock) fun x _ => hrank x.lock

/-- The call drops the next guard: the innermost acquisition is released, and anything else is passed over. -/
theorem Reachable.drops_next (hr : r.Reachable) {x : Guard} {ps : List Guard} {a : Answer α}
    (phase : r.state.phases t = .releasing (x :: ps) a :: outer) (env : Environment) :
    ∃ r', r.next? (.step t env) = some r' ∧
      r'.Dropping t outer ((x :: ps).foldl r.state.afterDrop (r.held t, a)) (ps.length + 1) := by
  have hc := Calls.current?_eq_of_cons phase
  have hcheck := (hr.sound.isStack t).checkRelease (hr.mem_held_of_releasing phase x List.mem_cons_self)
  rw [List.foldl_cons]
  by_cases hhead : (r.held t).head? = some x
  · obtain ⟨gs, hgs⟩ := List.head?_eq_some_iff.mp hhead
    have hs : r.state.step? env t = some ((r.state.release t x a.isPanic).into t (.releasing ps a)) := by
      simp only [step?, hc, dropNext, hcheck, mayRelease, if_pos hhead]
    obtain ⟨r', hn, hstate, hheld⟩ := stepped hs (hr.sound.held_release hgs rfl)
    refine ⟨r', hn, .releasing (by rw [hstate, phases_into]; exact phase) ?_⟩
    have hrank (l : LockId) : r'.state.rank l = r.state.rank l := by
      rw [hstate]
      exact rank_release r.state t x a.isPanic l
    rw [hheld, hgs, afterDrop_head]
    exact dropped_congr (fun g _ => hrank g.lock) fun y _ => hrank y.lock
  · have hs : r.state.step? env t = some (r.state.into t (.releasing ps (if a.isPanic then a else
        .panicked (Violation.message ⟨.release, r.state.rank x.lock, r.state.innermost (r.held t)⟩)))) := by
      simp only [step?, hc, dropNext, hcheck, mayRelease, if_neg hhead]
    obtain ⟨r', hn, hstate, hheld⟩ := stepped hs (hr.sound.held_keep fun _ => rfl)
    refine ⟨r', hn, .releasing (by rw [hstate, phases_into phase]) ?_⟩
    rw [hstate, hheld, afterDrop_other hhead]
    rfl

/-- Each step of the thread is one of these drops, and none is waited for. -/
theorem Dropping.step (hd : r.Dropping t outer goal n) (hr : r.Reachable) (env : Environment) :
    n = 0 ∧ r.state.answer? t = some goal.2 ∧ r.held t = goal.1 ∧ r.state.step? env t = none ∨
      ∃ r', r.next? (.step t env) = some r' ∧ ∃ n', n = n' + 1 ∧ r'.Dropping t outer goal n' := by
  cases hd with
  | entering distinct phase comes =>
    obtain ⟨r', hn, hd'⟩ := hr.enters_drop distinct phase env
    exact .inr ⟨r', hn, _, rfl, comes ▸ hd'⟩
  | @releasing ps a phase comes =>
    cases ps with
    | nil =>
      have hs : r.state.step? env t = some (r.state.into t (.returned a)) := by
        simp only [step?, Calls.current?_eq_of_cons phase, dropNext]
      obtain ⟨r', hn, hstate, hheld⟩ := stepped hs (hr.sound.held_keep fun _ => rfl)
      exact .inr ⟨r', hn, 0, rfl, .returned (by rw [hstate, phases_into phase]) (by rw [hheld]; exact comes)⟩
    | cons x ps =>
      obtain ⟨r', hn, hd'⟩ := hr.drops_next phase env
      exact .inr ⟨r', hn, _, rfl, comes ▸ hd'⟩
  | @returned a phase comes =>
    have hc := Calls.current?_eq_of_cons phase
    refine .inl ⟨rfl, ?_, ?_, ?_⟩
    · rw [answer?, hc, ← comes]
    · rw [← comes]
    · simp only [step?, hc]

theorem Dropping.run (hd : r.Dropping t outer goal n) (hr : r.Reachable) (hms : run? next? r ms = some r')
    (hopen : .collect t ∉ ms) :
    ∃ n', r'.Dropping t outer goal n' ∧ (ms.filter fun m => m.thread? = some t).length + n' = n := by
  induction ms generalizing r n with
  | nil =>
    cases hms
    exact ⟨n, hd, Nat.zero_add n⟩
  | cons m ms ih =>
    obtain ⟨r₁, hn, hrest⟩ := Option.bind_eq_some_iff.mp hms
    rw [List.mem_cons, not_or] at hopen
    have hr₁ : r₁.Reachable := Leads.tail m hr hn
    by_cases ht : m.thread? = some t
    · obtain ⟨h', hm, -⟩ := Option.map_eq_some_iff.mp hn
      obtain ⟨env, rfl⟩ := own_step hm hd.not_free ht (Ne.symm hopen.1)
      rcases hd.step hr env with ⟨-, -, -, hnone⟩ | ⟨r₂, hn₂, n₁, rfl, hd₁⟩
      · rw [move?, hnone] at hm
        cases hm
      · rw [hn] at hn₂
        cases hn₂
        obtain ⟨n', hd', hcount⟩ := ih hd₁ hr₁ hrest hopen.2
        refine ⟨n', hd', ?_⟩
        rw [List.filter_cons_of_pos (by simp [ht]), List.length_cons]
        omega
    · obtain ⟨n', hd', hcount⟩ := ih (hd.others hr hn ht) hr₁ hrest hopen.2
      refine ⟨n', hd', ?_⟩
      rw [List.filter_cons_of_neg (by simp [ht])]
      exact hcount

theorem run_state (hms : run? next? r ms = some r') : run? move? r.state ms = some r'.state := by
  induction ms generalizing r with
  | nil => rw [Option.some.inj hms]; rfl
  | cons m ms ih =>
    obtain ⟨r₁, hn, hms⟩ := Option.bind_eq_some_iff.mp hms
    obtain ⟨h', hm, rfl⟩ := Option.map_eq_some_iff.mp hn
    rw [run?, hm, Option.bind_some]
    exact ih hms

theorem Dropping.settles {gs : List Guard} {a : Answer α} (hd : r.Dropping t outer (gs, a) n) (hr : r.Reachable)
    (hgs : ∀ g ∈ gs, g.lock < r.state.locks.length) : r.Settles t n a gs (r.state.innermost gs) := by
  intro ms r' hms hopen
  have hr' : r'.Reachable := Leads.run hr _ hms
  obtain ⟨n', hd', hcount⟩ := hd.run hr hms hopen
  cases n' with
  | zero =>
    rcases hd'.step hr' default with ⟨-, hanswer, hheld, -⟩ | ⟨_, -, _, hzero, -⟩
    · refine .inl ⟨hcount, hanswer, hheld, ?_⟩
      rw [(hr'.sound.linked t).eq_innermost, hheld]
      exact innermost_congr fun g hg => rank_run (run_state hms) (hgs g hg)
    · cases hzero
  | succ n' =>
    refine .inr ⟨by omega, fun env => ?_⟩
    rcases hd'.step hr' env with ⟨hzero, -⟩ | ⟨_, hn, -⟩
    · cases hzero
    · obtain ⟨h', hm, -⟩ := Option.map_eq_some_iff.mp hn
      exact Option.isSome_of_eq_some hm

theorem Dropping.panics (hd : r.Dropping t outer goal n) {ps : List Guard} {a : Answer α}
    (hc : r.state.calls.current? t = some (.releasing ps a)) (ha : a.isPanic = true) : a = goal.2 := by
  cases hd with
  | entering _ phase _ =>
    rw [Calls.current?_eq_of_cons phase] at hc
    cases hc
  | releasing phase comes =>
    rw [Calls.current?_eq_of_cons phase] at hc
    cases hc
    rw [← comes, dropped_snd_of_panic ha]
  | returned phase _ =>
    rw [Calls.current?_eq_of_cons phase] at hc
    cases hc

end

end Record

/-! ## Drops while nobody else moves -/

/-- What was in the slots is gone, the acquisitions are released, the ceiling of the thread is this, and all else is as
before. -/
structure LetGo (t : ThreadId) (slots : List String) (gone : List Guard) (ceiling : Rank) (h h' : Hierarchy α) :
    Prop where
  holder : ∀ l, h'.holder? l = if l ∈ gone.map Guard.lock then none else h.holder? l
  ceiling : ∀ u, h'.ceiling u = if t = u then ceiling else h.ceiling u
  slots : ∀ u slot, h'.slot? u slot = if t = u ∧ slot ∈ slots then none else h.slot? u slot
  rank : ∀ l, h'.rank l = h.rank l
  content : ∀ l, h'.content? l = h.content? l
  registries : h'.registries = h.registries
  calls : h'.calls = h.calls

section
variable {h h' h₁ : Hierarchy α} {t : ThreadId} {x : Guard} {gs ps gone : List Guard} {a b : Answer α} {c : Rank}

theorem LetGo.refl (hc : h.ceiling t = c) : LetGo t [] [] c h h where
  holder _ := by simp
  ceiling u := by
    split
    · rename_i hu
      rw [← hu, hc]
    · rfl
  slots _ _ := by simp
  rank _ := rfl
  content _ := rfl
  registries := rfl
  calls := rfl

theorem LetGo.cons {b : Bool} (hg : LetGo t [] gone c (h.release t x b) h') : LetGo t [] (x :: gone) c h h' where
  holder l := by
    rw [hg.holder, holder?_release, List.map_cons]
    simp only [List.mem_cons]
    grind
  ceiling u := by
    rw [hg.ceiling, ceiling_release]
    split <;> rfl
  slots u slot := by rw [hg.slots, slot?_release]
  rank l := (hg.rank l).trans (rank_release ..)
  content l := (hg.content l).trans (content?_release ..)
  registries := hg.registries
  calls := hg.calls

theorem answers_dropped (hc : h.checkRelease t x = .ok ()) : (h.calling t (.releasing (x :: ps) a)).Answers t b h' ↔
    ((h.release t x a.isPanic).calling t (.releasing ps a)).Answers t b h' := by
  refine answers_of_step (answer?_calling _) fun env => ?_
  have hc' : (h.calling t (.releasing (x :: ps) a)).checkRelease t x = .ok () := hc
  simp only [step?, current?_calling, dropNext, hc']
  show some (((h.release t x a.isPanic).calling t (.releasing (x :: ps) a)).into t (.releasing ps a)) = _
  rw [into_calling]

theorem answers_passed_over {v : Violation} (hc : h.checkRelease t x = .error v) :
    (h.calling t (.releasing (x :: ps) a)).Answers t b h' ↔
      (h.calling t (.releasing ps (if a.isPanic then a else .panicked v.message))).Answers t b h' := by
  refine answers_of_step (answer?_calling _) fun env => ?_
  have hc' : (h.calling t (.releasing (x :: ps) a)).checkRelease t x = .error v := hc
  simp only [step?, current?_calling, dropNext, hc', into_calling]

/-- Dropping one after another, the thread releases what is in turn and comes to its answer. -/
theorem answers_releasing (hl : h.Linked (h.ceiling t) gs) (hps : ps.Nodup) (hmem : ∀ x ∈ ps, x ∈ gs) :
    ∃ h', (h.calling t (.releasing ps a)).Answers t (ps.foldl h.afterDrop (gs, a)).2 h' ∧
      LetGo t [] (gs.take (inTurn gs ps)) (h.innermost (gs.drop (inTurn gs ps))) h h' := by
  induction ps generalizing h gs a with
  | nil =>
    refine ⟨h, answers_refused.mpr ⟨rfl, rfl⟩, ?_⟩
    rw [inTurn_nil, List.take_zero, List.drop_zero]
    exact .refl hl.eq_innermost
  | cons x ps ih =>
    obtain ⟨hx, hps⟩ := List.nodup_cons.mp hps
    rw [List.foldl_cons]
    cases hc : h.checkRelease t x with
    | ok =>
      obtain ⟨gs, rfl⟩ := hl.eq_cons (hmem x List.mem_cons_self) (checkRelease_ok hc)
      have hrank (l : LockId) : (h.release t x a.isPanic).rank l = h.rank l := rank_release ..
      have hlinked : (h.release t x a.isPanic).Linked ((h.release t x a.isPanic).ceiling t) gs := by
        rw [ceiling_release, if_pos rfl]
        exact hl.2.2.congr fun l _ => hrank l
      obtain ⟨h', ha, hg⟩ := ih (a := a) hlinked hps fun y hy => by
        rcases List.mem_cons.mp (hmem y (List.mem_cons_of_mem x hy)) with rfl | hy'
        · exact absurd hy hx
        · exact hy'
      rw [dropped_congr (fun g _ => hrank g.lock) fun y _ => hrank y.lock] at ha
      rw [innermost_congr fun g _ => hrank g.lock] at hg
      rw [afterDrop_head, inTurn_head, List.take_succ_cons, List.drop_succ_cons]
      exact ⟨h', (answers_dropped hc).mpr ha, hg.cons⟩
    | error v =>
      obtain ⟨rfl, hne⟩ := checkRelease_error hc
      have hhead : gs.head? ≠ some x := by
        intro he
        obtain ⟨gs, rfl⟩ := List.head?_eq_some_iff.mp he
        exact hne hl.1
      rw [hl.eq_innermost] at hc
      obtain ⟨h', ha, hg⟩ := ih (a := if a.isPanic then a else .panicked _) hl hps
        fun y hy => hmem y (List.mem_cons_of_mem x hy)
      rw [afterDrop_other hhead, inTurn_other hhead]
      exact ⟨h', (answers_passed_over hc).mpr ha, hg⟩

end

/-! ## Which locks are released -/

/-- The answer when of the acquisitions of the thread the first `k` are in turn. -/
def Record.dropAnswer (r : Record α) (t : ThreadId) (slots : List String) (k : Nat) (panic : Option String) :
    Answer α :=
  batchAnswer panic (r.state.outOfTurn? (r.held t) (r.state.guardsIn t slots) k)

/-- What comes of dropping what is in the slots of a thread, when of its acquisitions the first `k` are in turn. -/
structure Record.DropsInTurn (r : Record α) (t : ThreadId) (slots : List String) (k : Nat) : Prop where
  /-- The guards are of acquisitions outstanding, each of another one. -/
  outstanding : (r.state.guardsIn t slots).Nodup ∧ ∀ x ∈ r.state.guardsIn t slots, x ∈ r.held t
  panics : (r.dropAnswer t slots k none).isPanic = true ↔ ∃ x ∈ r.state.guardsIn t slots, x ∉ (r.held t).take k
  /-- While nobody else moves. -/
  alone : ∀ panic, ∃ h', r.state.Completes t (.drop slots panic) (r.dropAnswer t slots k panic) h' ∧
    LetGo t slots ((r.held t).take k) (r.state.innermost ((r.held t).drop k)) r.state h'
  /-- Whatever others do meanwhile, the thread never waits, a panic under way is the one that it ends with, and it is
  over after a step for each guard and two more. -/
  among : ∀ panic ms r', run? Record.next? r (.start t (.drop slots panic) :: ms) = some r' → .collect t ∉ ms →
    (ms.filter fun m => m.thread? = some t).length = (r.state.guardsIn t slots).length + 2 ∧
        r'.state.answer? t = some (r.dropAnswer t slots k panic) ∧ r'.held t = (r.held t).drop k ∧
          r'.state.ceiling t = r.state.innermost ((r.held t).drop k) ∨
      (ms.filter fun m => m.thread? = some t).length < (r.state.guardsIn t slots).length + 2 ∧
        (∀ env, (r'.state.step? env t).isSome) ∧
          ∀ gs a, r'.state.calls.current? t = some (.releasing gs a) → a.isPanic = true →
            a = r.dropAnswer t slots k panic
  /-- A panic under way makes no difference to anything but the answer. -/
  alike : ∀ panic panic' ms h₁, run? move? r.state (.start t (.drop slots panic) :: ms) = some h₁ → .collect t ∉ ms →
    ∃ h₂, run? move? r.state (.start t (.drop slots panic') :: ms) = some h₂ ∧ Alike (some t) h₁ h₂ ∧
      Alike none (h₁.collect t) (h₂.collect t)

section
variable {h h₁ : Hierarchy α} {r r' : Record α} {t : ThreadId} {slots : List String} {panic : Option String}
variable {gs ps gone : List Guard} {a b : Answer α} {c : Rank} {k : Nat} {ms : List (Move α)}

theorem batchAnswer_isPanic_iff : (batchAnswer (α := α) none (h.outOfTurn? gs ps k)).isPanic = true ↔
    ∃ x ∈ ps, x ∉ gs.take k := by
  have hfind : (∃ x ∈ ps, x ∉ gs.take k) ↔ (ps.find? fun x => x ∉ gs.take k).isSome = true := by
    simp [List.find?_isSome]
  rw [hfind, outOfTurn?]
  cases ps.find? fun x => x ∉ gs.take k with
  | none => simp [batchAnswer, Answer.isPanic]
  | some x => simp [batchAnswer, Answer.isPanic]

theorem LetGo.takeOut (hg : LetGo t [] gone c (h.takeOut t slots).1 h₁) : LetGo t slots gone c h h₁ := by
  have hlocks := locks_takeOut t slots h
  have harranges := arranges_takeOut t slots h
  refine ⟨fun l => ?_, fun u => ?_, fun u slot => ?_, fun l => ?_, fun l => ?_, ?_, ?_⟩
  · rw [hg.holder, (quiet_takeOut t slots h).1.holder]
  · rw [hg.ceiling, (quiet_takeOut t slots h).1.ceiling]
  · rw [hg.slots, slot?_takeOut]
    simp
  · rw [hg.rank, rank_of_locks hlocks]
  · rw [hg.content, content?_congr hlocks]
  · rw [hg.registries, harranges.registries]
  · rw [hg.calls, harranges.calls]

theorem completes_drop_iff (hfree : h.isFree t = true) (hfull : ∀ slot ∈ slots, (h.slot? t slot).isSome = true)
    (hslots : slots.Nodup) : h.Completes t (.drop slots panic) b h₁ ↔
      ((h.takeOut t slots).1.calling t (.releasing (h.guardsIn t slots) (batchAnswer panic none))).Answers t b h₁ := by
  have hadmits : h.admits t (.drop slots panic) = true := List.all_eq_true.mpr hfull
  have hcalling : (h.takeOut t slots).1.inCalls (h.calls.start t (.entering (.drop slots panic))) =
      (h.takeOut t slots).1.calling t (.entering (.drop slots panic)) := by
    rw [calling, (arranges_takeOut t slots h).calls]
  rw [completes_iff hfree hadmits]
  refine answers_of_step (answer?_calling _) fun env => ?_
  simp only [step?, current?_calling, enter]
  rw [calling, takeOut_inCalls, takeOut_snd hslots, hcalling, into_calling]
  cases panic <;> rfl

theorem Record.Reachable.dropping (hr : r.Reachable) (hslots : slots.Nodup)
    (hn : r.next? (.start t (.drop slots panic)) = some r') : r'.state.locks = r.state.locks ∧
      r'.Dropping t (r.state.phases t) ((r.held t).drop (inTurn (r.held t) (r.state.guardsIn t slots)),
        r.dropAnswer t slots (inTurn (r.held t) (r.state.guardsIn t slots)) panic)
        ((r.state.guardsIn t slots).length + 2) := by
  obtain ⟨h', hm, rfl⟩ := Option.map_eq_some_iff.mp hn
  cases moved hm with
  | start hfree hadmits =>
    have hheld : revise r.state (r.state.calling t (.entering (.drop slots panic))) t (r.held t) = r.held t :=
      hr.sound.held_keep fun _ => rfl
    refine ⟨rfl, .entering hslots (phases_calling r.state t _) ?_⟩
    refine (congrArg (fun gs => List.foldl _ (gs, _) _) hheld).trans ?_
    exact dropped_eq panic (hr.state.nodup_guardsIn hslots)

theorem Record.Reachable.among (hr : r.Reachable) (hslots : slots.Nodup)
    (hms : run? Record.next? r (.start t (.drop slots panic) :: ms) = some r') (hopen : .collect t ∉ ms) (hk :
      inTurn (r.held t) (r.state.guardsIn t slots) = k) :
    (ms.filter fun m => m.thread? = some t).length = (r.state.guardsIn t slots).length + 2 ∧
        r'.state.answer? t = some (r.dropAnswer t slots k panic) ∧ r'.held t = (r.held t).drop k ∧
          r'.state.ceiling t = r.state.innermost ((r.held t).drop k) ∨
      (ms.filter fun m => m.thread? = some t).length < (r.state.guardsIn t slots).length + 2 ∧
        (∀ env, (r'.state.step? env t).isSome) ∧
          ∀ gs a, r'.state.calls.current? t = some (.releasing gs a) → a.isPanic = true →
            a = r.dropAnswer t slots k panic := by
  subst hk
  obtain ⟨r₁, hn, hms⟩ := Option.bind_eq_some_iff.mp hms
  have hr₁ : r₁.Reachable := Leads.tail _ hr hn
  obtain ⟨hlocks, hd⟩ := hr.dropping hslots hn
  have settles := hd.settles hr₁ fun g hg => by
    rw [hlocks]
    exact lt_of_holder? (hr.sound.holder (List.mem_of_mem_drop hg))
  rw [innermost_congr fun g _ => rank_of_locks hlocks] at settles
  refine (settles ms r' hms hopen).imp_right ?_
  rintro ⟨hcount, hgoes⟩
  refine ⟨hcount, hgoes, fun gs a hc hpanic => ?_⟩
  obtain ⟨n, hd', -⟩ := hd.run hr₁ hms hopen
  exact hd'.panics hc hpanic

theorem Record.Reachable.alone (hr : r.Reachable) (hfree : r.state.isFree t = true)
    (hfull : ∀ slot ∈ slots, (r.state.slot? t slot).isSome = true) (hslots : slots.Nodup) (panic : Option String)
    (hk : inTurn (r.held t) (r.state.guardsIn t slots) = k) :
    ∃ h', r.state.Completes t (.drop slots panic) (r.dropAnswer t slots k panic) h' ∧
      LetGo t slots ((r.held t).take k) (r.state.innermost ((r.held t).drop k)) r.state h' := by
  subst hk
  have hrank (l : LockId) : (r.state.takeOut t slots).1.rank l = r.state.rank l :=
    rank_of_locks (locks_takeOut t slots r.state)
  have hlinked : (r.state.takeOut t slots).1.Linked ((r.state.takeOut t slots).1.ceiling t) (r.held t) := by
    rw [(quiet_takeOut t slots r.state).1.ceiling]
    exact (hr.sound.linked t).congr fun l _ => hrank l
  have hnodup := hr.state.nodup_guardsIn (t := t) hslots
  obtain ⟨h', ha, hg⟩ := answers_releasing (a := batchAnswer panic none) hlinked hnodup (hr.mem_held_of_guardsIn hslots)
  rw [dropped_congr (fun g _ => hrank g.lock) fun x _ => hrank x.lock, dropped_eq panic hnodup] at ha
  rw [innermost_congr fun g _ => hrank g.lock] at hg
  exact ⟨h', (completes_drop_iff hfree hfull hslots).mpr ha, hg.takeOut⟩

theorem alike_drops {panic' : Option String} (hms : run? move? h (.start t (.drop slots panic) :: ms) = some h₁)
    (hopen : .collect t ∉ ms) : ∃ h₂, run? move? h (.start t (.drop slots panic') :: ms) = some h₂ ∧
      Alike (some t) h₁ h₂ ∧ Alike none (h₁.collect t) (h₂.collect t) := by
  have started : Option.Rel (Alike (some t)) (h.move? (.start t (.drop slots panic)))
      (h.move? (.start t (.drop slots panic'))) := (Alike.refl h).dropped t slots panic panic'
  have runs := rel_bind started fun _ _ ha => ha.run? hopen
  rw [run?] at hms ⊢
  rw [hms] at runs
  generalize (h.move? (.start t (.drop slots panic'))).bind (run? move? · ms) = o at runs ⊢
  cases runs with
  | some ha => exact ⟨_, rfl, ha, ha.closed⟩

end

/-- **A batch of drops releases what is in turn.** Of the acquisitions outstanding, innermost first, as many are
released as occur in their order among the guards that are dropped; all else stays held. -/
theorem batch_drop_releases_in_turn {r : Record α} (hr : r.Reachable) {t : ThreadId} (hfree : r.state.isFree t = true)
    {slots : List String} (hslots : slots.Nodup) (hfull : ∀ slot ∈ slots, (r.state.slot? t slot).isSome = true) :
    ∃ k, IsGreatest {k | k ≤ (r.held t).length ∧ ((r.held t).take k).Sublist (r.state.guardsIn t slots)} k ∧
      r.DropsInTurn t slots k := by
  refine ⟨inTurn (r.held t) (r.state.guardsIn t slots), isGreatest_inTurn _ _, ?_⟩
  exact {
    outstanding := ⟨hr.state.nodup_guardsIn hslots, hr.mem_held_of_guardsIn hslots⟩
    panics := batchAnswer_isPanic_iff
    alone := fun panic => hr.alone hfree hfull hslots panic rfl
    among := fun panic ms r' hms hopen => hr.among hslots hms hopen rfl
    alike := fun panic panic' ms h₁ hms hopen => alike_drops hms hopen }

/-- A thread holds five locks, the guard of one of them is gone, and it has a handle that holds nothing. -/
def fiveDeep : List (Move Nat) :=
  [.addLock 50 0, .addLock 40 0, .addLock 30 0, .addLock 20 0, .addLock 10 0] ++ Move.taking 1 0 "a" ++
    Move.taking 1 1 "b" ++ Move.taking 1 2 "c" ++ Move.taking 1 3 "d" ++ Move.taking 1 4 "e" ++ Move.dropping 1 "b" ++
    [.perform 1 (.defer 1 "idle")]

def wrongOrder : List String := ["c", "e", "idle", "d", "a"]

theorem batch_drop_releases_in_turn_wrong_order : ∃ r : Record Nat, r.Reachable ∧
    r.held 1 = [⟨4, 20⟩, ⟨3, 30⟩, ⟨2, 40⟩, ⟨1, 50⟩, ⟨0, Rank.unbounded⟩] ∧
    r.state.guardsIn 1 wrongOrder = [⟨2, 40⟩, ⟨4, 20⟩, ⟨3, 30⟩, ⟨0, Rank.unbounded⟩] ∧
    r.dropAnswer 1 wrongOrder 2 none = .panicked (Violation.message ⟨.release, 30, 10⟩) ∧
    r.DropsInTurn 1 wrongOrder 2 := by
  let sees (r : Record Nat) := (r.held 1, r.state.guardsIn 1 wrongOrder, r.state.isFree 1,
    wrongOrder.all fun slot => (r.state.slot? 1 slot).isSome)
  have hrun : (run? Record.next? {} fiveDeep).map sees =
      some ([⟨4, 20⟩, ⟨3, 30⟩, ⟨2, 40⟩, ⟨1, 50⟩, ⟨0, Rank.unbounded⟩],
        [⟨2, 40⟩, ⟨4, 20⟩, ⟨3, 30⟩, ⟨0, Rank.unbounded⟩], true, true) := by decide +kernel
  have hrefused : (run? Record.next? {} fiveDeep).map (fun r => r.state.outOfTurn? (r.held 1)
      (r.state.guardsIn 1 wrongOrder) 2) = some (some ⟨.release, 30, 10⟩) := by decide +kernel
  obtain ⟨r, hr, hsees⟩ := Option.map_eq_some_iff.mp hrun
  rw [hr, Option.map_some, Option.some.injEq] at hrefused
  simp only [sees, Prod.mk.injEq] at hsees
  obtain ⟨hheld, hguards, hfree, hfull⟩ := hsees
  have hr : r.Reachable := Leads.refl.run _ hr
  obtain ⟨k, hk, hdrops⟩ := batch_drop_releases_in_turn hr hfree (by decide) (List.all_eq_true.mp hfull)
  obtain rfl : k = 2 := by
    rw [hk.unique (isGreatest_inTurn _ _), hheld, hguards]
    decide
  refine ⟨r, hr, hheld, hguards, ?_, hdrops⟩
  rw [Record.dropAnswer, hrefused, batchAnswer]

end Interlock.Hierarchy
