import Interlock.Proofs.Handles.Changes
import Interlock.Proofs.Hierarchy.HeldStack

/-!
# A handle is a lock with an optional guard

`Course` is the automaton of a handle: which state it is in after which notes. A handle is unlocked just where it has no
guard (`told_move`), and one that has its lock is at or above the ceiling of its thread, so that no call takes that lock
again (`refuses`). What else a handle remembers makes no difference to anybody: where every handle is replaced by an
optional guard, every run goes the same way (`handle_is_optional_guard`).
-/

namespace Interlock.Hierarchy

variable {α : Type}

/-! ## The states of a handle -/

/-- The notes on a handle, the latest first, and the state that it is in. -/
inductive Course : List Note → Handle.State → Prop
  | deferred : Course [.deferred] .unlocked
  | acquired : Course [.acquired] .locked
  | adopted : Course [.adopted] .adopted
  | locked {ns : List Note} : Course ns .unlocked → Course (.locked :: ns) .locked
  | unlocked {ns : List Note} {s : Handle.State} : Course ns s → Course (.unlocked :: ns) .unlocked

namespace Course

variable {ns : List Note} {s : Handle.State}

/-- Adopted is from the adoption on until the handle is unlocked. -/
theorem adopted_iff (hc : Course ns s) : s = .adopted ↔ .adopted ∈ ns ∧ .unlocked ∉ ns := by
  induction hc with
  | deferred => simp
  | acquired => simp
  | adopted => simp
  | locked _ ih => simpa using ih
  | unlocked _ _ => simp

theorem locked_iff (hc : Course ns s) :
    s = .locked ↔ ns.head? = some .acquired ∨ ns.head? = some .locked := by
  cases hc <;> simp

end Course

/-- A handle is as its notes tell, and unlocked just if it has no guard. -/
structure Handle.Told (ns : List Note) (k : Handle) : Prop where
  course : Course ns k.state
  unlocked : k.state = .unlocked ↔ k.guard = none

theorem told_change {x : Option Holding} {n : Option Note} {ns : List Note} {k' : Handle}
    (hc : Change x n (some (.handle k'))) (hx : ∀ k, x = some (.handle k) → k.Told ns) : k'.Told (written ns n) := by
  cases hc with
  | same _ => exact hx k' rfl
  | deferred l => exact ⟨.deferred, by simp⟩
  | acquired g => exact ⟨.acquired, by simp⟩
  | adopted _ => exact ⟨.adopted, by simp⟩
  | @locked k g hk =>
    have told := hx k rfl
    have course := told.course
    rw [told.unlocked.mpr hk] at course
    exact ⟨.locked course, by simp⟩
  | idle hk =>
    have told := hx k' rfl
    refine ⟨?_, told.unlocked⟩
    rw [told.unlocked.mpr hk]
    exact .unlocked told.course
  | @released k g _ => exact ⟨.unlocked (hx k rfl).course, by simp⟩

def Diary.Told (d : Diary α) : Prop :=
  ∀ t slot k, d.state.slot? t slot = some (.handle k) → k.Told (d.notes t slot)

theorem told_move {d d' : Diary α} {m : Move α} (hr : Reachable d.state) (hd : d.Told) (hm : d.next? m = some d') :
    d'.Told := by
  intro t slot k hs
  obtain ⟨h, hmove, rfl⟩ := Option.map_eq_some_iff.mp hm
  have hc := change_move hr hmove t slot
  rw [hs] at hc
  exact told_change hc fun k' hk => hd t slot k' hk

/-! ## A handle that holds its lock -/

def Handle.isLocked (k : Handle) : Bool := k.guard.isSome

/-- What is lent out of the lock of a handle, to be read or to be changed. -/
def get? (h : Hierarchy α) (k : Handle) : Option (Content α) := k.guard.bind fun g => h.content? g.lock

def refusal (h : Hierarchy α) (t : ThreadId) (l : LockId) : Violation := ⟨.acquire, h.rank l, h.ceiling t⟩

/-- No call takes the lock once more, and the guard is not overwritten: after any move there is that guard in the slot or
none. -/
structure Refuses (h : Hierarchy α) (t : ThreadId) (slot : String) (k : Handle) : Prop where
  tryLock : h.isFree t = true →
    h.perform? t (.tryLock k.lock (.handle slot)) = some (h, .violated (h.refusal t k.lock))
  lock : ∀ aim env, h.calls.current? t = some (.entering (.lock k.lock aim)) →
    h.step? env t = some (h.into t (.releasing [] (.violated (h.refusal t k.lock))))
  returns : ∀ a env, h.calls.current? t = some (.releasing [] a) → h.step? env t = some (h.into t (.returned a))
  waits : ∀ l previous, h.calls.current? t ≠ some (.waiting l previous (.hold (.handle slot)))
  overwritten : ∀ m h₁, h.move? m = some h₁ → ∀ y, h₁.slot? t slot = some y → y.guard? = none ∨ y.guard? = k.guard

section
variable {h h' : Hierarchy α} {t : ThreadId} {slot : String} {k : Handle} {g : Guard}

theorem mem_owned_of_handle (hs : h.slot? t slot = some (.handle k)) (hg : k.guard = some g) : g ∈ h.owned t := by
  refine mem_owned.mpr (.inl ⟨slot, _, hs, ?_⟩)
  simp [Holding.guards, Holding.guard?, hg]

theorem Reachable.holder_handle (hr : Reachable h) (hs : h.slot? t slot = some (.handle k)) (hg : k.guard = some g) :
    h.holder? k.lock = some t := by
  have hlock : g.lock = k.lock := (hr.tidy t).matched slot _ hs g hg
  rw [← hlock]
  exact hr.holder (mem_owned_of_handle hs hg)

/-- The ceiling of a thread is at or below the rank of what it holds. -/
theorem Reachable.checkAcquire_handle (hr : Reachable h) (hs : h.slot? t slot = some (.handle k))
    (hg : k.guard = some g) : h.checkAcquire t k.lock = .error (h.refusal t k.lock) :=
  if_pos (hr.ceiling_le_rank (hr.holder_handle hs hg)).1

theorem Change.guard? {x y : Option Holding} {n : Option Note} (hc : Change x n y) (hx : x.bind Holding.guard? = some g) :
    y.bind Holding.guard? = none ∨ y.bind Holding.guard? = some g := by
  cases hc with
  | same _ => exact .inr hx
  | refused v g => exact .inr hx
  | recovered v g => exact .inr hx
  | detached hk => exact .inr (hk.symm.trans hx)
  | adopted hcases =>
    rcases hcases with rfl | rfl
    · cases hx
    · exact .inr hx
  | locked g hk => simp [Holding.guard?, hk] at hx
  | idle hk => simp [Holding.guard?, hk] at hx
  | filled g => cases hx
  | acquired g => cases hx
  | _ => exact .inl rfl

theorem Reachable.refuses (hr : Reachable h) (hs : h.slot? t slot = some (.handle k)) (hg : k.guard = some g) :
    h.Refuses t slot k where
  tryLock hfree := by
    have hacc : h.accepts t k.lock (.handle slot) = true := by simp only [accepts, hs, decide_true]
    have hrefused := hr.checkAcquire_handle hs hg
    simp only [perform?, if_pos hfree, attempt?, if_pos hacc, tryLock, hrefused]
  lock aim env hc := by
    have hrefused := hr.checkAcquire_handle hs hg
    simp only [step?, hc, enter, approach, hrefused]
  returns a env hc := by simp only [step?, hc, dropNext]
  waits l previous hc := by
    have hready := (hr.poised t _ _ (phases_eq_cons hc)).1
    have hacc := (hr.tidy t).aimed _ l (.handle slot) hc rfl
    simp only [accepts, hs, decide_eq_true_eq] at hacc
    have hle := (hr.ceiling_le_rank (hr.holder_handle hs hg)).1
    obtain ⟨rfl, hlt⟩ := hready
    rw [← hacc] at hlt
    exact absurd hlt (Nat.not_lt.mpr hle)
  overwritten m h₁ hm y hy := by
    have hc := change_move hr hm t slot
    rw [hs, hy] at hc
    rw [hg]
    exact hc.guard? hg

/-- A guard that was taken out to be released, and could not be, is back. -/
theorem unlockHandle_violated {v : Violation} (hu : h.unlockHandle t slot k = (h', .violated v)) : h' = h := by
  unfold unlockHandle at hu
  split at hu
  · cases hu
  · split at hu
    · cases hu
    · exact (Prod.mk.inj hu).1.symm

theorem Reachable.get?_handle (hr : Reachable h) (hs : h.slot? t slot = some (.handle k)) :
    k.isLocked = false ↔ h.get? k = none := by
  cases hg : k.guard with
  | none => simp [Handle.isLocked, get?, hg]
  | some g =>
    have hholder := hr.holder (mem_owned_of_handle hs hg)
    have hcontent : h.content? g.lock ≠ none := by
      intro hnone
      rw [holder?_of_content? hnone] at hholder
      cases hholder
    simpa [Handle.isLocked, get?, hg] using hcontent

end

/-! ## The whole of it -/

/-- What is true of a handle in a slot, by its notes and by what calls on it come to. -/
structure Diary.Account (d : Diary α) (t : ThreadId) (slot : String) (k : Handle) : Prop where
  unlocked : k.state = .unlocked ↔ k.isLocked = false
  nothing : k.isLocked = false ↔ d.state.get? k = none
  adopted : k.state = .adopted ↔ .adopted ∈ d.notes t slot ∧ .unlocked ∉ d.notes t slot
  locked : k.state = .locked ↔
    (d.notes t slot).head? = some .acquired ∨ (d.notes t slot).head? = some .locked
  rejected : ∀ v h, d.state.perform? t (.unlockHandle slot) = some (h, .violated v) → h = d.state
  held : k.isLocked = true → d.state.Refuses t slot k

theorem Diary.Told.account {d : Diary α} (hd : d.Told) (hr : Reachable d.state) {t : ThreadId} {slot : String}
    {k : Handle} (hs : d.state.slot? t slot = some (.handle k)) : d.Account t slot k where
  unlocked := by
    rw [(hd t slot k hs).unlocked, Handle.isLocked]
    simp
  nothing := hr.get?_handle hs
  adopted := (hd t slot k hs).course.adopted_iff
  locked := (hd t slot k hs).course.locked_iff
  rejected v h hp := by
    simp only [perform?, attempt?, hs] at hp
    split at hp
    · exact unlockHandle_violated (Option.some.inj hp)
    · cases hp
  held hlocked := by
    obtain ⟨g, hg⟩ := Option.isSome_iff_exists.mp hlocked
    exact hr.refuses hs hg

theorem account_run {d : Diary α} {p : Plain α} (hd : d.Told) (hr : Reachable d.state) (ha : Replaced d.state p)
    (ms : List (Move α)) : Option.Rel (fun d p => d.Told ∧ Reachable d.state ∧ Replaced d.state p)
      (run? Diary.next? d ms) (run? Plain.move? p ms) := by
  induction ms generalizing d p with
  | nil => exact .some ⟨hd, hr, ha⟩
  | cons m ms ih =>
    have moved := Mirrors.move? ha hr m
    simp only [run?, Diary.next?]
    generalize hh : d.state.move? m = x at moved ⊢
    generalize p.move? m = y at moved ⊢
    cases moved with
    | none => exact .none
    | some hx =>
      refine ih (told_move (m := m) hr hd ?_) (hr.tail m hh) hx
      rw [Diary.next?, hh, Option.map_some]

/-- **A handle is a lock with an optional guard.** Any run can be made with handles just if it can be made with optional
guards in their place. Then all ceilings, all locks and all that the slots hold are the same, and so is what any next move
tells; and each handle is in the state that its notes and its guard say, and while it holds its lock it takes no other
guard. -/
theorem handle_is_optional_guard (ms : List (Move α)) :
    Option.Rel (fun d p => (∀ t slot k, d.state.slot? t slot = some (.handle k) → d.Account t slot k) ∧
        Replaced d.state p ∧ ∀ m, p.reply m = d.state.reply m)
      (run? Diary.next? {} ms) (run? Plain.move? {} ms) := by
  have empty : ({} : Diary α).Told := fun t slot k hs => by cases hs
  have ran := account_run empty .refl replaced_empty ms
  generalize run? Diary.next? {} ms = x at ran ⊢
  generalize run? Plain.move? {} ms = y at ran ⊢
  cases ran with
  | none => exact .none
  | some hx =>
    obtain ⟨told, hr, ha⟩ := hx
    exact .some ⟨fun t slot k hs => told.account hr hs, ha, fun m => ha.reply m⟩

/-- A handle that took over a guard cannot be unlocked below another one, which a handle of another thread tries to
take. -/
def adoptedAndKept : List (Move Nat) :=
  [.addLock 20 7, .addLock 10 8] ++ Move.taking 1 0 "guard" ++
    [.perform 1 (.adopt "guard" "outer"), .perform 1 (.tryLock 1 (.newHandle "inner")),
      .perform 1 (.unlockHandle "outer"), .perform 2 (.defer 1 "other"), .perform 2 (.tryLock 1 (.handle "other"))]

theorem handle_is_optional_guard_adopted_and_kept : ∃ (d : Diary Nat) (p : Plain Nat),
    run? Diary.next? {} adoptedAndKept = some d ∧ run? Plain.move? {} adoptedAndKept = some p ∧
    d.notes 1 "outer" = [.adopted] ∧ d.Account 1 "outer" ⟨0, .adopted, some ⟨0, Rank.unbounded⟩⟩ ∧
    d.notes 1 "inner" = [.acquired] ∧ d.Account 1 "inner" ⟨1, .locked, some ⟨1, 20⟩⟩ ∧
    d.notes 2 "other" = [.deferred] ∧ d.Account 2 "other" ⟨1, .unlocked, none⟩ ∧
    p.state.slot? 1 "outer" = some (.guard ⟨0, Rank.unbounded⟩) ∧ p.state.ceiling 1 = 10 ∧
    p.state.slot? 2 "other" = none ∧ p.options.get? (2, "other") = some 1 ∧
    p.reply (.perform 1 (.unlockHandle "outer")) = .outcome (.violated ⟨.release, 20, 10⟩) := by
  have hrun : (run? Diary.next? {} adoptedAndKept).map (fun d =>
      (d.state.slot? 1 "outer", d.state.slot? 1 "inner", d.state.slot? 2 "other",
        d.notes 1 "outer", d.notes 1 "inner", d.notes 2 "other", d.state.ceiling 1,
        d.state.reply (.perform 1 (.unlockHandle "outer")))) =
      some (some (.handle ⟨0, .adopted, some ⟨0, Rank.unbounded⟩⟩), some (.handle ⟨1, .locked, some ⟨1, 20⟩⟩),
        some (.handle ⟨1, .unlocked, none⟩), [.adopted], [.acquired], [.deferred], 10,
        .outcome (.violated ⟨.release, 20, 10⟩)) := by rfl
  obtain ⟨d, hd, he⟩ := Option.map_eq_some_iff.mp hrun
  simp only [Prod.mk.injEq] at he
  obtain ⟨houter, hinner, hother, houter', hinner', hother', hceiling, hreply⟩ := he
  have related := handle_is_optional_guard adoptedAndKept
  rw [hd] at related
  generalize hp : run? Plain.move? {} adoptedAndKept = y at related
  cases related with
  | @some _ p hx =>
    obtain ⟨account, ha, replies⟩ := hx
    have hslot := (houter ▸ ha.slots 1 "outer").of_handle
    have hfree := (hother ▸ ha.slots 2 "other").of_handle
    exact ⟨d, p, hd, rfl, houter', account _ _ _ houter, hinner', account _ _ _ hinner, hother', account _ _ _ hother,
      hslot.1, (ha.ceiling 1).trans hceiling, hfree.1, hfree.2, (replies _).trans hreply⟩

end Interlock.Hierarchy
