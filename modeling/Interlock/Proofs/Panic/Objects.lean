import Interlock.Cache
import Interlock.Stack
import Interlock.Proofs.Cells.Values
import Interlock.Proofs.Panic.Calls

/-!
# Stacks, caches and cells after a panic

How a callback ends decides only what its call is to answer, and for a stack or a cell also what the mutex remembers.
Nothing ever reads the latter. So the states after two different ends are alike, alike states make the same steps, and
they stay alike.
-/

namespace Interlock

variable {α : Type} {mark : Option ThreadId} {t u : ThreadId}

/-! ## Cells -/

namespace Cells

/-- Two calls of which both have only to let a cell go, or have answered. -/
inductive Phase.Ends : Phase α → Phase α → Prop
  | leaving (i : CellId) (b b' : Bool) (a a' : Answer α) : Ends (.leaving i b a) (.leaving i b' a')
  | returned (a a' : Answer α) : Ends (.returned a) (.returned a')

/-- The same values, held by the same threads, and the same calls but for what the marked one answers. -/
structure Alike (mark : Option ThreadId) (c c' : Cells α) : Prop where
  value : ∀ i, c'.value? i = c.value? i
  holder : ∀ i, c'.holder? i = c.holder? i
  calls : Calls.Alike Phase.Ends mark c.calls c'.calls

namespace Alike

variable {c c' : Cells α}

theorem refl (c : Cells α) : Alike none c c := ⟨fun _ => rfl, fun _ => rfl, .same _⟩

theorem length (ha : Alike mark c c') : c'.cells.length = c.cells.length := by
  refine eq_of_forall_lt_iff fun i => ?_
  rw [← value?_isSome, ha.value, value?_isSome]

theorem into (ha : Alike mark c c') (hu : mark ≠ some u) (p : Phase α) : Alike mark (c.into u p) (c'.into u p) :=
  ⟨ha.value, ha.holder, ha.calls.move hu p⟩

theorem release (ha : Alike mark c c') (i : CellId) (b b' : Bool) : Alike mark (c.release i b) (c'.release i b') where
  value j := by rw [value?_release, value?_release, ha.value]
  holder j := by rw [holder?_release, holder?_release, ha.holder]
  calls := ha.calls

theorem setValue (ha : Alike mark c c') (i : CellId) (v : α) : Alike mark (c.setValue i v) (c'.setValue i v) where
  value j := by rw [value?_setValue, value?_setValue, ha.value]
  holder j := by rw [holder?_setValue, holder?_setValue, ha.holder]
  calls := ha.calls

theorem add (ha : Alike mark c c') (v : α) : Alike mark (c.add v).1 (c'.add v).1 where
  value j := by rw [value?_add, value?_add, ha.value, ha.length]
  holder j := by rw [holder?_add, holder?_add, ha.holder]
  calls := ha.calls

theorem acquire? (ha : Alike mark c c') (t : ThreadId) (i : CellId) :
    Option.Rel (Alike mark) (c.acquire? t i) (c'.acquire? t i) := by
  rw [acquire?_eq, acquire?_eq, ha.value, ha.holder]
  split
  · refine .some ⟨fun j => ?_, fun j => ?_, ha.calls⟩
    · rw [value?_hold, value?_hold, ha.value]
    · rw [holder?_hold, holder?_hold, ha.value, ha.holder]
  · exact .none

/-- Take a cell and go on. -/
theorem acquireInto (ha : Alike mark c c') (hu : mark ≠ some u) (i : CellId) (p : Phase α) :
    Option.Rel (Alike mark) ((c.acquire? u i).map (·.into u p)) ((c'.acquire? u i).map (·.into u p)) :=
  rel_map (ha.acquire? u i) fun _ _ hs => hs.into hu p

theorem start? (ha : Alike mark c c') (hu : mark ≠ some u) (r : Request) :
    Option.Rel (Alike mark) (c.start? u r) (c'.start? u r) := by
  unfold Cells.start?
  rw [ha.calls.current? hu]
  have started := ha.calls.start hu (.entering r)
  split
  · exact .some ⟨ha.value, ha.holder, started⟩
  · exact .some ⟨ha.value, ha.holder, started⟩
  · exact .none

theorem enter? (ha : Alike mark c c') (hu : mark ≠ some u) (r : Request) :
    Option.Rel (Alike mark) (c.enter? u r) (c'.enter? u r) := by
  cases r with
  | withLock i => exact ha.acquireInto hu i _
  | snapshot i => exact .some (ha.into hu _)
  | sameValue i j =>
    simp only [Cells.enter?]
    split <;> exact .some (ha.into hu _)
  | swap i j =>
    simp only [Cells.enter?]
    split
    · exact .some (ha.into hu _)
    · exact ha.acquireInto hu _ _

theorem step? [BEq α] (ha : Alike mark c c') (u : ThreadId) :
    Option.Rel (Alike mark) (c.step? u) (c'.step? u) := by
  unfold Cells.step?
  -- the marked call has only the cell to let go; any other call is the same in both states
  rcases ha.calls.marked_or u with ⟨rfl, p, p', hp, hp', ends⟩ | ⟨hu, same⟩
  · rw [hp, hp']
    cases ends with
    | leaving i b b' a a' =>
      have released := ha.release i b b'
      exact .some ⟨released.value, released.holder, released.calls.advance (.returned a a')⟩
    | returned _ _ => exact .none
  · rw [same]
    cases c.calls.current? u with
    | none => exact .none
    | some p =>
      cases p with
      | entering r => exact ha.enter? hu r
      | approaching i q =>
        simp only [ha.value]
        exact rel_bind (rel_refl _) fun v _ hv => hv ▸ ha.acquireInto hu i _
      | copied i v q => cases q <;> exact .some ((ha.release i false false).into hu _)
      | comparing v w => exact .some (ha.into hu _)
      | halfway i j =>
        simp only [ha.value]
        refine rel_bind (rel_refl _) fun v _ hv => rel_bind (rel_refl _) fun w _ hw => ?_
        subst hv hw
        exact rel_bind (ha.acquire? u j) fun _ _ hs => .some (((hs.setValue i w).setValue j v).into hu _)
      | exchanged i j => exact .some ((ha.release j false false).into hu _)
      | leaving i b a => exact .some ((ha.release i b b).into hu _)
      | «using» _ => exact .none
      | returned _ => exact .none

theorem held?_marked (ha : Alike (some t) c c') : c.held? t = none ∧ c'.held? t = none := by
  obtain ⟨p, p', hp, hp', ends⟩ := ha.calls.marked
  rw [Cells.held?, Cells.held?, hp, hp']
  cases ends <;> exact ⟨rfl, rfl⟩

theorem held? (ha : Alike mark c c') (u : ThreadId) : c'.held? u = c.held? u := by
  by_cases hu : mark = some u
  · subst hu
    rw [ha.held?_marked.1, ha.held?_marked.2]
  · rw [Cells.held?, ha.calls.current? hu, Cells.held?]

theorem answer? (ha : Alike mark c c') (hu : mark ≠ some u) : c'.answer? u = c.answer? u := by
  rw [Cells.answer?, Cells.answer?, ha.calls.current? hu]

theorem answered (ha : Alike (some t) c c') : Option.Rel (fun _ _ => True) (c.answer? t) (c'.answer? t) := by
  obtain ⟨p, p', hp, hp', ends⟩ := ha.calls.marked
  rw [Cells.answer?, Cells.answer?, hp, hp']
  cases ends with
  | leaving i b b' a a' => exact .none
  | returned a a' => exact .some trivial

theorem collect (ha : Alike mark c c') (hu : mark ≠ some u) : Alike mark (c.collect u) (c'.collect u) :=
  ⟨ha.value, ha.holder, ha.calls.finish hu⟩

theorem closed (ha : Alike (some t) c c') : Alike none (c.collect t) (c'.collect t) :=
  ⟨ha.value, ha.holder, ha.calls.closed⟩

theorem end? (ha : Alike mark c c') (u : ThreadId) (e : Ending) :
    Option.Rel (Alike mark) (c.end? u e) (c'.end? u e) := by
  unfold Cells.end?
  rcases ha.calls.marked_or u with ⟨rfl, p, p', hp, hp', ends⟩ | ⟨hu, same⟩
  · rw [hp, hp']
    cases ends <;> exact .none
  · rw [same]
    split
    · exact .some (ha.into hu _)
    · exact .none

/-- A callback ends in two ways. -/
theorem ended (ha : Alike none c c') (t : ThreadId) (e e' : Ending) :
    Option.Rel (Alike (some t)) (c.end? t e) (c'.end? t e') := by
  unfold Cells.end?
  rw [ha.calls.current? nofun]
  split
  · rename_i i _
    cases e <;> cases e' <;> exact .some ⟨ha.value, ha.holder, ha.calls.part (.leaving i ..)⟩
  · exact .none

end Alike

end Cells

/-! ## Stacks -/

theorem rel_acquire? {m m' : Mutex} (h : m'.holder = m.holder) (t : ThreadId) :
    Option.Rel (fun m m' => m'.holder = m.holder) (m.acquire? t) (m'.acquire? t) := by
  unfold Mutex.acquire?
  rw [h]
  split
  · exact .some rfl
  · exact .none

namespace Stack

/-- Two calls of which both have only to let the mutex go, or have answered. -/
inductive Phase.Ends : Phase α → Phase α → Prop
  | leaving (b b' : Bool) (a a' : Answer α) : Ends (.leaving b a) (.leaving b' a')
  | returned (a a' : Answer α) : Ends (.returned a) (.returned a')

structure Alike (mark : Option ThreadId) (s s' : Stack α) : Prop where
  items : s'.items = s.items
  holder : s'.mutex.holder = s.mutex.holder
  calls : Calls.Alike Phase.Ends mark s.calls s'.calls

namespace Alike

variable {s s' : Stack α}

theorem refl (s : Stack α) : Alike none s s := ⟨rfl, rfl, .same _⟩

theorem into (ha : Alike mark s s') (hu : mark ≠ some u) (p : Phase α) : Alike mark (s.into u p) (s'.into u p) :=
  ⟨ha.items, ha.holder, ha.calls.move hu p⟩

theorem withItems (ha : Alike mark s s') (items : List α) :
    Alike mark { s with items } { s' with items } := ⟨rfl, ha.holder, ha.calls⟩

theorem withMutex (ha : Alike mark s s') (m m' : Mutex) (hm : m'.holder = m.holder) :
    Alike mark { s with mutex := m } { s' with mutex := m' } := ⟨ha.items, hm, ha.calls⟩

theorem start? (ha : Alike mark s s') (hu : mark ≠ some u) (r : Request α) :
    Option.Rel (Alike mark) (s.start? u r) (s'.start? u r) := by
  unfold Stack.start?
  rw [ha.calls.current? hu]
  have started := ha.calls.start hu (.entering r)
  split
  · exact .some ⟨ha.items, ha.holder, started⟩
  · exact .some ⟨ha.items, ha.holder, started⟩
  · exact .none

theorem act (ha : Alike mark s s') (hu : mark ≠ some u) (env : Environment) (r : Request α) :
    Alike mark (s.act env u r) (s'.act env u r) := by
  cases r with
  | push v =>
    simp only [Stack.act, ha.items]
    split
    · exact (ha.withItems _).into hu _
    · exact ha.into hu _
  | pop =>
    simp only [Stack.act, ha.items]
    split
    · exact ha.into hu _
    · exact (ha.withItems _).into hu _
  | popInto out =>
    simp only [Stack.act, ha.items]
    split
    · exact ha.into hu _
    · exact (ha.withItems _).into hu _
  | popWith =>
    simp only [Stack.act, ha.items]
    split <;> exact ha.into hu _
  | reserve n =>
    simp only [Stack.act, ha.items]
    split <;> exact ha.into hu _
  | _ =>
    simp only [Stack.act, ha.items]
    exact ha.into hu _

theorem step? (ha : Alike mark s s') (u : ThreadId) (env : Environment) :
    Option.Rel (Alike mark) (s.step? env u) (s'.step? env u) := by
  unfold Stack.step?
  rcases ha.calls.marked_or u with ⟨rfl, p, p', hp, hp', ends⟩ | ⟨hu, same⟩
  · rw [hp, hp']
    cases ends with
    | leaving b b' a a' => exact .some ⟨ha.items, rfl, ha.calls.advance (.returned a a')⟩
    | returned _ _ => exact .none
  · rw [same]
    cases s.calls.current? u with
    | none => exact .none
    | some p =>
      cases p with
      | entering r => exact rel_map (rel_acquire? ha.holder u) fun _ _ hm => (ha.withMutex _ _ hm).act hu env r
      | leaving b a =>
        have released := ha.withMutex (s.mutex.release b) (s'.mutex.release b) rfl
        exact .some (released.into hu _)
      | building _ => exact .none
      | returned _ => exact .none

theorem top?_marked (ha : Alike (some t) s s') : s.top? t = none ∧ s'.top? t = none := by
  obtain ⟨p, p', hp, hp', ends⟩ := ha.calls.marked
  rw [Stack.top?, Stack.top?, hp, hp']
  cases ends <;> exact ⟨rfl, rfl⟩

theorem top? (ha : Alike mark s s') (u : ThreadId) : s'.top? u = s.top? u := by
  by_cases hu : mark = some u
  · subst hu
    rw [ha.top?_marked.1, ha.top?_marked.2]
  · rw [Stack.top?, ha.calls.current? hu, Stack.top?]

theorem answer? (ha : Alike mark s s') (hu : mark ≠ some u) : s'.answer? u = s.answer? u := by
  rw [Stack.answer?, Stack.answer?, ha.calls.current? hu]

theorem answered (ha : Alike (some t) s s') : Option.Rel (fun _ _ => True) (s.answer? t) (s'.answer? t) := by
  obtain ⟨p, p', hp, hp', ends⟩ := ha.calls.marked
  rw [Stack.answer?, Stack.answer?, hp, hp']
  cases ends with
  | leaving b b' a a' => exact .none
  | returned a a' => exact .some trivial

theorem collect (ha : Alike mark s s') (hu : mark ≠ some u) : Alike mark (s.collect u) (s'.collect u) :=
  ⟨ha.items, ha.holder, ha.calls.finish hu⟩

theorem closed (ha : Alike (some t) s s') : Alike none (s.collect t) (s'.collect t) :=
  ⟨ha.items, ha.holder, ha.calls.closed⟩

theorem end? (ha : Alike mark s s') (u : ThreadId) (e : Ending α) :
    Option.Rel (Alike mark) (s.end? u e) (s'.end? u e) := by
  unfold Stack.end?
  rcases ha.calls.marked_or u with ⟨rfl, p, p', hp, hp', ends⟩ | ⟨hu, same⟩
  · rw [hp, hp']
    cases ends <;> exact .none
  · rw [same]
    split
    · cases e with
      | built v =>
        simp only [ha.items]
        exact .some ((ha.withItems _).into hu _)
      | _ => exact .some (ha.into hu _)
    · exact .none

/-- A builder fails in two ways. -/
theorem unbuilt (ha : Alike none s s') (t : ThreadId) {e e' : Ending α} (he : ∀ v, e ≠ .built v)
    (he' : ∀ v, e' ≠ .built v) : Option.Rel (Alike (some t)) (s.end? t e) (s'.end? t e') := by
  unfold Stack.end?
  rw [ha.calls.current? nofun]
  split
  · cases e with
    | built v => exact absurd rfl (he v)
    | _ =>
      cases e' with
      | built v => exact absurd rfl (he' v)
      | _ => exact .some ⟨ha.items, ha.holder, ha.calls.part (.leaving ..)⟩
  · exact .none

end Alike

theorem items_of_unbuilt {s s' : Stack α} {e : Ending α} (he : ∀ v, e ≠ .built v) (h : s.end? t e = some s') :
    s'.items = s.items := by
  unfold Stack.end? at h
  split at h
  · cases e with
    | built v => exact absurd rfl (he v)
    | _ =>
      cases h
      rfl
  · cases h

end Stack

/-! ## Caches -/

namespace Cache

variable {κ : Type}

/-- Two calls of which both have only to leave shared mode, or have answered. -/
inductive Phase.Ends : Phase κ α → Phase κ α → Prop
  | unsharing (a a' : Answer α) : Ends (.unsharing a) (.unsharing a')
  | returned (a a' : Answer α) : Ends (.returned a) (.returned a')

/-- The same cache, but for what the marked call answers. -/
inductive Alike (mark : Option ThreadId) (c : Cache κ α) : Cache κ α → Prop
  | intro {calls : Calls (Phase κ α)} (ends : Calls.Alike Phase.Ends mark c.calls calls) : Alike mark c { c with calls }

namespace Alike

variable {c c' : Cache κ α}

theorem refl (c : Cache κ α) : Alike none c c := .intro (.same _)

theorem calls (ha : Alike mark c c') : Calls.Alike Phase.Ends mark c.calls c'.calls := by
  cases ha with
  | intro ends => exact ends

theorem into (ha : Alike mark c c') (hu : mark ≠ some u) (p : Phase κ α) : Alike mark (c.into u p) (c'.into u p) := by
  cases ha with
  | intro ends => exact .intro (ends.move hu p)

theorem start? (ha : Alike mark c c') (hu : mark ≠ some u) (r : Request κ α) :
    Option.Rel (Alike mark) (c.start? u r) (c'.start? u r) := by
  unfold Cache.start?
  rw [ha.calls.current? hu]
  cases ha with
  | intro ends =>
    have started (p : Phase κ α) := ends.start hu p
    dsimp only
    split
    · exact .some (.intro (started _))
    · exact .some (.intro (started _))
    · exact .none

variable [DecidableEq κ]

theorem look (ha : Alike mark c c') (hu : mark ≠ some u) (l : Look κ) : Alike mark (c.look u l) (c'.look u l) := by
  cases ha with
  | intro ends => cases l <;> exact .intro (ends.move hu _)

theorem change (ha : Alike mark c c') (hu : mark ≠ some u) (env : Environment) (ch : Change κ α) :
    Alike mark (c.change env u ch) (c'.change env u ch) := by
  cases ha with
  | intro ends =>
    have moved (p : Phase κ α) := ends.move hu p
    cases ch with
    | write key v =>
      simp only [Cache.change, room]
      split <;> exact .intro (moved _)
    | remove key => exact .intro (moved _)
    | reserve n =>
      simp only [Cache.change]
      split <;> exact .intro (moved _)

theorem step? (ha : Alike mark c c') (u : ThreadId) (env : Environment) :
    Option.Rel (Alike mark) (c.step? env u) (c'.step? env u) := by
  unfold Cache.step?
  rcases ha.calls.marked_or u with ⟨rfl, p, p', hp, hp', ends⟩ | ⟨hu, same⟩
  · rw [hp, hp']
    cases ha with
    | intro calls =>
      cases ends with
      | unsharing a a' => exact .some (.intro (calls.advance (.returned a a')))
      | returned _ _ => exact .none
  · rw [same]
    cases c.calls.current? u with
    | none => exact .none
    | some p =>
      cases p with
      | changing ch => exact .some (ha.change hu env ch)
      | admitted l =>
        cases ha with
        | intro ends =>
          have shared (lock : SharedLock) :
              Alike mark { c with lock } { { c with calls := _ } with lock } := .intro ends
          exact rel_map (rel_refl _) fun lock _ hk => hk ▸ (shared lock).look hu l
      | visiting key => exact .none
      | returned a => exact .none
      | arriving l =>
        cases ha with
        | intro ends => exact rel_map (rel_refl _) fun g _ hg => hg ▸ .intro (ends.move hu _)
      | queueing ch =>
        cases ha with
        | intro ends => exact rel_map (rel_refl _) fun g _ hg => hg ▸ .intro (ends.move hu _)
      | counted ch =>
        cases ha with
        | intro ends => exact rel_map (rel_refl _) fun k _ hk => hk ▸ .intro (ends.move hu _)
      | _ =>
        cases ha with
        | intro ends => exact .some (.intro (ends.move hu _))

theorem seen?_marked (ha : Alike (some t) c c') : c.seen? t = none ∧ c'.seen? t = none := by
  obtain ⟨p, p', hp, hp', ends⟩ := ha.calls.marked
  rw [Cache.seen?, Cache.seen?, hp, hp']
  cases ends <;> exact ⟨rfl, rfl⟩

theorem seen? (ha : Alike mark c c') (u : ThreadId) : c'.seen? u = c.seen? u := by
  by_cases hu : mark = some u
  · subst hu
    rw [ha.seen?_marked.1, ha.seen?_marked.2]
  · rw [Cache.seen?, ha.calls.current? hu, Cache.seen?]
    cases ha with
    | intro _ => rfl

omit [DecidableEq κ]

theorem answer? (ha : Alike mark c c') (hu : mark ≠ some u) : c'.answer? u = c.answer? u := by
  rw [Cache.answer?, Cache.answer?, ha.calls.current? hu]

theorem answered (ha : Alike (some t) c c') : Option.Rel (fun _ _ => True) (c.answer? t) (c'.answer? t) := by
  obtain ⟨p, p', hp, hp', ends⟩ := ha.calls.marked
  rw [Cache.answer?, Cache.answer?, hp, hp']
  cases ends with
  | unsharing a a' => exact .none
  | returned a a' => exact .some trivial

theorem collect (ha : Alike mark c c') (hu : mark ≠ some u) : Alike mark (c.collect u) (c'.collect u) := by
  cases ha with
  | intro ends => exact .intro (ends.finish hu)

theorem closed (ha : Alike (some t) c c') : Alike none (c.collect t) (c'.collect t) := by
  cases ha with
  | intro ends => exact .intro ends.closed

theorem end? (ha : Alike mark c c') (u : ThreadId) (e : Ending) :
    Option.Rel (Alike mark) (c.end? u e) (c'.end? u e) := by
  unfold Cache.end?
  rcases ha.calls.marked_or u with ⟨rfl, p, p', hp, hp', ends⟩ | ⟨hu, same⟩
  · rw [hp, hp']
    cases ends <;> exact .none
  · rw [same]
    split
    · exact .some (ha.into hu _)
    · exact .none

/-- A callback ends in two ways. -/
theorem ended (ha : Alike none c c') (t : ThreadId) (e e' : Ending) :
    Option.Rel (Alike (some t)) (c.end? t e) (c'.end? t e') := by
  unfold Cache.end?
  rw [ha.calls.current? nofun]
  split
  · cases ha with
    | intro ends => exact .some (.intro (ends.part (.unsharing ..)))
  · exact .none

end Alike

end Cache

end Interlock
