import Interlock.Proofs.Hierarchy.Parallel
import Interlock.Proofs.Panic.Calls

/-!
# Ranked locks after a panic

While a panic is under way a guard that is dropped out of order is passed over in silence, and a mutex that is let go
remembers the panic; without one the drop of that guard starts a panic, and nothing is remembered. All the rest is the
same: which guards are in order does not depend on it. So both ways to leave a callback, and both ways to drop guards,
lead to alike states, and those stay alike.
-/

namespace Interlock.Hierarchy

variable {α : Type} {mark : Option ThreadId} {t u : ThreadId}

/-- Two calls of which both have only to drop the same guards, or have answered. -/
inductive Phase.Ends : Phase α → Phase α → Prop
  | dropping (slots : List String) (panic panic' : Option String) :
      Ends (.entering (.drop slots panic)) (.entering (.drop slots panic'))
  | releasing (gs : List Guard) (a a' : Answer α) : Ends (.releasing gs a) (.releasing gs a')
  | returned (a a' : Answer α) : Ends (.returned a) (.returned a')

/-- The same locks with the same contents, held by the same threads, with the same guards and ceilings, and the same
calls but for what the marked one answers. -/
structure Alike (mark : Option ThreadId) (h h' : Hierarchy α) : Prop where
  rank : ∀ l, h'.rank l = h.rank l
  content : ∀ l, h'.content? l = h.content? l
  holder : ∀ l, h'.holder? l = h.holder? l
  registries : h'.registries = h.registries
  threads : h'.threads = h.threads
  calls : Calls.Alike Phase.Ends mark h.calls h'.calls

/-! ## Taking a lock -/

/-- The lock taken, whoever has it. -/
def hold (h : Hierarchy α) (t : ThreadId) (l : LockId) : Hierarchy α :=
  { h with locks := h.locks.modify l fun k => { k with mutex := { k.mutex with holder := some t } } }

section
variable {h h' : Hierarchy α}

theorem rank_hold (h : Hierarchy α) (t : ThreadId) (l k : LockId) : (h.hold t l).rank k = h.rank k := by
  simp only [rank, hold, List.getElem?_modify]
  cases h.locks[k]? with
  | none => rfl
  | some x => by_cases hl : l = k <;> simp [hl]

theorem content?_hold (h : Hierarchy α) (t : ThreadId) (l k : LockId) : (h.hold t l).content? k = h.content? k := by
  simp only [content?, hold, List.getElem?_modify]
  cases h.locks[k]? with
  | none => rfl
  | some x => by_cases hl : l = k <;> simp [hl]

theorem holder?_hold (h : Hierarchy α) (t : ThreadId) (l k : LockId) :
    (h.hold t l).holder? k = if l = k then (h.content? k).map fun _ => t else h.holder? k := by
  simp only [holder?, content?, hold, List.getElem?_modify]
  cases h.locks[k]? with
  | none => simp
  | some x => by_cases hl : l = k <;> simp [hl]

theorem admit?_eq_hold (h : Hierarchy α) (t : ThreadId) (l : LockId) (previous : Rank) : h.admit? t l previous =
    if (h.content? l).isSome ∧ h.holder? l = none then
      some ((h.hold t l).setCeiling t (h.rank l), ⟨l, previous⟩)
    else none := by
  unfold admit? content? holder? Mutex.acquire?
  cases hl : h.locks[l]? with
  | none => rfl
  | some k =>
    obtain ⟨hlt, rfl⟩ := List.getElem?_eq_some_iff.mp hl
    cases hh : h.locks[l].mutex.holder with
    | none => simp [hh, hold, rank, hl, List.modify_eq_set_getElem?]
    | some v => simp [hh]

end

namespace Alike

variable {h h' : Hierarchy α}

/-! ## What is the same -/

theorem refl (h : Hierarchy α) : Alike none h h :=
  ⟨fun _ => rfl, fun _ => rfl, fun _ => rfl, rfl, rfl, .same _⟩

theorem standing (ha : Alike mark h h') (t : ThreadId) : h'.standing t = h.standing t := by
  rw [Hierarchy.standing, ha.threads, Hierarchy.standing]

theorem ceiling (ha : Alike mark h h') (t : ThreadId) : h'.ceiling t = h.ceiling t := by
  rw [Hierarchy.ceiling, ha.standing, Hierarchy.ceiling]

theorem agrees (ha : Alike mark h h') : Agrees h h' := ⟨⟨ha.rank, ha.content, ha.registries⟩, ha.ceiling⟩

theorem isFree (ha : Alike mark h h') (u : ThreadId) : h'.isFree u = h.isFree u := by
  unfold Hierarchy.isFree
  rcases ha.calls.marked_or u with ⟨rfl, p, p', hp, hp', ends⟩ | ⟨-, same⟩
  · rw [hp, hp']
    cases ends <;> rfl
  · rw [same]

/-! ## Changes of one part -/

theorem into (ha : Alike mark h h') (hu : mark ≠ some u) (p : Phase α) : Alike mark (h.into u p) (h'.into u p) :=
  ⟨ha.rank, ha.content, ha.holder, ha.registries, ha.threads, ha.calls.move hu p⟩

/-- The marked call goes on. -/
theorem advance (ha : Alike (some t) h h') {p p' : Phase α} (ends : Phase.Ends p p') :
    Alike (some t) (h.into t p) (h'.into t p') :=
  ⟨ha.rank, ha.content, ha.holder, ha.registries, ha.threads, ha.calls.advance ends⟩

theorem setStanding (ha : Alike mark h h') (t : ThreadId) (s : Standing) :
    Alike mark (h.setStanding t s) (h'.setStanding t s) :=
  ⟨ha.rank, ha.content, ha.holder, ha.registries, congrArg (·.insert t s) ha.threads, ha.calls⟩

theorem setCeiling (ha : Alike mark h h') (t : ThreadId) (r : Rank) :
    Alike mark (h.setCeiling t r) (h'.setCeiling t r) := by
  rw [Hierarchy.setCeiling, Hierarchy.setCeiling, ha.standing]
  exact ha.setStanding t _

theorem slotwise (t : ThreadId) : Slotwise t (Alike (α := α) mark) where
  contents ha := ha.agrees.toSameContents
  standing ha := ha.standing t
  setStanding ha := ha.setStanding t

theorem setContent (ha : Alike mark h h') (l : LockId) (c : Content α) :
    Alike mark (h.setContent l c) (h'.setContent l c) where
  rank k := by rw [rank_setContent, rank_setContent, ha.rank]
  content k := by rw [content?_setContent, content?_setContent, ha.content]
  holder k := by rw [holder?_setContent, holder?_setContent, ha.holder]
  registries := ha.registries
  threads := ha.threads
  calls := ha.calls

theorem addLock (ha : Alike mark h h') (r : Rank) (c : Content α) :
    Alike mark (h.addLock r c).1 (h'.addLock r c).1 where
  rank k := by
    by_cases hk : k = h.locks.length
    · rw [hk, rank_addLock_new, ← ha.agrees.length, rank_addLock_new]
    · rw [rank_addLock_of_ne h r c hk, rank_addLock_of_ne h' r c (ha.agrees.length ▸ hk), ha.rank]
  content k := by rw [content?_addLock_eq, content?_addLock_eq, ha.agrees.length, ha.content]
  holder k := by rw [holder?_addLock, holder?_addLock, ha.holder]
  registries := ha.registries
  threads := ha.threads
  calls := ha.calls

theorem addRegistry (ha : Alike mark h h') (d e : Rank) :
    Alike mark (h.addRegistry d e).1 (h'.addRegistry d e).1 := by
  have added := ha.addLock d (.directory {})
  refine ⟨added.rank, added.content, added.holder, ?_, added.threads, added.calls⟩
  show h'.registries ++ [⟨h'.locks.length, e⟩] = h.registries ++ [⟨h.locks.length, e⟩]
  rw [ha.registries, ha.agrees.length]

/-- It makes no difference whether the mutex remembers a panic. -/
theorem release (ha : Alike mark h h') (t : ThreadId) (g : Guard) (b b' : Bool) :
    Alike mark (h.release t g b) (h'.release t g b') where
  rank k := by rw [rank_release, rank_release, ha.rank]
  content k := by rw [content?_release, content?_release, ha.content]
  holder k := by rw [holder?_release, holder?_release, ha.holder]
  registries := ha.registries
  threads := (ha.setCeiling t g.previous).threads
  calls := ha.calls

theorem hold (ha : Alike mark h h') (t : ThreadId) (l : LockId) : Alike mark (h.hold t l) (h'.hold t l) where
  rank k := by rw [rank_hold, rank_hold, ha.rank]
  content k := by rw [content?_hold, content?_hold, ha.content]
  holder k := by rw [holder?_hold, holder?_hold, ha.content, ha.holder]
  registries := ha.registries
  threads := ha.threads
  calls := ha.calls

theorem admit? (ha : Alike mark h h') (t : ThreadId) (l : LockId) (previous : Rank) :
    Option.Rel (fun x x' => Alike mark x.1 x'.1 ∧ x'.2 = x.2) (h.admit? t l previous) (h'.admit? t l previous) := by
  rw [admit?_eq_hold, admit?_eq_hold, ha.content, ha.holder, ha.rank]
  split
  · exact .some ⟨(ha.hold t l).setCeiling t _, rfl⟩
  · exact .none

/-! ## Calls -/

theorem steady (hu : mark ≠ some u) : Steady u (Alike (α := α) mark) where
  toTandem := {
    contents := fun ha => ha.agrees.toSameContents
    ceiling := fun ha => ha.ceiling u
    into := fun ha p => ha.into hu p
    setContent := fun ha => ha.setContent
    addLock := fun ha => ha.addLock }
  standing ha := ha.standing u
  setStanding ha := ha.setStanding u

/-- The marked call drops its next guard, panicking or not. -/
theorem dropNext_marked (ha : Alike (some t) h h') (gs : List Guard) (a a' : Answer α) :
    Alike (some t) (h.dropNext t gs a) (h'.dropNext t gs a') := by
  cases gs with
  | nil => exact ha.advance (.returned a a')
  | cons g gs =>
    simp only [Hierarchy.dropNext, ha.agrees.checkRelease]
    split
    · exact (ha.release t g _ _).advance (.releasing gs a a')
    · exact ha.advance (.releasing gs _ _)

theorem step? (ha : Alike mark h h') (u : ThreadId) (env : Environment) :
    Option.Rel (Alike mark) (h.step? env u) (h'.step? env u) := by
  unfold Hierarchy.step?
  -- the marked call has only guards to drop; any other call is the same in both states
  rcases ha.calls.marked_or u with ⟨rfl, p, p', hp, hp', ends⟩ | ⟨hu, same⟩
  · rw [hp, hp']
    cases ends with
    | dropping slots panic panic' =>
      obtain ⟨hstate, hguards⟩ := (slotwise u).takeOut slots ha
      simp only [Hierarchy.enter, hguards]
      exact .some (hstate.advance (.releasing ..))
    | releasing gs a a' => exact .some (ha.dropNext_marked gs a a')
    | returned _ _ => exact .none
  · rw [same]
    cases h.calls.current? u with
    | none => exact .none
    | some p =>
      cases p with
      | entering r => exact .some ((steady hu).enter ha r)
      | waiting l previous q =>
        refine rel_map (ha.admit? u l previous) fun x x' hx => ?_
        obtain ⟨h₁, g⟩ := x
        obtain ⟨h₁', g'⟩ := x'
        obtain ⟨hstate, hguard⟩ := hx
        obtain rfl : g' = g := hguard
        exact (steady hu).proceed hstate env g' q
      | visiting e d => exact .none
      | releasing gs a => exact .some ((steady hu).dropNext ha (fun g _ b => ha.release u g b b) a)
      | returned a => exact .none

theorem start? (ha : Alike mark h h') (hu : mark ≠ some u) (r : Request α) :
    Option.Rel (Alike mark) (h.start? u r) (h'.start? u r) := by
  unfold Hierarchy.start?
  rw [ha.isFree, (slotwise u).admits ha]
  split
  · exact .some ⟨ha.rank, ha.content, ha.holder, ha.registries, ha.threads, ha.calls.start hu _⟩
  · exact .none

/-- The same guards are dropped in a panic and without one. -/
theorem dropped (ha : Alike none h h') (t : ThreadId) (slots : List String) (panic panic' : Option String) :
    Option.Rel (Alike (some t)) (h.start? t (.drop slots panic)) (h'.start? t (.drop slots panic')) := by
  unfold Hierarchy.start?
  have hadmits : h'.admits t (.drop slots panic') = h.admits t (.drop slots panic) :=
    (slotwise t).admits ha (.drop slots panic)
  rw [ha.isFree, hadmits]
  split
  · exact .some ⟨ha.rank, ha.content, ha.holder, ha.registries, ha.threads, ha.calls.opened (.dropping slots ..)⟩
  · exact .none

/-! ## Callbacks and answers -/

theorem visited?_marked (ha : Alike (some t) h h') : h.visited? t = none ∧ h'.visited? t = none := by
  obtain ⟨p, p', hp, hp', ends⟩ := ha.calls.marked
  rw [visited?, visited?, hp, hp']
  cases ends <;> exact ⟨rfl, rfl⟩

theorem visited? (ha : Alike mark h h') (u : ThreadId) : h'.visited? u = h.visited? u := by
  by_cases hu : mark = some u
  · subst hu
    rw [ha.visited?_marked.1, ha.visited?_marked.2]
  · rw [Hierarchy.visited?, ha.calls.current? hu, Hierarchy.visited?]

theorem answer? (ha : Alike mark h h') (hu : mark ≠ some u) : h'.answer? u = h.answer? u := by
  rw [Hierarchy.answer?, Hierarchy.answer?, ha.calls.current? hu]

theorem answered (ha : Alike (some t) h h') : Option.Rel (fun _ _ => True) (h.answer? t) (h'.answer? t) := by
  obtain ⟨p, p', hp, hp', ends⟩ := ha.calls.marked
  rw [Hierarchy.answer?, Hierarchy.answer?, hp, hp']
  cases ends with
  | dropping slots panic panic' => exact .none
  | releasing gs a a' => exact .none
  | returned a a' => exact .some trivial

theorem collect (ha : Alike mark h h') (hu : mark ≠ some u) : Alike mark (h.collect u) (h'.collect u) :=
  ⟨ha.rank, ha.content, ha.holder, ha.registries, ha.threads, ha.calls.finish hu⟩

theorem closed (ha : Alike (some t) h h') : Alike none (h.collect t) (h'.collect t) :=
  ⟨ha.rank, ha.content, ha.holder, ha.registries, ha.threads, ha.calls.closed⟩

theorem end? (ha : Alike mark h h') (u : ThreadId) (e : Ending) :
    Option.Rel (Alike mark) (h.end? u e) (h'.end? u e) := by
  unfold Hierarchy.end?
  rcases ha.calls.marked_or u with ⟨rfl, p, p', hp, hp', ends⟩ | ⟨hu, same⟩
  · rw [hp, hp']
    cases ends <;> exact .none
  · rw [same]
    split
    · exact .some (ha.into hu _)
    · exact .none

/-- A callback ends in two ways. -/
theorem ended (ha : Alike none h h') (t : ThreadId) (e e' : Ending) :
    Option.Rel (Alike (some t)) (h.end? t e) (h'.end? t e') := by
  unfold Hierarchy.end?
  rw [ha.calls.current? nofun]
  split
  · exact .some ⟨ha.rank, ha.content, ha.holder, ha.registries, ha.threads, ha.calls.part (.releasing ..)⟩
  · exact .none

/-! ## Deeds -/

theorem perform? (ha : Alike mark h h') (u : ThreadId) (d : Deed) :
    Option.Rel (fun x x' => Alike mark x.1 x'.1 ∧ x'.2 = x.2) (h.perform? u d) (h'.perform? u d) := by
  unfold Hierarchy.perform?
  rw [ha.isFree]
  split
  · exact (slotwise u).attempt? ha d (fun l _ previous _ => ha.admit? u l previous) fun _ _ _ g _ => ha.release u g _ _
  · exact .none

/-! ## Runs -/

theorem owned (ha : Alike mark h h') (t : ThreadId) : h'.owned t = h.owned t := by
  have hphases : (h'.phases t).map Phase.guards = (h.phases t).map Phase.guards := by
    refine ha.calls.map_of (fun p p' ends => ?_) t
    cases ends <;> rfl
  rw [Hierarchy.owned, ha.standing, hphases, Hierarchy.owned]

theorem isUsed (ha : Alike mark h h') (l : LockId) : h'.isUsed l = h.isUsed l := by
  have hkept : h'.isKept l = h.isKept l := by rw [isKept, ha.threads, isKept]
  rw [Hierarchy.isUsed, hkept]
  refine congrArg _ (ha.calls.any_pending fun u p p' ends => ?_)
  cases ends <;> rfl

theorem setElement? (ha : Alike mark h h') (l : LockId) (v : α) :
    Option.Rel (Alike mark) (h.setElement? l v) (h'.setElement? l v) := by
  rw [Hierarchy.setElement?, Hierarchy.setElement?, ha.agrees.element?]
  exact rel_map (rel_refl _) fun _ _ _ => ha.setContent l _

/-- Until the answer of the marked call is taken. -/
theorem move? {m : Move α} (ha : Alike mark h h') (hopen : ∀ t, mark = some t → m ≠ .collect t) :
    Option.Rel (Alike mark) (h.move? m) (h'.move? m) := by
  cases m with
  | addLock rank v => exact .some (ha.addLock rank _)
  | addRegistry d e => exact .some (ha.addRegistry d e)
  | start u r =>
    by_cases hu : mark = some u
    · -- the marked call leaves its thread no other
      subst hu
      obtain ⟨p, p', hp, -, ends⟩ := ha.calls.marked
      have hbusy : h.isFree u = false := by
        rw [Hierarchy.isFree, hp]
        cases ends <;> rfl
      simp only [Hierarchy.move?, Hierarchy.start?, ha.isFree, hbusy, Bool.false_and]
      exact .none
    · exact ha.start? hu r
  | step u env => exact ha.step? u env
  | finish u e => exact ha.end? u e
  | collect u =>
    have hu : mark ≠ some u := fun hm => hopen u hm rfl
    simp only [Hierarchy.move?, ha.answer? hu]
    exact rel_map (rel_refl _) fun _ _ _ => ha.collect hu
  | perform u d => exact rel_map (ha.perform? u d) fun _ _ hx => hx.1
  | leak u slot =>
    simp only [Hierarchy.move?, ha.isFree]
    split
    · exact .some ((slotwise u).clearSlot ha slot)
    · exact .none
  | write u l v =>
    simp only [Hierarchy.move?, ha.isFree, ha.owned]
    split
    · exact ha.setElement? l v
    · exact .none
  | borrow l v =>
    simp only [Hierarchy.move?, ha.isUsed]
    split
    · exact .none
    · exact ha.setElement? l v

theorem run? (ha : Alike (some t) h h') {ms : List (Move α)} (hopen : .collect t ∉ ms) :
    Option.Rel (Alike (some t)) (run? Hierarchy.move? h ms) (run? Hierarchy.move? h' ms) := by
  induction ms generalizing h h' with
  | nil => exact .some ha
  | cons m ms ih =>
    rw [List.mem_cons, not_or] at hopen
    refine rel_bind (ha.move? fun u hu => ?_) fun _ _ hs => ih hs hopen.2
    rw [← Option.some.inj hu]
    exact Ne.symm hopen.1

end Alike

end Interlock.Hierarchy
