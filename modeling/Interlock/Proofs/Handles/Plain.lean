import Interlock.Proofs.Hierarchy.Parallel
import Interlock.Proofs.Hierarchy.Slots

/-!
# Optional guards in place of handles

The same client without handles. Where it had a handle it has a variable that refers to a lock and may hold a guard of
it; all that it does with the variable it does with locks and plain guards. So no slot holds more than a guard, and a
`Plain` state keeps beside the slots only the lock that each such variable refers to. `Mirrors` compares it with a state
that has handles: a handle shows its lock and its guard, and what else it remembers is not there.
-/

namespace Interlock.Hierarchy

variable {α : Type}

/-- The locks that the variables of the threads refer to which may hold a guard of them. -/
abbrev Options := Table (ThreadId × String) LockId

structure Plain (α : Type) where
  state : Hierarchy α := {}
  options : Options := {}

/-- The variables once a lock is taken for the aim: it may be for a new one. -/
def Options.declare (o : Options) (t : ThreadId) (l : LockId) : Aim → Options
  | .newHandle slot => o.insert (t, slot) l
  | _ => o

def Options.forget (o : Options) (t : ThreadId) : List String → Options
  | [] => o
  | slot :: slots => Options.forget (o.erase (t, slot)) t slots

namespace Plain

/-! ## Calls -/

def isBound (p : Plain α) (t : ThreadId) (slot : String) : Bool :=
  (p.state.slot? t slot).isSome || p.options.contains (t, slot)

def accepts (p : Plain α) (t : ThreadId) (l : LockId) : Aim → Bool
  | .guard slot => !p.isBound t slot
  | .newHandle slot => !p.isBound t slot
  | .handle slot => p.options.get? (t, slot) = some l

def admits (p : Plain α) (t : ThreadId) : Request α → Bool
  | .lock l aim => l < p.state.locks.length && p.accepts t l aim
  | .drop slots _ => slots.all fun slot => p.isBound t slot
  | .registry r _ => r < p.state.registries.length

def start? (p : Plain α) (t : ThreadId) (r : Request α) : Option (Plain α) :=
  if p.state.isFree t && p.admits t r then
    some { p with state := { p.state with calls := p.state.calls.start t (.entering r) } }
  else none

/-- Whatever a lock is taken for, a guard of it is put in the slot; and a drop drops the guards of optional ones that
have one. All other steps are those of the client with handles. -/
def step? (env : Environment) (t : ThreadId) (p : Plain α) : Option (Plain α) :=
  match p.state.calls.current? t with
  | some (.waiting l previous (.hold aim)) =>
    (p.state.admit? t l previous).map fun (h, g) =>
      ⟨h.proceed env t g (.hold (.guard aim.slot)), p.options.declare t l aim⟩
  | some (.entering (.drop slots panic)) =>
    some ⟨p.state.enter t (.drop slots panic), p.options.forget t slots⟩
  | _ => (p.state.step? env t).map fun h => { p with state := h }

/-! ## Deeds -/

def tryLock (p : Plain α) (t : ThreadId) (l : LockId) (aim : Aim) : Plain α × Outcome :=
  match p.state.tryLock t l (.guard aim.slot) with
  | (h, .flag true) => (⟨h, p.options.declare t l aim⟩, .flag true)
  | (h, o) => ({ p with state := h }, o)

/-- The guard in the variable, if any, is released, and put back if that is refused. -/
def unlockOption (p : Plain α) (t : ThreadId) (slot : String) : Plain α × Outcome :=
  match p.state.slot? t slot with
  | some (.guard g) =>
    match p.state.unlock t slot g with
    | (h, .violated v) => ({ p with state := h.setSlot t slot (.guard g) }, .violated v)
    | (h, o) => ({ p with state := h }, o)
  | _ => (p, .done)

def detach (p : Plain α) (t : ThreadId) (source target : String) : Plain α × Outcome :=
  match p.state.slot? t source with
  | some (.guard g) =>
    (⟨(p.state.clearSlot t source).setSlot t target (.guard g), p.options.erase (t, source)⟩, .flag true)
  | _ => ({ p with options := p.options.erase (t, source) }, .flag false)

def canMove (p : Plain α) (t : ThreadId) (source target : String) : Bool :=
  source = target || !p.isBound t target

def attempt? (p : Plain α) (t : ThreadId) : Deed → Option (Plain α × Outcome)
  | .tryLock l aim => if p.accepts t l aim then some (p.tryLock t l aim) else none
  | .unlock slot =>
    match p.options.get? (t, slot), p.state.slot? t slot with
    | none, some (.guard g) =>
      let (h, o) := p.state.unlock t slot g
      some ({ p with state := h }, o)
    | _, _ => none
  | .recover slot =>
    match p.state.slot? t slot with
    | some (.refused _ g) => some ({ p with state := p.state.setSlot t slot (.guard g) }, .done)
    | _ => none
  | .unlockHandle slot => if p.options.contains (t, slot) then some (p.unlockOption t slot) else none
  | .defer l slot =>
    if p.isBound t slot then none else some ({ p with options := p.options.insert (t, slot) l }, .done)
  | .adopt source target =>
    match p.options.get? (t, source), p.state.slot? t source, p.canMove t source target with
    | none, some (.guard g), true =>
      some (⟨(p.state.clearSlot t source).setSlot t target (.guard g), p.options.insert (t, target) g.lock⟩, .done)
    | _, _, _ => none
  | .detach source target =>
    if p.options.contains (t, source) && p.canMove t source target then some (p.detach t source target) else none

def perform? (p : Plain α) (t : ThreadId) (d : Deed) : Option (Plain α × Outcome) :=
  if p.state.isFree t then p.attempt? t d else none

/-! ## Moves -/

def isUsed (p : Plain α) (l : LockId) : Bool :=
  p.state.isUsed l || p.options.toList.any fun e => e.2 = l

def move? (p : Plain α) : Move α → Option (Plain α)
  | .start t r => p.start? t r
  | .step t env => p.step? env t
  | .perform t d => (p.perform? t d).map Prod.fst
  | .leak t slot =>
    if p.state.isFree t then some ⟨p.state.clearSlot t slot, p.options.erase (t, slot)⟩ else none
  | .borrow l v =>
    if p.isUsed l then none else (p.state.setElement? l v).map fun h => { p with state := h }
  | m => (p.state.move? m).map fun h => { p with state := h }

end Plain

/-! ## A slot in both states -/

/-- What is in a slot with handles, what is in it without, and what the variable refers to that was a handle. -/
inductive Stands : Option Holding → Option Holding → Option LockId → Prop
  | free : Stands none none none
  | guard (g : Guard) : Stands (some (.guard g)) (some (.guard g)) none
  | refused (v : Violation) (g : Guard) : Stands (some (.refused v g)) (some (.refused v g)) none
  | handle (k : Handle) : Stands (some (.handle k)) (k.guard.map .guard) (some k.lock)

/-- Nothing has changed but the slot, which has this in it now. -/
structure Puts (t : ThreadId) (slot : String) (x : Option Holding) (h h₁ : Hierarchy α) : Prop where
  locks : h₁.locks = h.locks
  registries : h₁.registries = h.registries
  calls : h₁.calls = h.calls
  ceiling : ∀ u, h₁.ceiling u = h.ceiling u
  slots : ∀ u s, h₁.slot? u s = if t = u ∧ slot = s then x else h.slot? u s

def Options.Puts (t : ThreadId) (slot : String) (z : Option LockId) (o o₁ : Options) : Prop :=
  ∀ u s, o₁.get? (u, s) = if t = u ∧ slot = s then z else o.get? (u, s)

theorem puts_setSlot (h : Hierarchy α) (t : ThreadId) (slot : String) (x : Holding) :
    Puts t slot (some x) h (h.setSlot t slot x) := by
  refine ⟨rfl, rfl, rfl, fun u => ceiling_setSlot .., fun u s => ?_⟩
  by_cases hu : t = u
  · subst hu
    simp [slot?_setSlot]
  · simp [slot?, setSlot, hu]

theorem puts_clearSlot (h : Hierarchy α) (t : ThreadId) (slot : String) : Puts t slot none h (h.clearSlot t slot) := by
  refine ⟨rfl, rfl, rfl, fun u => ceiling_clearSlot .., fun u s => ?_⟩
  by_cases hu : t = u
  · subst hu
    simp [slot?_clearSlot]
  · simp [slot?, clearSlot, hu]

theorem puts_self {h : Hierarchy α} {t : ThreadId} {slot : String} {x : Option Holding} (hx : h.slot? t slot = x) :
    Puts t slot x h h := by
  refine ⟨rfl, rfl, rfl, fun _ => rfl, fun u s => ?_⟩
  split
  · rename_i hat
    obtain ⟨rfl, rfl⟩ := hat
    exact hx
  · rfl

theorem Options.puts_insert (o : Options) (t : ThreadId) (slot : String) (l : LockId) :
    o.Puts t slot (some l) (o.insert (t, slot) l) := by
  intro u s
  simp only [Table.get?_insert, Prod.mk.injEq]

theorem Options.puts_erase (o : Options) (t : ThreadId) (slot : String) : o.Puts t slot none (o.erase (t, slot)) := by
  intro u s
  simp only [Table.get?_erase, Prod.mk.injEq]

theorem Options.puts_self {o : Options} {t : ThreadId} {slot : String} {z : Option LockId}
    (hz : o.get? (t, slot) = z) : o.Puts t slot z o := by
  intro u s
  split
  · rename_i hat
    obtain ⟨rfl, rfl⟩ := hat
    exact hz
  · rfl

structure Mirrors (h h' : Hierarchy α) (o : Options) : Prop where
  locks : h'.locks = h.locks
  registries : h'.registries = h.registries
  calls : h'.calls = h.calls
  ceiling : ∀ t, h'.ceiling t = h.ceiling t
  slots : ∀ t slot, Stands (h.slot? t slot) (h'.slot? t slot) (o.get? (t, slot))

def Replaced (h : Hierarchy α) (p : Plain α) : Prop := Mirrors h p.state p.options

namespace Stands

variable {x y : Option Holding} {z : Option LockId}

theorem of_none (hs : Stands none y z) : y = none ∧ z = none := by
  cases hs
  exact ⟨rfl, rfl⟩

theorem of_refused {v : Violation} {g : Guard} (hs : Stands (some (.refused v g)) y z) : z = none := by
  cases hs
  rfl

theorem of_handle {k : Handle} (hs : Stands (some (.handle k)) y z) :
    y = k.guard.map .guard ∧ z = some k.lock := by
  cases hs
  exact ⟨rfl, rfl⟩

theorem guard_iff (hs : Stands x y z) {g : Guard} : z = none ∧ y = some (.guard g) ↔ x = some (.guard g) := by
  cases hs <;> simp

theorem refused_iff (hs : Stands x y z) {v : Violation} {g : Guard} :
    y = some (.refused v g) ↔ x = some (.refused v g) := by
  cases hs with
  | handle k => cases hk : k.guard <;> simp
  | _ => simp

theorem refers (hs : Stands x y z) {l : LockId} : z = some l ↔ ∃ k, x = some (.handle k) ∧ k.lock = l := by
  cases hs <;> simp

theorem isSome (hs : Stands x y z) : (y.isSome || z.isSome) = x.isSome := by
  cases hs <;> simp

theorem guard? (hs : Stands x y z) : y.bind Holding.guard? = x.bind Holding.guard? := by
  cases hs with
  | handle k => cases hk : k.guard <;> simp [Holding.guard?, hk]
  | _ => rfl

theorem mem_guards (hs : Stands x y z) (g : Guard) :
    (∃ w, y = some w ∧ g ∈ w.guards) ↔ ∃ w, x = some w ∧ g ∈ w.guards := by
  cases hs with
  | handle k => cases hk : k.guard <;> simp [Holding.guards, Holding.guard?, hk]
  | _ => rfl

/-- The lock of what is in the slot, where it matches its guard, is the one that the slot refers to in either way. -/
theorem lock (hs : Stands x y z) (hx : ∀ w, x = some w → w.Matched) (l : LockId) :
    ((∃ w, y = some w ∧ w.lock = l) ∨ z = some l) ↔ ∃ w, x = some w ∧ w.lock = l := by
  cases hs with
  | handle k =>
    have matched := hx _ rfl
    cases hk : k.guard with
    | none => simp [Holding.lock]
    | some g =>
      have hlock : g.lock = k.lock := matched g hk
      simp [Holding.lock, hlock]
  | _ => simp

end Stands

namespace Mirrors

variable {h h' h₁ h₁' : Hierarchy α} {o o₁ : Options} {t : ThreadId}

theorem agrees (ha : Mirrors h h' o) : Agrees h h' where
  rank l := by rw [Hierarchy.rank, ha.locks, Hierarchy.rank]
  content l := content?_congr ha.locks
  ceiling := ha.ceiling
  registries := ha.registries

theorem isFree (ha : Mirrors h h' o) (t : ThreadId) : h'.isFree t = h.isFree t := by
  rw [Hierarchy.isFree, ha.calls, Hierarchy.isFree]

/-! ## Changes that keep the slots -/

theorem framed (ha : Mirrors h h' o) (locks : h₁'.locks = h₁.locks) (registries : h₁'.registries = h₁.registries)
    (calls : h₁'.calls = h₁.calls) (ceiling : ∀ t, h₁'.ceiling t = h₁.ceiling t)
    (slots : ∀ t, (h₁.standing t).slots = (h.standing t).slots)
    (slots' : ∀ t, (h₁'.standing t).slots = (h'.standing t).slots) : Mirrors h₁ h₁' o where
  locks := locks
  registries := registries
  calls := calls
  ceiling := ceiling
  slots t slot := by
    rw [slot?, slots, slot?, slots']
    exact ha.slots t slot

theorem into (ha : Mirrors h h' o) (t : ThreadId) (p : Phase α) : Mirrors (h.into t p) (h'.into t p) o :=
  ha.framed ha.locks ha.registries (congrArg (·.move t p) ha.calls) ha.ceiling (fun _ => rfl) fun _ => rfl

theorem setContent (ha : Mirrors h h' o) (l : LockId) (c : Content α) :
    Mirrors (h.setContent l c) (h'.setContent l c) o :=
  ha.framed (congrArg (·.modify l fun k => { k with content := c }) ha.locks) ha.registries ha.calls ha.ceiling
    (fun _ => rfl) fun _ => rfl

theorem addLock (ha : Mirrors h h' o) (r : Rank) (c : Content α) : Mirrors (h.addLock r c).1 (h'.addLock r c).1 o :=
  ha.framed (congrArg (· ++ [_]) ha.locks) ha.registries ha.calls ha.ceiling (fun _ => rfl) fun _ => rfl

theorem addRegistry (ha : Mirrors h h' o) (d e : Rank) : Mirrors (h.addRegistry d e).1 (h'.addRegistry d e).1 o := by
  have added := ha.addLock d (.directory {})
  refine added.framed added.locks ?_ added.calls added.ceiling (fun _ => rfl) fun _ => rfl
  show h'.registries ++ [⟨h'.locks.length, e⟩] = h.registries ++ [⟨h.locks.length, e⟩]
  rw [ha.registries, ha.locks]

theorem setCeiling (ha : Mirrors h h' o) (t : ThreadId) (r : Rank) :
    Mirrors (h.setCeiling t r) (h'.setCeiling t r) o := by
  refine ha.framed ha.locks ha.registries ha.calls (fun u => ?_) (fun u => ?_) fun u => ?_
  · rw [ceiling_setCeiling, ceiling_setCeiling, ha.ceiling]
  · rw [slots_setCeiling]
  · rw [slots_setCeiling]

theorem withLocks (ha : Mirrors h h' o) (ls : List (Lock α)) :
    Mirrors { h with locks := ls } { h' with locks := ls } o :=
  ha.framed rfl ha.registries ha.calls ha.ceiling (fun _ => rfl) fun _ => rfl

theorem release (ha : Mirrors h h' o) (t : ThreadId) (g : Guard) (b : Bool) :
    Mirrors (h.release t g b) (h'.release t g b) o := by
  unfold Hierarchy.release
  rw [ha.locks]
  exact (ha.withLocks _).setCeiling t g.previous

theorem admit? (ha : Mirrors h h' o) (t : ThreadId) (l : LockId) (previous : Rank) :
    Option.Rel (fun x x' => Mirrors x.1 x'.1 o ∧ x'.2 = x.2 ∧ x.2.lock = l ∧
      (x.1.standing t).slots = (h.standing t).slots) (h.admit? t l previous) (h'.admit? t l previous) := by
  unfold Hierarchy.admit?
  rw [ha.locks]
  cases h.locks[l]? with
  | none => exact .none
  | some k =>
    cases hm : k.mutex.acquire? t with
    | none => simp [hm]
    | some m =>
      simp only [Option.bind_eq_bind, Option.bind_some, hm]
      refine .some ⟨(ha.withLocks _).setCeiling t _, rfl, rfl, ?_⟩
      rw [slots_setCeiling]
      rfl

/-! ## Changes of one slot -/

theorem put (ha : Mirrors h h' o) {slot : String} {x y : Option Holding} {z : Option LockId} (hs : Stands x y z)
    (a : Puts t slot x h h₁) (b : Puts t slot y h' h₁') (c : o.Puts t slot z o₁) : Mirrors h₁ h₁' o₁ where
  locks := by rw [b.locks, ha.locks, a.locks]
  registries := by rw [b.registries, ha.registries, a.registries]
  calls := by rw [b.calls, ha.calls, a.calls]
  ceiling u := by rw [b.ceiling, ha.ceiling, a.ceiling]
  slots u s := by
    rw [a.slots, b.slots, c]
    split
    · exact hs
    · exact ha.slots u s

end Mirrors

end Interlock.Hierarchy
