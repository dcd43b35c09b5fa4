import Interlock.Proofs.Handles.Moves

/-!
# What a move does to a slot

For every slot of every thread a move is one of the few things that `Change` lists, and what it tells of the handle that
is there is noted. A refused call changes nothing and is not noted. A lock is put only where there is no guard yet: a
handle in a slot may have one of that lock, but then the lock is not free.
-/

namespace Interlock.Hierarchy

variable {α : Type}

/-! ## Notes -/

inductive Note where
  | deferred
  | acquired
  | adopted
  /-- An existing handle has taken its lock. -/
  | locked
  /-- The handle was unlocked with success, whether or not it had a guard. -/
  | unlocked
  deriving Repr, DecidableEq

def Note.isFirst : Note → Bool
  | .deferred => true
  | .acquired => true
  | .adopted => true
  | .locked => false
  | .unlocked => false

/-- The slot of the handle that a lock is taken for. -/
def Aim.note? : Aim → Option (String × Note)
  | .guard _ => none
  | .newHandle slot => some (slot, .acquired)
  | .handle slot => some (slot, .locked)

def Deed.note? : Deed → Outcome → Option (String × Note)
  | .tryLock _ aim, .flag true => aim.note?
  | .unlockHandle slot, .done => some (slot, .unlocked)
  | .defer _ slot, .done => some (slot, .deferred)
  | .adopt _ target, .done => some (target, .adopted)
  | _, _ => none

/-- What is noted of a move, of whose handle in which slot: nothing of a call that was refused. A call that waits for a
lock takes it in the step in which it comes to its answer. -/
def note? (h : Hierarchy α) : Move α → Option (ThreadId × String × Note)
  | .step t _ =>
    match h.calls.current? t with
    | some (.waiting _ _ (.hold aim)) => aim.note?.map (t, ·)
    | _ => none
  | .perform t d => (h.perform? t d).bind fun x => (d.note? x.2).map (t, ·)
  | _ => none

/-- What is noted of the handle in the slot. -/
def noted (n : Option (ThreadId × String × Note)) (u : ThreadId) (slot : String) : Option Note :=
  n.bind fun (t, s, n) => if t = u ∧ s = slot then some n else none

/-- The notes on the handle in a slot: those on one that was there before are gone. -/
def written (notes : List Note) : Option Note → List Note
  | none => notes
  | some n => if n.isFirst then [n] else n :: notes

structure Diary (α : Type) where
  state : Hierarchy α := {}
  /-- The notes on the handle in each slot, the latest first. -/
  notes : ThreadId → String → List Note := fun _ _ => []

def Diary.next? (d : Diary α) (m : Move α) : Option (Diary α) :=
  (d.state.move? m).map fun h =>
    ⟨h, fun t slot => written (d.notes t slot) (noted (d.state.note? m) t slot)⟩

/-! ## What a move does to a slot -/

/-- What can become of a slot, and what is noted then. -/
inductive Change : Option Holding → Option Note → Option Holding → Prop
  | same (x : Option Holding) : Change x none x
  | gone (x : Option Holding) : Change x none none
  | filled (g : Guard) : Change none none (some (.guard g))
  | refused (v : Violation) (g : Guard) : Change (some (.guard g)) none (some (.refused v g))
  | recovered (v : Violation) (g : Guard) : Change (some (.refused v g)) none (some (.guard g))
  | detached {k : Handle} {g : Guard} (hk : k.guard = some g) : Change (some (.handle k)) none (some (.guard g))
  | deferred (l : LockId) : Change none (some .deferred) (some (.handle ⟨l, .unlocked, none⟩))
  | acquired (g : Guard) : Change none (some .acquired) (some (.handle ⟨g.lock, .locked, some g⟩))
  | adopted {x : Option Holding} {g : Guard} (hx : x = none ∨ x = some (.guard g)) :
      Change x (some .adopted) (some (.handle ⟨g.lock, .adopted, some g⟩))
  | locked {k : Handle} (g : Guard) (hk : k.guard = none) :
      Change (some (.handle k)) (some .locked) (some (.handle ⟨g.lock, .locked, some g⟩))
  | idle {k : Handle} (hk : k.guard = none) : Change (some (.handle k)) (some .unlocked) (some (.handle k))
  | released {k : Handle} {g : Guard} (hk : k.guard = some g) :
      Change (some (.handle k)) (some .unlocked) (some (.handle ⟨k.lock, .unlocked, none⟩))

section
variable {h h₁ h' : Hierarchy α} {t u : ThreadId} {s slot : String} {x y : Option Holding}

/-- A slot is changed, and something is noted of what is in it. -/
theorem Change.put {n : Option Note} (hc : Change (h.slot? t s) n y) (a : Puts t s y h h') (u : ThreadId)
    (slot : String) : Change (h.slot? u slot) (noted (n.map fun n => (t, s, n)) u slot) (h'.slot? u slot) := by
  rw [a.slots]
  by_cases hat : t = u ∧ s = slot
  · obtain ⟨rfl, rfl⟩ := hat
    cases n <;> simpa [noted] using hc
  · rw [if_neg hat]
    cases n with
    | none => exact .same _
    | some n =>
      have hnone : noted (some (t, s, n)) u slot = none := if_neg hat
      exact hnone ▸ .same _

theorem slot?_congr (hs : (h'.standing u).slots = (h.standing u).slots) (slot : String) :
    h'.slot? u slot = h.slot? u slot := by
  rw [slot?, hs, slot?]

theorem slot?_release (h : Hierarchy α) (t u : ThreadId) (g : Guard) (b : Bool) (slot : String) :
    (h.release t g b).slot? u slot = h.slot? u slot := slot?_congr (slots_release ..) slot

/-- A lock is put in a slot that is free, or in a handle that holds nothing. -/
theorem change_deliver {l : LockId} {previous : Rank} {g : Guard} {aim : Aim} (ht : h.Tidy t)
    (hacc : h.accepts t l aim = true) (ha : h.admit? t l previous = some (h₁, g)) (u : ThreadId) (slot : String) :
    Change (h.slot? u slot) (noted (aim.note?.map (t, ·)) u slot) ((h₁.deliver t g aim).slot? u slot) := by
  obtain ⟨-, hfree, -, -, -, hslots, -⟩ := admit?_eq ha
  have hnone := ht.displaced_eq_zero hacc hfree
  rw [← slot?_congr (hslots u)]
  cases aim with
  | guard s =>
    rw [accepts, Option.isNone_iff_eq_none, ← slot?_congr (hslots t)] at hacc
    exact Change.put (n := none) (hacc ▸ .filled g) (puts_setSlot h₁ t s _) u slot
  | newHandle s =>
    rw [accepts, Option.isNone_iff_eq_none, ← slot?_congr (hslots t)] at hacc
    exact Change.put (n := some .acquired) (hacc ▸ .acquired g) (puts_setSlot h₁ t s _) u slot
  | handle s =>
    simp only [accepts] at hacc
    split at hacc
    · rename_i k hk
      have hguard : k.guard = none := by
        rw [displaced, Aim.slot, hk, Option.elim_some, Holding.guards, Holding.guard?] at hnone
        cases hg : k.guard with
        | none => rfl
        | some g => simp [hg] at hnone
      rw [← slot?_congr (hslots t)] at hk
      exact Change.put (n := some .locked) (hk ▸ .locked g hguard) (puts_setSlot h₁ t s _) u slot
    · cases hacc

/-! ## Calls -/

theorem threads_approach (h : Hierarchy α) (t : ThreadId) (l : LockId) (p : Purpose α) (inHand : List Guard) :
    (h.approach t l p inHand).threads = h.threads := by
  unfold approach
  split <;> rfl

theorem threads_inquire (env : Environment) (t : ThreadId) (h : Hierarchy α) (g : Guard) (r : RegistryId)
    (i : Inquiry α) : (inquire env t h g r i).threads = h.threads := by
  have opened (name : String) (callback : Bool) : (h.openEntry t g name callback).threads = h.threads := by
    unfold openEntry
    split
    · rfl
    · exact threads_approach ..
  cases i with
  | insert name v =>
    simp only [inquire]
    split <;> rfl
  | get name => exact opened name false
  | update name => exact opened name true
  | _ => rfl

theorem slots_dropNext (h : Hierarchy α) (t u : ThreadId) (gs : List Guard) (a : Answer α) :
    ((h.dropNext t gs a).standing u).slots = (h.standing u).slots := by
  cases gs with
  | nil => rfl
  | cons g gs =>
    simp only [dropNext]
    split
    · exact slots_release h t u g a.isPanic
    · rfl

theorem slot?_takeOut (t u : ThreadId) (slot : String) : ∀ (slots : List String) (h : Hierarchy α),
    (h.takeOut t slots).1.slot? u slot = if t = u ∧ slot ∈ slots then none else h.slot? u slot
  | [], h => by simp [takeOut]
  | s :: slots, h => by
    have cleared := (puts_clearSlot h t s).slots u slot
    simp only [takeOut, slot?_takeOut t u slot slots, cleared, List.mem_cons]
    grind

theorem change_of_threads (ht : h'.threads = h.threads) (u : ThreadId) (slot : String) :
    Change (h.slot? u slot) none (h'.slot? u slot) := by
  have hslots : (h'.standing u).slots = (h.standing u).slots := by rw [standing, ht, standing]
  rw [slot?_congr hslots]
  exact .same _

theorem change_enter (h : Hierarchy α) (t : ThreadId) (r : Request α) (u : ThreadId) (slot : String) :
    Change (h.slot? u slot) none ((h.enter t r).slot? u slot) := by
  cases r with
  | lock l aim => exact change_of_threads (threads_approach ..) u slot
  | registry r i =>
    simp only [enter]
    split
    · exact change_of_threads (threads_approach ..) u slot
    · exact .same _
  | drop slots panic =>
    have taken : (h.enter t (.drop slots panic)).slot? u slot = _ := slot?_takeOut t u slot slots h
    rw [taken]
    split
    · exact .gone _
    · exact .same _

theorem change_step {env : Environment} (ht : h.Tidy t) (hs : h.step? env t = some h') (u : ThreadId) (slot : String) :
    Change (h.slot? u slot) (noted (h.note? (.step t env)) u slot) (h'.slot? u slot) := by
  cases stepped hs with
  | @enters r hc =>
    have hn : h.note? (.step t env) = none := by simp only [note?, hc]
    rw [hn]
    exact change_enter h t r u slot
  | @admitted l previous q h₁ g hc ha =>
    have hadmitted := slot?_congr ((admit?_eq ha).2.2.2.2.2.1 u) slot
    cases q with
    | hold aim =>
      have hn : h.note? (.step t env) = aim.note?.map (t, ·) := by simp only [note?, hc]
      rw [hn]
      exact change_deliver ht (ht.aimed _ l aim hc rfl) ha u slot
    | inquire r i =>
      have hn : h.note? (.step t env) = none := by simp only [note?, hc]
      rw [hn, ← hadmitted]
      exact change_of_threads (threads_inquire env t h₁ g r i) u slot
    | visit d callback =>
      have hn : h.note? (.step t env) = none := by simp only [note?, hc]
      rw [hn, ← hadmitted]
      cases callback <;> exact .same _
  | @drops gs a hc =>
    have hn : h.note? (.step t env) = none := by simp only [note?, hc]
    rw [hn, slot?_congr (slots_dropNext h t u gs a)]
    exact .same _

/-! ## Deeds -/

theorem change_tryLock {l : LockId} {aim : Aim} (ht : h.Tidy t) (hacc : h.accepts t l aim = true) (u : ThreadId)
    (slot : String) : Change (h.slot? u slot)
      (noted (((Deed.tryLock l aim).note? (h.tryLock t l aim).2).map (t, ·)) u slot)
      ((h.tryLock t l aim).1.slot? u slot) := by
  cases hc : h.checkAcquire t l with
  | error v =>
    have he : h.tryLock t l aim = (h, .violated v) := by simp only [tryLock, hc]
    rw [he]
    exact .same _
  | ok previous =>
    cases ha : h.admit? t l previous with
    | none =>
      have he : h.tryLock t l aim = (h, .flag false) := by simp only [tryLock, hc, ha]
      rw [he]
      exact .same _
    | some x =>
      have he : h.tryLock t l aim = (x.1.deliver t x.2 aim, .flag true) := by simp only [tryLock, hc, ha]
      rw [he]
      exact change_deliver ht hacc ha u slot

theorem change_unlock {g : Guard} (hs : h.slot? t s = some (.guard g)) (u : ThreadId) (slot : String) :
    Change (h.slot? u slot) (noted (((Deed.unlock s).note? (h.unlock t s g).2).map (t, ·)) u slot)
      ((h.unlock t s g).1.slot? u slot) := by
  unfold unlock
  cases h.checkRelease t g with
  | ok =>
    rw [← slot?_release h t u g false]
    exact Change.put (n := none) (.gone _) (puts_clearSlot _ t s) u slot
  | error v => exact Change.put (n := none) (hs ▸ .refused v g) (puts_setSlot h t s _) u slot

theorem change_unlockHandle {k : Handle} (hs : h.slot? t s = some (.handle k)) (u : ThreadId) (slot : String) :
    Change (h.slot? u slot) (noted (((Deed.unlockHandle s).note? (h.unlockHandle t s k).2).map (t, ·)) u slot)
      ((h.unlockHandle t s k).1.slot? u slot) := by
  unfold unlockHandle
  cases hk : k.guard with
  | none => exact Change.put (n := some .unlocked) (hs ▸ .idle hk) (puts_self hs) u slot
  | some g =>
    simp only
    cases h.checkRelease t g with
    | ok =>
      have hs' : (h.release t g false).slot? t s = some (.handle k) := by rw [slot?_release, hs]
      rw [← slot?_release h t u g false]
      exact Change.put (n := some .unlocked) (hs' ▸ .released hk) (puts_setSlot _ t s _) u slot
    | error v => exact .same _

/-- What is in the one slot goes to the other in another form. -/
theorem change_moved {source target : String} (hmove : h.canMove t source target = true) {n : Option Note} {w : Holding}
    (hfree : Change none n (some w)) (hsame : Change (h.slot? t source) n (some w)) (u : ThreadId) (slot : String) :
    Change (h.slot? u slot) (noted (n.map fun n => (t, target, n)) u slot)
      (((h.clearSlot t source).setSlot t target w).slot? u slot) := by
  have cleared := puts_clearSlot h t source
  have placed := puts_setSlot (h.clearSlot t source) t target w
  by_cases hat : t = u ∧ source = slot
  · obtain ⟨rfl, rfl⟩ := hat
    rw [placed.slots]
    by_cases hst : target = source
    · subst hst
      rw [if_pos ⟨rfl, rfl⟩]
      cases n <;> simpa [noted] using hsame
    · rw [if_neg fun hat => hst hat.2, cleared.slots, if_pos ⟨rfl, rfl⟩]
      cases n with
      | none => exact .gone _
      | some n =>
        have hnone : noted (some (t, target, n)) t source = none := if_neg fun hat => hst hat.2
        exact hnone ▸ .gone _
  · have hbefore := cleared.slots u slot
    rw [if_neg hat] at hbefore
    rw [← hbefore]
    exact Change.put (slot?_of_canMove hmove ▸ hfree) placed u slot

theorem change_detach {source target : String} {k : Handle} (hs : h.slot? t source = some (.handle k))
    (hmove : h.canMove t source target = true) (u : ThreadId) (slot : String) :
    Change (h.slot? u slot) none ((h.detach t source target k).1.slot? u slot) := by
  unfold detach
  cases hk : k.guard with
  | none => exact Change.put (n := none) (.gone _) (puts_clearSlot h t source) u slot
  | some g => exact change_moved (n := none) hmove (.filled g) (hs ▸ .detached hk) u slot

theorem change_attempt {d : Deed} {x : Hierarchy α × Outcome} (ht : h.Tidy t) (hd : h.attempt? t d = some x)
    (u : ThreadId) (slot : String) :
    Change (h.slot? u slot) (noted ((d.note? x.2).map (t, ·)) u slot) (x.1.slot? u slot) := by
  cases attempted hd with
  | tryLock hacc => exact change_tryLock ht hacc u slot
  | unlock hs => exact change_unlock hs u slot
  | @recover s v g hs => exact Change.put (n := none) (hs ▸ .recovered v g) (puts_setSlot h t s _) u slot
  | unlockHandle hs => exact change_unlockHandle hs u slot
  | @defer l s hs => exact Change.put (n := some .deferred) (hs ▸ .deferred l) (puts_setSlot h t s _) u slot
  | @adopt source target g hs hmove =>
    exact change_moved (n := some .adopted) hmove (.adopted (.inl rfl)) (.adopted (.inr hs)) u slot
  | @detach source target k hs hmove =>
    have hn : (Deed.detach source target).note? (h.detach t source target k).2 = none := rfl
    rw [hn]
    exact change_detach hs hmove u slot

/-- What a move does to a slot of any thread. -/
theorem change_move {m : Move α} (hr : Reachable h) (hm : h.move? m = some h') (u : ThreadId) (slot : String) :
    Change (h.slot? u slot) (noted (h.note? m) u slot) (h'.slot? u slot) := by
  cases moved hm with
  | @step t env h' hs => exact change_step (hr.tidy t) hs u slot
  | @perform t d x hfree hd =>
    have hn : h.note? (.perform t d) = (d.note? x.2).map (t, ·) := by
      simp only [note?, perform?, if_pos hfree, hd, Option.bind_some]
    rw [hn]
    exact change_attempt (hr.tidy t) hd u slot
  | @leak t s _ => exact Change.put (n := none) (.gone _) (puts_clearSlot h t s) u slot
  | _ => exact .same _

end

end Interlock.Hierarchy
