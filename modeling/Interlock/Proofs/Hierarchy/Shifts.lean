import Interlock.Proofs.Hierarchy.Views

/-!
# What a move can do

`move_transfer`: a move of any kind is quiet, or takes one lock that the thread may take and has one more
guard for it, or releases one guard that the thread has in hand and that is in order. It also says which
guards the thread no longer has though it has not released them: where slots are in order (`Tidy`), those only
of a refused drop, and what is in a slot that is lost. `move_shift` says the same but for these.
-/

namespace Interlock.Hierarchy

variable {α : Type}

/-- Nothing is known of a phase, but that a check of the order still stands when it is waited on. -/
def Ready (h : Hierarchy α) (t : ThreadId) : Phase α → Prop
  | .waiting l previous _ => previous = h.ceiling t ∧ h.rank l < previous
  | _ => True

/-- The innermost call of the thread may wait; all others are in their callbacks. -/
def Poised (h : Hierarchy α) (t : ThreadId) : Prop :=
  ∀ p rest, h.phases t = p :: rest → h.Ready t p ∧ ∀ q ∈ rest, q.isVisiting = true

/-- A move of the thread on its way to another innermost phase, once the mutex is dealt with. -/
structure Lands (t : ThreadId) (rest : List (Phase α)) (gain loss : Multiset Guard)
    (h h' : Hierarchy α) : Prop extends Quiet t gain loss h h' where
  lands : ∃ p, h'.phases t = p :: rest ∧ h'.Ready t p

inductive Shift (t : ThreadId) (h h' : Hierarchy α) : Prop
  | keep (lost : Multiset Guard) (quiet : Quiet t 0 lost h h')
  | take (l : LockId) (h₁ : Hierarchy α) (g : Guard) (lost : Multiset Guard)
      (admitted : h.admit? t l (h.ceiling t) = some (h₁, g)) (below : h.rank l < h.ceiling t)
      (quiet : Quiet t {g} lost h₁ h')
  | free (g : Guard) (panicking : Bool) (inOrder : h.ceiling t = h.rank g.lock)
      (quiet : Quiet t 0 {g} (h.release t g panicking) h')

/-! ## Slots in order -/

def Aim.slot : Aim → String
  | .guard slot => slot
  | .newHandle slot => slot
  | .handle slot => slot

/-- The guards that go when a guard is put where it is aimed at. -/
def displaced (h : Hierarchy α) (t : ThreadId) (aim : Aim) : Multiset Guard :=
  (h.slot? t aim.slot).elim 0 Holding.guards

def Purpose.displaced (h : Hierarchy α) (t : ThreadId) : Purpose α → Multiset Guard
  | .hold aim => h.displaced t aim
  | .inquire _ _ => 0
  | .visit _ _ => 0

/-- The guard that goes by the next drop of these, when the drop is refused. -/
def refusedDrop (h : Hierarchy α) (t : ThreadId) : List Guard → Multiset Guard
  | [] => 0
  | g :: _ => match h.checkRelease t g with
    | .ok () => 0
    | .error _ => {g}

/-- What passes between a thread and a mutex. -/
inductive Traffic where
  | none
  | taken (t : ThreadId) (l : LockId)
  | released (t : ThreadId) (l : LockId)
  deriving Repr, DecidableEq

def taking (h : Hierarchy α) (t : ThreadId) (l : LockId) (previous : Rank) : Traffic :=
  match h.admit? t l previous with
  | some _ => .taken t l
  | none => .none

def releasing (h : Hierarchy α) (t : ThreadId) (g : Guard) : Traffic :=
  match h.checkRelease t g with
  | .ok () => .released t g.lock
  | .error _ => .none

def Deed.traffic (h : Hierarchy α) (t : ThreadId) : Deed → Traffic
  | .tryLock l _ =>
    match h.checkAcquire t l with
    | .ok previous => h.taking t l previous
    | .error _ => .none
  | .unlock slot =>
    match h.slot? t slot with
    | some (.guard g) => h.releasing t g
    | _ => .none
  | .unlockHandle slot =>
    match h.slot? t slot with
    | some (.handle k) => k.guard.elim .none (h.releasing t)
    | _ => .none
  | _ => .none

/-- The lock that is taken or released by a move. -/
def traffic (h : Hierarchy α) : Move α → Traffic
  | .step t _ =>
    match h.calls.current? t with
    | some (.waiting l previous _) => h.taking t l previous
    | some (.releasing gs _) => gs.head?.elim .none (h.releasing t)
    | _ => .none
  | .perform t d => d.traffic h t
  | _ => .none

/-- The guards of the thread that go by a move though they are not released. -/
def lost (h : Hierarchy α) : Move α → ThreadId → Multiset Guard
  | .step t _, u => if t = u then
      match h.calls.current? t with
      | some (.releasing gs _) => h.refusedDrop t gs
      | _ => 0
    else 0
  | .leak t slot, u => if t = u then (h.slot? t slot).elim 0 Holding.guards else 0
  | _, _ => 0

/-- The lock that the call wants to have in a slot. -/
def Phase.wanted? : Phase α → Option (LockId × Aim)
  | .entering (.lock l aim) => some (l, aim)
  | .waiting l _ (.hold aim) => some (l, aim)
  | _ => none

/-- A handle holds no guard but one of its own lock. -/
def Holding.Matched : Holding → Prop
  | .handle k => ∀ g, k.guard = some g → g.lock = k.lock
  | _ => True

/-- Handles hold guards of their own locks, what is in hand is held, and a call that takes a lock still finds the
slot that it aims at as it was. -/
structure Tidy (h : Hierarchy α) (t : ThreadId) : Prop where
  matched : ∀ slot x, h.slot? t slot = some x → x.Matched
  backed : ∀ g ∈ h.owned t, h.holder? g.lock = some t
  aimed : ∀ p l aim, h.calls.current? t = some p → p.wanted? = some (l, aim) → h.accepts t l aim = true

/-- A shift with just this traffic, in which the thread loses just these guards without releasing them. -/
inductive Transfer (t : ThreadId) (k : Traffic) (lost : Multiset Guard) (h h' : Hierarchy α) : Prop
  | keep (traffic : k = .none) (quiet : Quiet t 0 lost h h')
  | take (l : LockId) (h₁ : Hierarchy α) (g : Guard) (traffic : k = .taken t l)
      (admitted : h.admit? t l (h.ceiling t) = some (h₁, g)) (below : h.rank l < h.ceiling t)
      (none : h.Tidy t → lost = 0) (quiet : Quiet t {g} lost h₁ h')
  | free (g : Guard) (panicking : Bool) (traffic : k = .released t g.lock) (inOrder : h.ceiling t = h.rank g.lock)
      (none : lost = 0) (quiet : Quiet t 0 {g} (h.release t g panicking) h')

theorem Transfer.shift {t : ThreadId} {k : Traffic} {lost : Multiset Guard} {h h' : Hierarchy α}
    (a : Transfer t k lost h h') : Shift t h h' := by
  cases a with
  | keep _ hq => exact .keep lost hq
  | take l h₁ g _ ha hl _ hq => exact .take l h₁ g lost ha hl hq
  | free g b _ hc _ hq => exact .free g b hc hq

theorem slot?_setSlot (h : Hierarchy α) (t : ThreadId) (slot target : String) (y : Holding) :
    (h.setSlot t slot y).slot? t target = if slot = target then some y else h.slot? t target := by
  simp only [slot?, setSlot, standing_setStanding, if_pos, Table.get?_insert]

theorem slot?_clearSlot (h : Hierarchy α) (t : ThreadId) (source target : String) :
    (h.clearSlot t source).slot? t target = if source = target then none else h.slot? t target := by
  simp only [slot?, clearSlot, standing_setStanding, if_pos, Table.get?_erase]

theorem displaced_admitted {h h₁ : Hierarchy α} {t : ThreadId} {l : LockId} {previous : Rank} {g : Guard}
    (ha : h.admit? t l previous = some (h₁, g)) {aim : Aim} : h₁.displaced t aim = h.displaced t aim := by
  obtain ⟨-, -, -, -, -, hslots, -⟩ := admit?_eq ha
  rw [displaced, displaced, slot?, slot?, hslots]

theorem guards_le_owned {h : Hierarchy α} {t : ThreadId} {slot : String} {x : Holding}
    (hs : h.slot? t slot = some x) : x.guards ≤ h.owned t := by
  have herase := Standing.guards_erase (h.standing t) slot
  rw [slot?] at hs
  rw [hs, Option.elim_some] at herase
  calc x.guards ≤ (h.standing t).guards := by
        rw [← herase]
        exact Multiset.le_add_left _ _
    _ ≤ h.owned t := Multiset.le_add_right _ _

/-- A guard of a lock that was free displaces none: a handle that has one already has one of that lock. -/
theorem Tidy.displaced_eq_zero {h : Hierarchy α} {t : ThreadId} (ht : h.Tidy t) {l : LockId} {aim : Aim}
    (hacc : h.accepts t l aim = true) (hfree : h.holder? l = none) : h.displaced t aim = 0 := by
  unfold displaced
  cases aim with
  | guard slot =>
    rw [accepts, Option.isNone_iff_eq_none] at hacc
    rw [Aim.slot, hacc]
    rfl
  | newHandle slot =>
    rw [accepts, Option.isNone_iff_eq_none] at hacc
    rw [Aim.slot, hacc]
    rfl
  | handle slot =>
    simp only [accepts] at hacc
    rw [Aim.slot]
    cases hs : h.slot? t slot with
    | none => rfl
    | some x =>
      rw [hs] at hacc
      cases x with
      | guard g => cases hacc
      | refused v g => cases hacc
      | handle k =>
        cases hk : k.guard with
        | none => simp [Holding.guards, Holding.guard?, hk]
        | some g =>
          have hg : g ∈ h.owned t := by
            refine Multiset.mem_of_le (guards_le_owned hs) ?_
            simp [Holding.guards, Holding.guard?, hk]
          have hlock : g.lock = l := (ht.matched slot _ hs g hk).trans (of_decide_eq_true hacc)
          have hheld := ht.backed g hg
          rw [hlock, hfree] at hheld
          cases hheld

section Calls
variable {h h₁ h' : Hierarchy α} {t : ThreadId} {p₀ : Phase α} {rest : List (Phase α)}
variable {gain loss : Multiset Guard}

theorem Lands.cancel {m : Multiset Guard} (a : Lands t rest (gain + m) (loss + m) h h') :
    Lands t rest gain loss h h' :=
  ⟨a.toQuiet.cancel, a.lands⟩

theorem lands_into (hp : h.phases t = p₀ :: rest) {p : Phase α} (hr : h.Ready t p) :
    Lands t rest p.guards p₀.guards h (h.into t p) where
  toQuiet := quiet_into hp p
  lands := by
    refine ⟨p, phases_into hp p, ?_⟩
    cases p with
    | waiting l previous q => exact hr
    | _ => trivial

theorem Quiet.lands (a : Quiet t gain loss h h₁) (hp : h₁.phases t = p₀ :: rest) {p : Phase α}
    (hr : h₁.Ready t p) : Lands t rest (gain + p.guards) (loss + p₀.guards) h (h₁.into t p) :=
  have b := lands_into hp hr
  ⟨a.trans b.toQuiet, b.lands⟩

theorem checkAcquire_ok {l : LockId} {previous : Rank} (hc : h.checkAcquire t l = .ok previous) :
    previous = h.ceiling t ∧ h.rank l < previous := by
  unfold checkAcquire at hc
  split at hc
  · cases hc
  · rename_i hl
    cases hc
    exact ⟨rfl, Nat.lt_of_not_le hl⟩

theorem lands_approach (hp : h.phases t = p₀ :: rest) (l : LockId) {p : Purpose α} {inHand : List Guard}
    (hg : p.guards = inHand) : Lands t rest inHand p₀.guards h (h.approach t l p inHand) := by
  unfold approach
  cases hc : h.checkAcquire t l with
  | ok previous =>
    have := lands_into hp (p := .waiting l previous p) (checkAcquire_ok hc)
    rwa [show (Phase.waiting l previous p).guards = inHand from hg] at this
  | error v => exact lands_into hp (p := .releasing inHand (.violated v)) trivial

theorem quiet_takeOut (t : ThreadId) : ∀ (slots : List String) (h : Hierarchy α),
    Quiet t 0 (h.takeOut t slots).2 h (h.takeOut t slots).1 ∧
      (h.takeOut t slots).1.phases t = h.phases t
  | [], h => ⟨Quiet.refl t h, rfl⟩
  | slot :: slots, h => by
    obtain ⟨hq, hp⟩ := quiet_takeOut t slots (h.clearSlot t slot)
    have := (quiet_clearSlot h t slot).trans hq
    refine ⟨?_, hp⟩
    have hg : (h.slot? t slot).elim 0 Holding.guards =
        (((h.slot? t slot).bind Holding.guard?).toList : Multiset Guard) := by
      cases hs : h.slot? t slot with
      | none => rfl
      | some x => cases hx : x.guard? <;> simp [Holding.guards, hx]
    rwa [add_zero, hg, Multiset.coe_add] at this

theorem lands_enter {r : Request α} (hp : h.phases t = .entering r :: rest) :
    Lands t rest 0 0 h (h.enter t r) := by
  cases r with
  | lock l aim => exact lands_approach hp l (p := .hold aim) rfl
  | drop slots panic =>
    obtain ⟨hq, hp'⟩ := quiet_takeOut t slots h
    have hl (a : Answer α) : Lands t rest 0 0 h
        ((h.takeOut t slots).1.into t (.releasing (h.takeOut t slots).2 a)) := by
      have := hq.lands (hp'.trans hp) (p := .releasing (h.takeOut t slots).2 a) trivial
      exact Lands.cancel (by rwa [add_comm (Multiset.ofList _)] at this)
    exact hl _
  | registry r i =>
    simp only [enter]
    cases h.registries[r]? with
    | some k => exact lands_approach hp k.directory (p := .inquire r i) rfl
    | none => exact lands_into hp (p := .returned .done) trivial

theorem lands_openEntry (hp : h.phases t = p₀ :: rest) (g : Guard) (name : String) (callback : Bool) :
    Lands t rest {g} p₀.guards h (h.openEntry t g name callback) := by
  unfold openEntry
  cases (h.names g.lock).get? name with
  | none => exact lands_into hp (p := .releasing [g] _) trivial
  | some l => exact lands_approach hp l (p := .visit g callback) rfl

theorem lands_bind (hp : h.phases t = p₀ :: rest) (g : Guard) (r : RegistryId) (name : String) (v : α) :
    Lands t rest {g} p₀.guards h (h.bind t g r name v) := by
  have hq := (quiet_addLock t h (((h.registries[r]?).map (·.entryRank)).getD Rank.unbounded)
    (.element v)).trans (quiet_setContent t _ g.lock
      (.directory ((h.names g.lock).insert name h.locks.length)))
  have hl := hq.lands hp (p := .releasing [g] (.flag ((h.names g.lock).contains name))) trivial
  simp only [zero_add] at hl
  exact hl

theorem lands_inquire (env : Environment) (hp : h.phases t = p₀ :: rest) (g : Guard) (r : RegistryId)
    (i : Inquiry α) : Lands t rest {g} p₀.guards h (inquire env t h g r i) := by
  cases i with
  | insert name v =>
    unfold inquire
    cases env.table (h.names g.lock).size 1 with
    | ok => exact lands_bind hp g r name v
    | error f => exact lands_into hp (p := .releasing [g] _) trivial
  | remove name =>
    have hq := quiet_setContent t h g.lock (.directory ((h.names g.lock).erase name))
    have hl := hq.lands hp (p := .releasing [g] (.bound ((h.names g.lock).get? name))) trivial
    simp only [zero_add] at hl
    exact hl
  | get name => exact lands_openEntry hp g name false
  | update name => exact lands_openEntry hp g name true
  | _ => exact lands_into hp (p := .releasing [g] _) trivial

theorem quiet_deliver (h : Hierarchy α) (t : ThreadId) (g : Guard) (aim : Aim) :
    Quiet t {g} (h.displaced t aim) h (h.deliver t g aim) := by
  cases aim with
  | guard slot => exact quiet_setSlot h t slot (.guard g)
  | newHandle slot => exact quiet_setSlot h t slot (.handle ⟨g.lock, .locked, some g⟩)
  | handle slot => exact quiet_setSlot h t slot (.handle ⟨g.lock, .locked, some g⟩)

theorem phases_deliver (h : Hierarchy α) (t u : ThreadId) (g : Guard) (aim : Aim) :
    (h.deliver t g aim).phases u = h.phases u := by
  cases aim <;> rfl

theorem lands_proceed (env : Environment) {l : LockId} {previous : Rank} {p : Purpose α}
    (hp : h.phases t = .waiting l previous p :: rest) (g : Guard) :
    Lands t rest {g} (p.displaced h t) h (proceed env t h g p) := by
  cases p with
  | hold aim =>
    have hl := (quiet_deliver h t g aim).lands (by rwa [phases_deliver]) (p := .returned .done) trivial
    simp only [Phase.guards, Purpose.guards, add_zero] at hl
    exact hl
  | inquire r i => exact lands_inquire env hp g r i
  | visit directory callback =>
    have hg : ({g, directory} : Multiset Guard) = {g} + {directory} := rfl
    refine Lands.cancel (m := {directory}) ?_
    rw [← hg, Purpose.displaced, zero_add]
    cases callback with
    | true => exact lands_into hp (p := .visiting g directory) trivial
    | false => exact lands_into hp (p := .releasing [g, directory] _) trivial

theorem lands_ended {entry directory : Guard} (hp : h.phases t = .visiting entry directory :: rest)
    (a : Answer α) : Lands t rest 0 0 h (h.into t (.releasing [entry, directory] a)) := by
  have hl := lands_into hp (p := .releasing [entry, directory] a) trivial
  exact Lands.cancel (m := {entry, directory}) (by rw [zero_add]; exact hl)

/-! ## Dropping and releasing -/

theorem checkRelease_ok {g : Guard} (hc : h.checkRelease t g = .ok ()) : h.ceiling t = h.rank g.lock := by
  unfold checkRelease at hc
  split at hc
  · assumption
  · cases hc

theorem releasing_ok {g : Guard} (hc : h.checkRelease t g = .ok ()) : h.releasing t g = .released t g.lock := by
  simp only [releasing, hc]

theorem releasing_error {g : Guard} {v : Violation} (hc : h.checkRelease t g = .error v) :
    h.releasing t g = .none := by
  simp only [releasing, hc]

theorem taking_some {l : LockId} {previous : Rank} {x : Hierarchy α × Guard}
    (ha : h.admit? t l previous = some x) : h.taking t l previous = .taken t l := by
  simp only [taking, ha]

theorem lands_dropped {g : Guard} {gs : List Guard} {a : Answer α}
    (hp : h.phases t = .releasing (g :: gs) a :: rest) (b : Answer α) :
    Lands t rest 0 {g} h (h.into t (.releasing gs b)) := by
  have hl := lands_into hp (p := .releasing gs b) trivial
  have hg : (Phase.releasing (g :: gs) a).guards = {g} + gs := by simp [Phase.guards]
  exact Lands.cancel (m := gs) (by rwa [zero_add, ← hg])

theorem transfer_dropNext {gs : List Guard} {a : Answer α} (hp : h.phases t = .releasing gs a :: rest) :
    Transfer t (gs.head?.elim .none (h.releasing t)) (h.refusedDrop t gs) h (h.dropNext t gs a) ∧
      ∃ p, (h.dropNext t gs a).phases t = p :: rest ∧ (h.dropNext t gs a).Ready t p := by
  cases gs with
  | nil =>
    have hl := lands_into hp (p := .returned a) trivial
    exact ⟨.keep rfl hl.toQuiet, hl.lands⟩
  | cons g gs =>
    rw [List.head?_cons, Option.elim_some]
    cases hc : h.checkRelease t g with
    | ok =>
      simp only [dropNext, refusedDrop, hc]
      have hl := lands_dropped (h := h.release t g a.isPanic) hp a
      exact ⟨.free g a.isPanic (releasing_ok hc) (checkRelease_ok hc) rfl hl.toQuiet, hl.lands⟩
    | error v =>
      simp only [dropNext, refusedDrop, hc]
      have hl := lands_dropped hp (if a.isPanic then a else .panicked v.message)
      exact ⟨.keep (releasing_error hc) hl.toQuiet, hl.lands⟩

/-! ## Deeds -/

theorem transfer_tryLock {l : LockId} {aim : Aim} (hacc : h.accepts t l aim = true) :
    (∃ lost, Transfer t ((Deed.tryLock l aim).traffic h t) lost h (h.tryLock t l aim).1 ∧ (h.Tidy t → lost = 0)) ∧
      (h.tryLock t l aim).1.phases t = h.phases t := by
  cases hc : h.checkAcquire t l with
  | error v =>
    have he : h.tryLock t l aim = (h, .violated v) := by simp only [tryLock, hc]
    rw [he]
    exact ⟨⟨0, .keep (by simp only [Deed.traffic, hc]) (Quiet.refl t h), fun _ => rfl⟩, rfl⟩
  | ok previous =>
    have htraffic : (Deed.tryLock l aim).traffic h t = h.taking t l previous := by simp only [Deed.traffic, hc]
    obtain ⟨rfl, hl⟩ := checkAcquire_ok hc
    cases ha : h.admit? t l (h.ceiling t) with
    | none =>
      have he : h.tryLock t l aim = (h, .flag false) := by simp only [tryLock, hc, ha]
      rw [he]
      exact ⟨⟨0, .keep (by simp only [htraffic, taking, ha]) (Quiet.refl t h), fun _ => rfl⟩, rfl⟩
    | some x =>
      obtain ⟨h₁, g⟩ := x
      have he : h.tryLock t l aim = (h₁.deliver t g aim, .flag true) := by simp only [tryLock, hc, ha]
      rw [he]
      have none (ht : h.Tidy t) : h₁.displaced t aim = 0 := by
        rw [displaced_admitted ha]
        exact ht.displaced_eq_zero hacc (admit?_eq ha).2.1
      have htaken := htraffic.trans (taking_some ha)
      refine ⟨⟨h₁.displaced t aim, .take l h₁ g htaken ha hl none (quiet_deliver h₁ t g aim), none⟩, ?_⟩
      rw [phases_deliver, (admit?_keeps ha t).2]

theorem transfer_unlock {slot : String} {g : Guard} (hs : h.slot? t slot = some (.guard g)) :
    Transfer t ((Deed.unlock slot).traffic h t) 0 h (h.unlock t slot g).1 ∧
      (h.unlock t slot g).1.phases t = h.phases t := by
  have htraffic : (Deed.unlock slot).traffic h t = h.releasing t g := by simp only [Deed.traffic, hs]
  unfold unlock
  rw [htraffic]
  cases hc : h.checkRelease t g with
  | ok =>
    have hq := quiet_clearSlot (h.release t g false) t slot
    rw [slot?, slots_release, ← slot?, hs] at hq
    exact ⟨.free g false (releasing_ok hc) (checkRelease_ok hc) rfl hq, rfl⟩
  | error v =>
    have hq := quiet_setSlot h t slot (.refused v g)
    rw [hs] at hq
    exact ⟨.keep (releasing_error hc) (Quiet.cancel (m := {g}) (by rwa [zero_add])), rfl⟩

theorem transfer_unlockHandle {slot : String} {k : Handle} (hs : h.slot? t slot = some (.handle k)) :
    Transfer t ((Deed.unlockHandle slot).traffic h t) 0 h (h.unlockHandle t slot k).1 ∧
      (h.unlockHandle t slot k).1.phases t = h.phases t := by
  have htraffic : (Deed.unlockHandle slot).traffic h t = k.guard.elim .none (h.releasing t) := by
    simp only [Deed.traffic, hs]
  rw [htraffic]
  cases hk : k.guard with
  | none =>
    have he : h.unlockHandle t slot k = (h, .done) := by simp only [unlockHandle, hk]
    rw [he]
    exact ⟨.keep rfl (Quiet.refl t h), rfl⟩
  | some g =>
    cases hc : h.checkRelease t g with
    | ok =>
      have he : h.unlockHandle t slot k =
          ((h.release t g false).setSlot t slot (.handle ⟨k.lock, .unlocked, none⟩), .done) := by
        simp only [unlockHandle, hk, hc]
      have hq := quiet_setSlot (h.release t g false) t slot (.handle ⟨k.lock, .unlocked, none⟩)
      rw [slot?, slots_release, ← slot?, hs] at hq
      have hg : Holding.guards (.handle k) = {g} := by simp [Holding.guards, Holding.guard?, hk]
      rw [Option.elim_some, hg] at hq
      rw [he]
      exact ⟨.free g false (releasing_ok hc) (checkRelease_ok hc) rfl hq, rfl⟩
    | error v =>
      have he : h.unlockHandle t slot k = (h, .violated v) := by simp only [unlockHandle, hk, hc]
      rw [he]
      exact ⟨.keep (releasing_error hc) (Quiet.refl t h), rfl⟩

theorem slot?_of_canMove {source target : String} (hmove : h.canMove t source target = true) :
    (h.clearSlot t source).slot? t target = none := by
  rw [slot?_clearSlot]
  split
  · rfl
  · rename_i hne
    rw [canMove, Bool.or_eq_true, decide_eq_true_iff] at hmove
    exact Option.isNone_iff_eq_none.mp (hmove.resolve_left hne)

theorem quiet_move {source target : String} {x y : Holding} (hs : h.slot? t source = some x)
    (hmove : h.canMove t source target = true) (hg : y.guards = x.guards) :
    Quiet t 0 0 h ((h.clearSlot t source).setSlot t target y) := by
  have hfree := slot?_of_canMove hmove
  have hq := (quiet_clearSlot h t source).trans (quiet_setSlot (h.clearSlot t source) t target y)
  rw [hs, Option.elim_some, hg, hfree, Option.elim_none, add_comm (Holding.guards x) 0] at hq
  exact hq.cancel

theorem transfer_detach {source target : String} {k : Handle} (hs : h.slot? t source = some (.handle k))
    (hmove : h.canMove t source target = true) : Transfer t .none 0 h (h.detach t source target k).1 ∧
      (h.detach t source target k).1.phases t = h.phases t := by
  unfold detach
  cases hk : k.guard with
  | none =>
    have hq := quiet_clearSlot h t source
    have hg : Holding.guards (.handle k) = 0 := by simp [Holding.guards, Holding.guard?, hk]
    rw [hs, Option.elim_some, hg] at hq
    exact ⟨.keep rfl hq, rfl⟩
  | some g =>
    have hq := quiet_move hs hmove (y := .guard g) (by simp [Holding.guards, Holding.guard?, hk])
    exact ⟨.keep rfl hq, rfl⟩

theorem transfer_attempt {d : Deed} {x : Hierarchy α × Outcome} (hd : h.attempt? t d = some x) :
    (∃ lost, Transfer t (d.traffic h t) lost h x.1 ∧ (h.Tidy t → lost = 0)) ∧ x.1.phases t = h.phases t := by
  have none_lost {h' : Hierarchy α} {k : Traffic} (s : Transfer t k 0 h h' ∧ h'.phases t = h.phases t) :
      (∃ lost, Transfer t k lost h h' ∧ (h.Tidy t → lost = 0)) ∧ h'.phases t = h.phases t :=
    ⟨⟨0, s.1, fun _ => rfl⟩, s.2⟩
  cases attempted hd with
  | tryLock hacc => exact transfer_tryLock hacc
  | unlock hs => exact none_lost (transfer_unlock hs)
  | @recover slot v g hs =>
    have hq := quiet_setSlot h t slot (.guard g)
    rw [hs] at hq
    exact none_lost ⟨.keep rfl (Quiet.cancel (m := {g}) (by rwa [zero_add])), rfl⟩
  | unlockHandle hs => exact none_lost (transfer_unlockHandle hs)
  | @defer l slot hs =>
    have hq := quiet_setSlot h t slot (.handle ⟨l, .unlocked, none⟩)
    rw [hs] at hq
    exact none_lost ⟨.keep rfl hq, rfl⟩
  | adopt hs hmove => exact none_lost ⟨.keep rfl (quiet_move hs hmove rfl), rfl⟩
  | detach hs hmove => exact none_lost (transfer_detach hs hmove)

/-! ## All moves -/

theorem Shift.rank (s : Shift t h h') {l : LockId} (hl : h.rank l < Rank.unbounded) :
    h'.rank l = h.rank l := by
  cases s with
  | keep lost hq => exact hq.rank l hl
  | take k h₁ g lost ha _ hq =>
    obtain ⟨-, -, hr, -⟩ := admit?_eq ha
    rw [hq.rank l (by rwa [hr]), hr]
  | free g b _ hq => rw [hq.rank l (by rwa [rank_release]), rank_release]

theorem Shift.others (s : Shift t h h') {u : ThreadId} (hu : t ≠ u) :
    h'.ceiling u = h.ceiling u ∧ h'.owned u = h.owned u ∧ h'.phases u = h.phases u := by
  cases s with
  | keep lost hq => exact ⟨hq.ceiling u, hq.others u hu⟩
  | take k h₁ g lost ha _ hq =>
    obtain ⟨-, -, -, -, hc, -⟩ := admit?_eq ha
    obtain ⟨ho, hp⟩ := hq.others u hu
    obtain ⟨ho₁, hp₁⟩ := admit?_keeps ha u
    exact ⟨by rw [hq.ceiling, hc, if_neg hu], ho.trans ho₁, hp.trans hp₁⟩
  | free g b _ hq =>
    obtain ⟨ho, hp⟩ := hq.others u hu
    exact ⟨by rw [hq.ceiling, ceiling_release, if_neg hu], ho.trans (owned_release ..), hp⟩

theorem poised_of_visiting {u : ThreadId} (hv : ∀ p ∈ h.phases u, p.isVisiting = true) : h.Poised u := by
  intro p rest hp
  rw [hp] at hv
  refine ⟨?_, fun q hq => hv q (List.mem_cons_of_mem p hq)⟩
  have := hv p List.mem_cons_self
  cases p with
  | waiting l previous q => simp [Phase.isVisiting] at this
  | _ => trivial

theorem Poised.congr {u : ThreadId} (hw : h.Poised u) (hb : h.ceiling u ≤ Rank.unbounded)
    (hp : h'.phases u = h.phases u) (hc : h'.ceiling u = h.ceiling u)
    (hr : ∀ l, h.rank l < Rank.unbounded → h'.rank l = h.rank l) : h'.Poised u := by
  intro p rest hcons
  obtain ⟨hready, hrest⟩ := hw p rest (hp ▸ hcons)
  refine ⟨?_, hrest⟩
  cases p with
  | waiting l previous q =>
    obtain ⟨rfl, hl⟩ := hready
    exact ⟨hc.symm, by rwa [hr l (Nat.lt_of_lt_of_le hl hb)]⟩
  | _ => trivial

theorem Lands.poised (a : Lands t rest gain loss h h') (hv : ∀ q ∈ rest, q.isVisiting = true) :
    h'.Poised t := by
  obtain ⟨p, hp, hr⟩ := a.lands
  intro p' rest' hp'
  rw [hp] at hp'
  cases hp'
  exact ⟨hr, hv⟩

theorem phases_eq_cons {p : Phase α} (hp : h.calls.current? t = some p) :
    h.phases t = p :: (h.phases t).tail :=
  Calls.of_eq_cons hp

theorem visiting_of_isFree (hw : h.Poised t) (hf : h.isFree t = true) :
    ∀ p ∈ h.phases t, p.isVisiting = true := by
  unfold isFree at hf
  cases hc : h.calls.current? t with
  | none =>
    have : h.phases t = [] := Calls.of_eq_nil hc
    simp [this]
  | some p =>
    have hp := phases_eq_cons hc
    rw [hp]
    intro q hq
    rcases List.mem_cons.mp hq with rfl | hq
    · cases q with
      | visiting e d => rfl
      | _ => simp [hc] at hf
    · exact (hw _ _ hp).2 q hq

theorem transfer_step {env : Environment} (hw : h.Poised t) (hs : h.step? env t = some h') :
    (∃ lost, Transfer t (h.traffic (.step t env)) lost h h' ∧ (h.Tidy t → lost = h.lost (.step t env) t)) ∧ h'.Poised t := by
  cases stepped hs with
  | enters hc =>
    have hp := phases_eq_cons hc
    have hl := lands_enter hp
    exact ⟨⟨0, .keep (by simp [traffic, hc]) hl.toQuiet, fun _ => by simp [lost, hc]⟩, hl.poised (hw _ _ hp).2⟩
  | @admitted l previous q h₁ g hc ha =>
    have hp := phases_eq_cons hc
    obtain ⟨⟨rfl, hl⟩, hrest⟩ := hw _ _ hp
    have hq := lands_proceed env ((admit?_keeps ha t).2.trans hp) g
    have none (ht : h.Tidy t) : q.displaced h₁ t = 0 := by
      cases q with
      | hold aim =>
        rw [Purpose.displaced, displaced_admitted ha]
        exact ht.displaced_eq_zero (ht.aimed _ l aim hc rfl) (admit?_eq ha).2.1
      | inquire r i => rfl
      | visit directory callback => rfl
    have hlost : h.lost (.step t env) t = 0 := by simp [lost, hc]
    have htraffic : h.traffic (.step t env) = h.taking t l (h.ceiling t) := by simp [traffic, hc]
    have htaken := htraffic.trans (taking_some ha)
    exact ⟨⟨q.displaced h₁ t, .take l h₁ g htaken ha hl none hq.toQuiet, hlost ▸ none⟩, hq.poised hrest⟩
  | @drops gs a hc =>
    have hp := phases_eq_cons hc
    obtain ⟨hsh, p, hp', hr⟩ := transfer_dropNext hp
    have htraffic : h.traffic (.step t env) = gs.head?.elim .none (h.releasing t) := by simp [traffic, hc]
    refine ⟨⟨h.refusedDrop t gs, htraffic ▸ hsh, fun _ => by simp [lost, hc]⟩, fun q rest hq => ?_⟩
    rw [hp'] at hq
    cases hq
    exact ⟨hr, (hw _ _ hp).2⟩

end Calls

/-- **What a move can do.** It is quiet, or takes one lock below the ceiling, or releases one guard in
order, and afterwards every wait still rests on a check of the order that holds. Where slots are in order no
guard goes but one of a refused drop, and what is lost without being dropped. -/
theorem move_transfer {h h' : Hierarchy α} {m : Move α} (hb : ∀ u, h.ceiling u ≤ Rank.unbounded)
    (hw : ∀ u, h.Poised u) (hm : h.move? m = some h') :
    ∃ t lost, Transfer t (h.traffic m) lost h h' ∧ (h.Tidy t → lost = h.lost m t ∧ ∀ u, t ≠ u → h.lost m u = 0) ∧
      ∀ u, h'.Poised u := by
  have others {t : ThreadId} {lost : Multiset Guard} (s : Transfer t (h.traffic m) lost h h')
      (hlost : h.Tidy t → lost = h.lost m t) (hothers : ∀ u, t ≠ u → h.lost m u = 0) (ht : h'.Poised t) :
      ∃ t lost, Transfer t (h.traffic m) lost h h' ∧ (h.Tidy t → lost = h.lost m t ∧ ∀ u, t ≠ u → h.lost m u = 0) ∧
        ∀ u, h'.Poised u := by
    refine ⟨t, lost, s, fun htidy => ⟨hlost htidy, hothers⟩, fun u => ?_⟩
    by_cases hu : t = u
    · exact hu ▸ ht
    · obtain ⟨hc, -, hp⟩ := s.shift.others hu
      exact (hw u).congr (hb u) hp hc fun l => s.shift.rank
  have silent {t : ThreadId} (htraffic : h.traffic m = .none) (q : Quiet t 0 (h.lost m t) h h')
      (hothers : ∀ u, t ≠ u → h.lost m u = 0)
      (hp : h'.phases t = h.phases t) :
      ∃ t lost, Transfer t (h.traffic m) lost h h' ∧ (h.Tidy t → lost = h.lost m t ∧ ∀ u, t ≠ u → h.lost m u = 0) ∧
        ∀ u, h'.Poised u :=
    others (.keep htraffic q) (fun _ => rfl) hothers ((hw t).congr (hb t) hp (q.ceiling t) q.rank)
  cases moved hm with
  | addLock rank v => exact silent rfl (quiet_addLock 0 h rank _) (fun _ _ => rfl) rfl
  | addRegistry d e => exact silent rfl (quiet_addRegistry 0 h d e) (fun _ _ => rfl) rfl
  | @start t r hfree _ =>
    refine others (.keep rfl (quiet_start h t (.entering r))) (fun _ => rfl) (fun _ _ => rfl) fun p rest hp => ?_
    rw [phases_start] at hp
    cases hp
    exact ⟨trivial, visiting_of_isFree (hw t) hfree⟩
  | @step t env h' hs =>
    obtain ⟨⟨lost, s, hlost⟩, ht⟩ := transfer_step (hw t) hs
    exact others s hlost (fun u hu => if_neg hu) ht
  | @finish t entry directory e hc =>
    have hp := phases_eq_cons hc
    obtain ⟨-, hrest⟩ := hw t _ _ hp
    exact others (.keep rfl (lands_ended hp _).toQuiet) (fun _ => rfl) (fun _ _ => rfl)
      ((lands_ended hp _).poised hrest)
  | @collect t a hc =>
    have hp := phases_eq_cons hc
    obtain ⟨-, hrest⟩ := hw t _ _ hp
    refine others (.keep rfl (quiet_collect hp)) (fun _ => rfl) (fun _ _ => rfl) (poised_of_visiting ?_)
    rwa [phases_collect]
  | @perform t d x hfree hd =>
    have hv := visiting_of_isFree (hw t) hfree
    obtain ⟨⟨lost, s, hlost⟩, hp⟩ := transfer_attempt hd
    exact others s hlost (fun _ _ => rfl) (poised_of_visiting (hp ▸ hv))
  | @leak t slot _ =>
    have hlost : h.lost (.leak t slot) t = (h.slot? t slot).elim 0 Holding.guards := if_pos rfl
    exact silent rfl (hlost ▸ quiet_clearSlot h t slot) (fun u hu => if_neg hu) rfl
  | @write t l v _ _ _ => exact silent rfl (quiet_setContent 0 h l _) (fun _ _ => rfl) rfl
  | @borrow l v _ _ => exact silent rfl (quiet_setContent 0 h l _) (fun _ _ => rfl) rfl

theorem move_shift {h h' : Hierarchy α} {m : Move α} (hb : ∀ u, h.ceiling u ≤ Rank.unbounded)
    (hw : ∀ u, h.Poised u) (hm : h.move? m = some h') : ∃ t, Shift t h h' ∧ ∀ u, h'.Poised u := by
  obtain ⟨t, lost, s, -, hp⟩ := move_transfer hb hw hm
  exact ⟨t, s.shift, hp⟩

end Interlock.Hierarchy
