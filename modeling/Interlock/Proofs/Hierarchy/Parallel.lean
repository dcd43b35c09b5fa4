import Interlock.Proofs.Hierarchy.Contents

/-!
# Calls in two states side by side

What a call on the locks does depends on ranks, contents and registries (`SameContents`) and on the ceiling of its
thread, and it changes a state in few ways. A relation of such states which is kept by each of these changes is kept by
the calls (`Tandem`), and by the drops of guards if it is kept by releases (`Parallel`). Deeds change slots and take and
release locks. They keep a relation of states in which the slots are the same (`Slotwise`), if it is kept by that.
-/

namespace Interlock.Hierarchy

variable {α : Type}

structure SameContents (h h' : Hierarchy α) : Prop where
  rank : ∀ l, h'.rank l = h.rank l
  content : ∀ l, h'.content? l = h.content? l
  registries : h'.registries = h.registries

structure Agrees (h h' : Hierarchy α) : Prop extends SameContents h h' where
  ceiling : ∀ t, h'.ceiling t = h.ceiling t

section
variable {h h' : Hierarchy α} {t : ThreadId}

theorem checkAcquire_congr {l : LockId} (hr : h'.rank l = h.rank l) (hc : h'.ceiling t = h.ceiling t) :
    h'.checkAcquire t l = h.checkAcquire t l := by
  rw [Hierarchy.checkAcquire, hc, hr, Hierarchy.checkAcquire]

theorem checkRelease_congr {g : Guard} (hr : h'.rank g.lock = h.rank g.lock) (hc : h'.ceiling t = h.ceiling t) :
    h'.checkRelease t g = h.checkRelease t g := by
  rw [Hierarchy.checkRelease, hc, hr, Hierarchy.checkRelease]

namespace SameContents

theorem length (ha : SameContents h h') : h'.locks.length = h.locks.length := by
  have known (g : Hierarchy α) (l : LockId) : (g.content? l).isSome ↔ l < g.locks.length := by simp [content?]
  refine eq_of_forall_lt_iff fun l => ?_
  rw [← known, ha.content, known]

theorem names (ha : SameContents h h') (l : LockId) : h'.names l = h.names l := by
  rw [names_eq, ha.content, names_eq]

theorem element? (ha : SameContents h h') (l : LockId) : h'.element? l = h.element? l := by
  rw [element?_eq, ha.content, element?_eq]

end SameContents

namespace Agrees

theorem checkAcquire (ha : Agrees h h') (t : ThreadId) (l : LockId) : h'.checkAcquire t l = h.checkAcquire t l :=
  checkAcquire_congr (ha.rank l) (ha.ceiling t)

theorem checkRelease (ha : Agrees h h') (t : ThreadId) (g : Guard) : h'.checkRelease t g = h.checkRelease t g :=
  checkRelease_congr (ha.rank g.lock) (ha.ceiling t)

end Agrees

end

/-- The relation is kept by all that the calls of the thread do to a state, but for what they do to its slots and for
releases. -/
structure Tandem (t : ThreadId) (R : Hierarchy α → Hierarchy α → Prop) : Prop where
  contents : ∀ {h h'}, R h h' → SameContents h h'
  ceiling : ∀ {h h'}, R h h' → h'.ceiling t = h.ceiling t
  into : ∀ {h h'}, R h h' → ∀ p, R (h.into t p) (h'.into t p)
  setContent : ∀ {h h'}, R h h' → ∀ l c, R (h.setContent l c) (h'.setContent l c)
  addLock : ∀ {h h'}, R h h' → ∀ r c, R (h.addLock r c).1 (h'.addLock r c).1

namespace Tandem

variable {t : ThreadId} {R : Hierarchy α → Hierarchy α → Prop} (hp : Tandem t R) {h h' : Hierarchy α} (hr : R h h')
include hp hr

theorem checkAcquire (l : LockId) : h'.checkAcquire t l = h.checkAcquire t l :=
  checkAcquire_congr ((hp.contents hr).rank l) (hp.ceiling hr)

theorem checkRelease (g : Guard) : h'.checkRelease t g = h.checkRelease t g :=
  checkRelease_congr ((hp.contents hr).rank g.lock) (hp.ceiling hr)

theorem approach (l : LockId) (p : Purpose α) (inHand : List Guard) :
    R (h.approach t l p inHand) (h'.approach t l p inHand) := by
  unfold Hierarchy.approach
  rw [hp.checkAcquire hr]
  split <;> exact hp.into hr _

theorem openEntry (g : Guard) (name : String) (callback : Bool) :
    R (h.openEntry t g name callback) (h'.openEntry t g name callback) := by
  unfold Hierarchy.openEntry
  rw [(hp.contents hr).names]
  split
  · exact hp.into hr _
  · exact hp.approach hr _ _ _

theorem bind (g : Guard) (r : RegistryId) (name : String) (v : α) : R (h.bind t g r name v) (h'.bind t g r name v) := by
  simp only [Hierarchy.bind, (hp.contents hr).registries, (hp.contents hr).names]
  have hnew (rank : Rank) : (h'.addLock rank (.element v)).2 = (h.addLock rank (.element v)).2 :=
    (hp.contents hr).length
  rw [hnew]
  exact hp.into (hp.setContent (hp.addLock hr _ _) g.lock _) _

theorem inquire (env : Environment) (g : Guard) (r : RegistryId) (i : Inquiry α) :
    R (Hierarchy.inquire env t h g r i) (Hierarchy.inquire env t h' g r i) := by
  have hnames := (hp.contents hr).names
  cases i with
  | insert name v =>
    simp only [Hierarchy.inquire, hnames]
    split
    · exact hp.bind hr g r name v
    · exact hp.into hr _
  | remove name =>
    simp only [Hierarchy.inquire, hnames]
    exact hp.into (hp.setContent hr g.lock _) _
  | get name => exact hp.openEntry hr g name false
  | update name => exact hp.openEntry hr g name true
  | _ =>
    simp only [Hierarchy.inquire, hnames]
    exact hp.into hr _

/-- The entry of a registry is copied, or shown to a callback. -/
theorem visit (env : Environment) (g directory : Guard) (callback : Bool) :
    R (Hierarchy.proceed env t h g (.visit directory callback))
      (Hierarchy.proceed env t h' g (.visit directory callback)) := by
  cases callback with
  | true => exact hp.into hr _
  | false =>
    simp only [Hierarchy.proceed, (hp.contents hr).element?]
    exact hp.into hr _

/-- Guards are dropped where the relation is kept by the release of the first. -/
theorem dropNext {gs : List Guard} (release : ∀ g ∈ gs, ∀ b, R (h.release t g b) (h'.release t g b)) (a : Answer α) :
    R (h.dropNext t gs a) (h'.dropNext t gs a) := by
  cases gs with
  | nil => exact hp.into hr _
  | cons g gs =>
    simp only [Hierarchy.dropNext, hp.checkRelease hr]
    split
    · exact hp.into (release g List.mem_cons_self _) _
    · exact hp.into hr _

end Tandem

structure Parallel (t : ThreadId) (R : Hierarchy α → Hierarchy α → Prop) : Prop extends Tandem t R where
  release : ∀ {h h'}, R h h' → ∀ g b, R (h.release t g b) (h'.release t g b)

theorem Parallel.dropNext {t : ThreadId} {R : Hierarchy α → Hierarchy α → Prop} (hp : Parallel t R) {h h' : Hierarchy α}
    (hr : R h h') (gs : List Guard) (a : Answer α) : R (h.dropNext t gs a) (h'.dropNext t gs a) :=
  hp.toTandem.dropNext hr (fun g _ b => hp.release hr g b) a

/-! ## Slots -/

/-- The relation is kept by what the thread does to its slots, which are the same. -/
structure Slotwise (t : ThreadId) (R : Hierarchy α → Hierarchy α → Prop) : Prop where
  contents : ∀ {h h'}, R h h' → SameContents h h'
  standing : ∀ {h h'}, R h h' → h'.standing t = h.standing t
  setStanding : ∀ {h h'}, R h h' → ∀ s, R (h.setStanding t s) (h'.setStanding t s)

namespace Slotwise

variable {t : ThreadId} {R : Hierarchy α → Hierarchy α → Prop} (hp : Slotwise t R) {h h' : Hierarchy α}

section
variable (hr : R h h')
include hp hr

theorem ceiling : h'.ceiling t = h.ceiling t := congrArg Standing.ceiling (hp.standing hr)

theorem checkAcquire (l : LockId) : h'.checkAcquire t l = h.checkAcquire t l :=
  checkAcquire_congr ((hp.contents hr).rank l) (hp.ceiling hr)

theorem checkRelease (g : Guard) : h'.checkRelease t g = h.checkRelease t g :=
  checkRelease_congr ((hp.contents hr).rank g.lock) (hp.ceiling hr)

theorem slot? (slot : String) : h'.slot? t slot = h.slot? t slot := by
  rw [Hierarchy.slot?, hp.standing hr, Hierarchy.slot?]

theorem accepts (l : LockId) (aim : Aim) : h'.accepts t l aim = h.accepts t l aim := by
  cases aim <;> simp only [Hierarchy.accepts, hp.slot? hr]

theorem admits (r : Request α) : h'.admits t r = h.admits t r := by
  have contents := hp.contents hr
  cases r <;> simp only [Hierarchy.admits, contents.length, hp.accepts hr, hp.slot? hr, contents.registries]

theorem setSlot (slot : String) (x : Holding) : R (h.setSlot t slot x) (h'.setSlot t slot x) := by
  rw [Hierarchy.setSlot, Hierarchy.setSlot, hp.standing hr]
  exact hp.setStanding hr _

theorem clearSlot (slot : String) : R (h.clearSlot t slot) (h'.clearSlot t slot) := by
  rw [Hierarchy.clearSlot, Hierarchy.clearSlot, hp.standing hr]
  exact hp.setStanding hr _

theorem deliver (g : Guard) (aim : Aim) : R (h.deliver t g aim) (h'.deliver t g aim) := by
  cases aim <;> exact hp.setSlot hr ..

end

theorem takeOut (hp : Slotwise t R) : ∀ (slots : List String) {h h' : Hierarchy α}, R h h' →
    R (h.takeOut t slots).1 (h'.takeOut t slots).1 ∧ (h'.takeOut t slots).2 = (h.takeOut t slots).2
  | [], _, _, hr => ⟨hr, rfl⟩
  | slot :: slots, h, h', hr => by
    obtain ⟨hstate, hguards⟩ := hp.takeOut slots (hp.clearSlot hr slot)
    refine ⟨hstate, ?_⟩
    simp only [Hierarchy.takeOut, hp.slot? hr, hguards]

/-! ## Deeds -/

variable (hr : R h h')
include hp hr

theorem unlock (slot : String) {g : Guard} (release : R (h.release t g false) (h'.release t g false)) :
    R (h.unlock t slot g).1 (h'.unlock t slot g).1 ∧ (h'.unlock t slot g).2 = (h.unlock t slot g).2 := by
  unfold Hierarchy.unlock
  rw [hp.checkRelease hr]
  split
  · exact ⟨hp.clearSlot release slot, rfl⟩
  · exact ⟨hp.setSlot hr slot _, rfl⟩

theorem unlockHandle (slot : String) {k : Handle}
    (release : ∀ g, k.guard = some g → R (h.release t g false) (h'.release t g false)) :
    R (h.unlockHandle t slot k).1 (h'.unlockHandle t slot k).1 ∧
      (h'.unlockHandle t slot k).2 = (h.unlockHandle t slot k).2 := by
  unfold Hierarchy.unlockHandle
  split
  · exact ⟨hr, rfl⟩
  · rename_i g hg
    rw [hp.checkRelease hr]
    split
    · exact ⟨hp.setSlot (release g hg) slot _, rfl⟩
    · exact ⟨hr, rfl⟩

theorem detach (source target : String) (k : Handle) :
    R (h.detach t source target k).1 (h'.detach t source target k).1 ∧
      (h'.detach t source target k).2 = (h.detach t source target k).2 := by
  unfold Hierarchy.detach
  split
  · exact ⟨hp.clearSlot hr source, rfl⟩
  · exact ⟨hp.setSlot (hp.clearSlot hr source) target _, rfl⟩

/-- A lock is tried where that goes alike in both states. -/
theorem tryLock {l : LockId} (aim : Aim)
    (taking : ∀ previous,
      Option.Rel (fun x x' => R x.1 x'.1 ∧ x'.2 = x.2) (h.admit? t l previous) (h'.admit? t l previous)) :
    R (h.tryLock t l aim).1 (h'.tryLock t l aim).1 ∧ (h'.tryLock t l aim).2 = (h.tryLock t l aim).2 := by
  unfold Hierarchy.tryLock
  rw [hp.checkAcquire hr]
  split
  · exact ⟨hr, rfl⟩
  · rename_i previous _
    have admitted := taking previous
    generalize h.admit? t l previous = o at admitted ⊢
    generalize h'.admit? t l previous = o' at admitted ⊢
    cases admitted with
    | none => exact ⟨hr, rfl⟩
    | @some x x' hs =>
      obtain ⟨h₁, g⟩ := x
      obtain ⟨h₁', g'⟩ := x'
      obtain ⟨hstate, hguard⟩ := hs
      obtain rfl : g' = g := hguard
      exact ⟨hp.deliver hstate g' aim, rfl⟩

/-- All deeds go alike where the lock that is tried does, and where guards in slots are released alike. -/
theorem attempt? (d : Deed)
    (taking : ∀ l aim previous, d = .tryLock l aim →
      Option.Rel (fun x x' => R x.1 x'.1 ∧ x'.2 = x.2) (h.admit? t l previous) (h'.admit? t l previous))
    (release : ∀ slot x, h.slot? t slot = some x → ∀ g, x.guard? = some g →
      R (h.release t g false) (h'.release t g false)) :
    Option.Rel (fun x x' => R x.1 x'.1 ∧ x'.2 = x.2) (h.attempt? t d) (h'.attempt? t d) := by
  cases d with
  | tryLock l aim =>
    simp only [Hierarchy.attempt?, hp.accepts hr]
    split
    · exact .some (hp.tryLock hr aim fun previous => taking l aim previous rfl)
    · exact .none
  | unlock slot =>
    simp only [Hierarchy.attempt?, hp.slot? hr]
    split
    · rename_i g hg
      exact .some (hp.unlock hr slot (release slot _ hg g rfl))
    · exact .none
  | recover slot =>
    simp only [Hierarchy.attempt?, hp.slot? hr]
    split
    · exact .some ⟨hp.setSlot hr slot _, rfl⟩
    · exact .none
  | unlockHandle slot =>
    simp only [Hierarchy.attempt?, hp.slot? hr]
    split
    · rename_i k hk
      exact .some (hp.unlockHandle hr slot fun g hg => release slot _ hk g hg)
    · exact .none
  | defer l slot =>
    simp only [Hierarchy.attempt?, hp.slot? hr]
    split
    · exact .some ⟨hp.setSlot hr slot _, rfl⟩
    · exact .none
  | adopt source target =>
    simp only [Hierarchy.attempt?, canMove, hp.slot? hr]
    split
    · exact .some ⟨hp.setSlot (hp.clearSlot hr source) target _, rfl⟩
    · exact .none
  | detach source target =>
    simp only [Hierarchy.attempt?, canMove, hp.slot? hr]
    split
    · exact .some (hp.detach hr source target _)
    · exact .none

end Slotwise

/-- The relation is kept by all that the thread does, but for releases. -/
structure Steady (t : ThreadId) (R : Hierarchy α → Hierarchy α → Prop) : Prop extends Tandem t R, Slotwise t R

namespace Steady

variable {t : ThreadId} {R : Hierarchy α → Hierarchy α → Prop} (hp : Steady t R) {h h' : Hierarchy α} (hr : R h h')
include hp hr

theorem enter (r : Request α) : R (h.enter t r) (h'.enter t r) := by
  cases r with
  | lock l aim => exact hp.approach hr l _ _
  | drop slots panic =>
    obtain ⟨hstate, hguards⟩ := hp.takeOut slots hr
    simp only [Hierarchy.enter, hguards]
    exact hp.into hstate _
  | registry r i =>
    simp only [Hierarchy.enter, (hp.contents hr).registries]
    split
    · exact hp.approach hr _ _ _
    · exact hp.into hr _

theorem proceed (env : Environment) (g : Guard) (p : Purpose α) :
    R (Hierarchy.proceed env t h g p) (Hierarchy.proceed env t h' g p) := by
  cases p with
  | hold aim => exact hp.into (hp.deliver hr g aim) _
  | inquire r i => exact hp.inquire hr env g r i
  | visit directory callback => exact hp.visit hr env g directory callback

end Steady

end Interlock.Hierarchy
