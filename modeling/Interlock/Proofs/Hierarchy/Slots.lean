import Interlock.Proofs.Hierarchy.Contents
import Interlock.Proofs.Hierarchy.Outstanding

/-!
# Slots stay in order

A thread moves guards between its own slots only, and never changes them while it waits for a lock that it wants
to have in one. So the slot that a call aims at is free when the lock comes (`Reachable.tidy`), and no guard is
lost by being put over another. Also, a call on a registry works at directories, and they never become elements.
-/

namespace Interlock.Hierarchy

variable {α : Type}

/-- The lock of a directory that the call has or wants. -/
def Phase.directory? : Phase α → Option LockId
  | .waiting l _ (.inquire _ _) => some l
  | .waiting _ _ (.visit directory _) => some directory.lock
  | _ => none

/-- Slots other than those of the thread have not changed, and its handles match their guards as before. -/
structure Arranges (t : ThreadId) (h h' : Hierarchy α) : Prop where
  calls : h'.calls = h.calls
  registries : h'.registries = h.registries
  others : ∀ u, t ≠ u → (h'.standing u).slots = (h.standing u).slots
  matched : (∀ slot x, h.slot? t slot = some x → x.Matched) → ∀ slot x, h'.slot? t slot = some x → x.Matched

/-- In this phase a call wants no lock in a slot, and `D` holds of its directory, if any. -/
structure Phase.Settled (D : LockId → Prop) (p : Phase α) : Prop where
  wanted : p.wanted? = none
  directory : ∀ l, p.directory? = some l → D l

def Settles (D : LockId → Prop) (t : ThreadId) (h h' : Hierarchy α) : Prop :=
  ∃ h₁ p, h' = h₁.into t p ∧ p.Settled D ∧ Arranges t h h₁

section
variable {h h₁ h' : Hierarchy α} {t : ThreadId} {D : LockId → Prop}

theorem Arranges.same (hc : h'.calls = h.calls) (hr : h'.registries = h.registries)
    (hs : ∀ u, (h'.standing u).slots = (h.standing u).slots) : Arranges t h h' where
  calls := hc
  registries := hr
  others u _ := hs u
  matched hm slot x hx := by
    rw [slot?, hs] at hx
    exact hm slot x hx

theorem Arranges.refl (t : ThreadId) (h : Hierarchy α) : Arranges t h h := .same rfl rfl fun _ => rfl

theorem Arranges.trans (a : Arranges t h h₁) (b : Arranges t h₁ h') : Arranges t h h' where
  calls := b.calls.trans a.calls
  registries := b.registries.trans a.registries
  others u hu := (b.others u hu).trans (a.others u hu)
  matched hm := b.matched (a.matched hm)

theorem settled_returned (a : Answer α) : (Phase.returned a).Settled D := by
  refine ⟨rfl, fun l hl => ?_⟩
  cases hl

theorem settled_releasing (gs : List Guard) (a : Answer α) : (Phase.releasing gs a).Settled D := by
  refine ⟨rfl, fun l hl => ?_⟩
  cases hl

theorem settled_of_isVisiting {p : Phase α} (hv : p.isVisiting = true) : p.Settled D := by
  cases p with
  | visiting e d =>
    refine ⟨rfl, fun l hl => ?_⟩
    cases hl
  | _ => cases hv

theorem Arranges.settles (a : Arranges t h h₁) {p : Phase α} (hp : p.Settled D) : Settles D t h (h₁.into t p) :=
  ⟨h₁, p, rfl, hp, a⟩

theorem Arranges.releases (a : Arranges t h h₁) (gs : List Guard) (b : Answer α) :
    Settles D t h (h₁.into t (.releasing gs b)) := a.settles (settled_releasing gs b)

theorem Settles.after (a : Arranges t h h₁) (b : Settles D t h₁ h') : Settles D t h h' := by
  obtain ⟨h₂, p, rfl, hp, hb⟩ := b
  exact ⟨h₂, p, rfl, hp, a.trans hb⟩

theorem arranges_setSlot (h : Hierarchy α) (t : ThreadId) (slot : String) {x : Holding} (hx : x.Matched) :
    Arranges t h (h.setSlot t slot x) where
  calls := rfl
  registries := rfl
  others u hu := by simp [setSlot, hu]
  matched hm target y hy := by
    simp only [slot?, setSlot, standing_setStanding, if_pos, Table.get?_insert] at hy
    split at hy
    · cases hy
      exact hx
    · exact hm target y hy

theorem arranges_clearSlot (h : Hierarchy α) (t : ThreadId) (slot : String) :
    Arranges t h (h.clearSlot t slot) where
  calls := rfl
  registries := rfl
  others u hu := by simp [clearSlot, hu]
  matched hm target y hy := by
    rw [slot?_clearSlot] at hy
    split at hy
    · cases hy
    · exact hm target y hy

theorem matched_unlocked (l : LockId) (s : Handle.State) : (Holding.handle ⟨l, s, none⟩).Matched := by
  intro g hg
  cases hg

theorem arranges_deliver (h : Hierarchy α) (t : ThreadId) (g : Guard) (aim : Aim) :
    Arranges t h (h.deliver t g aim) := by
  cases aim with
  | guard slot => exact arranges_setSlot h t slot trivial
  | newHandle slot => exact arranges_setSlot h t slot fun _ hg => (Option.some.inj hg) ▸ rfl
  | handle slot => exact arranges_setSlot h t slot fun _ hg => (Option.some.inj hg) ▸ rfl

theorem arranges_release (h : Hierarchy α) (t : ThreadId) (g : Guard) (b : Bool) :
    Arranges t h (h.release t g b) := .same rfl rfl fun u => slots_release h t u g b

theorem arranges_admitted {l : LockId} {previous : Rank} {g : Guard}
    (ha : h.admit? t l previous = some (h₁, g)) : Arranges t h h₁ := by
  obtain ⟨-, -, -, -, -, hslots, hcalls⟩ := admit?_eq ha
  exact .same hcalls (admit?_contents ha).2.2.1 hslots

theorem arranges_takeOut (t : ThreadId) : ∀ (slots : List String) (h : Hierarchy α),
    Arranges t h (h.takeOut t slots).1
  | [], h => .refl t h
  | slot :: slots, h => (arranges_clearSlot h t slot).trans (arranges_takeOut t slots (h.clearSlot t slot))

/-! ## Calls -/

theorem settles_approach (h : Hierarchy α) (t : ThreadId) (l : LockId) {p : Purpose α} (inHand : List Guard)
    (hp : ∀ previous, (Phase.waiting l previous p).Settled D) : Settles D t h (h.approach t l p inHand) := by
  have same : Arranges t h h := .refl t h
  unfold approach
  split
  · exact same.settles (hp _)
  · exact same.releases inHand _

theorem settles_openEntry (h : Hierarchy α) (t : ThreadId) {g : Guard} (hg : D g.lock) (name : String)
    (callback : Bool) : Settles D t h (h.openEntry t g name callback) := by
  have same : Arranges t h h := .refl t h
  unfold openEntry
  split
  · exact same.releases [g] _
  · refine settles_approach h t _ [g] fun _ => ⟨rfl, fun l hl => ?_⟩
    cases hl
    exact hg

theorem settles_bind (h : Hierarchy α) (t : ThreadId) (g : Guard) (r : RegistryId) (name : String) (v : α) :
    Settles D t h (h.bind t g r name v) := by
  unfold bind
  refine Arranges.releases ?_ [g] _
  exact .same rfl rfl fun _ => rfl

theorem settles_inquire (env : Environment) (t : ThreadId) (h : Hierarchy α) {g : Guard} (hg : D g.lock)
    (r : RegistryId) (i : Inquiry α) : Settles D t h (inquire env t h g r i) := by
  have same : Arranges t h h := .refl t h
  cases i with
  | insert name v =>
    unfold inquire
    cases env.table (h.names g.lock).size 1 with
    | ok => exact settles_bind h t g r name v
    | error f => exact same.releases [g] _
  | remove name =>
    have removed : Arranges t h (h.setContent g.lock (.directory ((h.names g.lock).erase name))) :=
      .same rfl rfl fun _ => rfl
    exact removed.releases [g] _
  | get name => exact settles_openEntry h t hg name false
  | update name => exact settles_openEntry h t hg name true
  | _ => exact same.releases [g] _

theorem settles_proceed (env : Environment) (t : ThreadId) (h : Hierarchy α) (g : Guard) (p : Purpose α)
    (hg : ∀ r i, p = .inquire r i → D g.lock) : Settles D t h (proceed env t h g p) := by
  have same : Arranges t h h := .refl t h
  cases p with
  | hold aim => exact (arranges_deliver h t g aim).settles (settled_returned _)
  | inquire r i => exact settles_inquire env t h (hg r i rfl) r i
  | visit directory callback =>
    cases callback with
    | true => exact same.settles (p := .visiting g directory) (settled_of_isVisiting rfl)
    | false => exact same.releases [g, directory] _

theorem settles_dropNext (h : Hierarchy α) (t : ThreadId) (gs : List Guard) (a : Answer α) :
    Settles D t h (h.dropNext t gs a) := by
  have same : Arranges t h h := .refl t h
  cases gs with
  | nil => exact same.settles (settled_returned a)
  | cons g gs =>
    cases hc : h.checkRelease t g with
    | ok =>
      simp only [dropNext, hc]
      exact (arranges_release h t g a.isPanic).releases gs _
    | error v =>
      simp only [dropNext, hc]
      exact same.releases gs _

/-- A call that wants a lock in a slot wants it there still when it waits, and no slot has changed. -/
theorem enter_cases (h : Hierarchy α) (t : ThreadId) (r : Request α)
    (hD : ∀ (i : RegistryId) (k : Registry), h.registries[i]? = some k → D k.directory) : Settles D t h (h.enter t r) ∨
      ∃ p, h.enter t r = h.into t p ∧ p.wanted? = (Phase.entering r).wanted? ∧ p.directory? = none := by
  have same : Arranges t h h := .refl t h
  cases r with
  | lock l aim =>
    simp only [enter, approach]
    split
    · exact .inr ⟨_, rfl, rfl, rfl⟩
    · exact .inl (same.releases [] _)
  | drop slots panic => exact .inl ((arranges_takeOut t slots h).releases _ _)
  | registry r i =>
    simp only [enter]
    split
    · rename_i k hk
      refine .inl (settles_approach h t _ [] fun _ => ⟨rfl, fun l hl => ?_⟩)
      cases hl
      exact hD r k hk
    · exact .inl (same.settles (settled_returned _))

/-! ## Deeds -/

theorem arranges_tryLock (h : Hierarchy α) (t : ThreadId) (l : LockId) (aim : Aim) :
    Arranges t h (h.tryLock t l aim).1 := by
  have same : Arranges t h h := .refl t h
  cases hc : h.checkAcquire t l with
  | error v => simpa only [tryLock, hc] using same
  | ok previous =>
    cases ha : h.admit? t l previous with
    | none => simpa only [tryLock, hc, ha] using same
    | some x =>
      simp only [tryLock, hc, ha]
      exact (arranges_admitted ha).trans (arranges_deliver x.1 t x.2 aim)

theorem arranges_unlock (h : Hierarchy α) (t : ThreadId) (slot : String) (g : Guard) :
    Arranges t h (h.unlock t slot g).1 := by
  cases hc : h.checkRelease t g with
  | ok =>
    simp only [unlock, hc]
    exact (arranges_release h t g false).trans (arranges_clearSlot _ t slot)
  | error v =>
    simp only [unlock, hc]
    exact arranges_setSlot h t slot trivial

theorem arranges_unlockHandle (h : Hierarchy α) (t : ThreadId) (slot : String) (k : Handle) :
    Arranges t h (h.unlockHandle t slot k).1 := by
  have same : Arranges t h h := .refl t h
  cases hk : k.guard with
  | none => simpa only [unlockHandle, hk] using same
  | some g =>
    cases hc : h.checkRelease t g with
    | ok =>
      simp only [unlockHandle, hk, hc]
      exact (arranges_release h t g false).trans (arranges_setSlot _ t slot (matched_unlocked _ _))
    | error v => simpa only [unlockHandle, hk, hc] using same

theorem arranges_detach (h : Hierarchy α) (t : ThreadId) (source target : String) (k : Handle) :
    Arranges t h (h.detach t source target k).1 := by
  have cleared := arranges_clearSlot h t source
  cases hk : k.guard with
  | none => simpa only [detach, hk] using cleared
  | some g =>
    simp only [detach, hk]
    exact cleared.trans (arranges_setSlot _ t target trivial)

theorem arranges_attempt {d : Deed} {x : Hierarchy α × Outcome} (hd : h.attempt? t d = some x) :
    Arranges t h x.1 := by
  cases attempted hd with
  | tryLock _ => exact arranges_tryLock ..
  | unlock _ => exact arranges_unlock ..
  | @recover slot v g _ => exact arranges_setSlot h t slot trivial
  | unlockHandle _ => exact arranges_unlockHandle ..
  | @defer l slot _ => exact arranges_setSlot h t slot (matched_unlocked l _)
  | @adopt source target g _ _ =>
    have matched : (Holding.handle ⟨g.lock, .adopted, some g⟩).Matched := fun _ hg => (Option.some.inj hg) ▸ rfl
    exact (arranges_clearSlot h t source).trans (arranges_setSlot _ t target matched)
  | detach _ _ => exact arranges_detach ..

/-! ## All moves -/

/-- Handles match their guards, the slot that a call of the thread aims at is as it was when the call was made,
and what its calls take for directories are directories. -/
structure Orderly (h : Hierarchy α) (t : ThreadId) : Prop where
  matched : ∀ slot x, h.slot? t slot = some x → x.Matched
  aimed : ∀ p l aim, h.calls.current? t = some p → p.wanted? = some (l, aim) → h.accepts t l aim = true
  directory : ∀ p l, h.calls.current? t = some p → p.directory? = some l → h.IsDirectory l

structure Furnished (h : Hierarchy α) : Prop where
  registries : ∀ (i : RegistryId) (k : Registry), h.registries[i]? = some k → h.IsDirectory k.directory
  orderly : ∀ t, h.Orderly t

theorem accepts_congr {u : ThreadId} (hs : (h'.standing u).slots = (h.standing u).slots) (l : LockId) (aim : Aim) :
    h'.accepts u l aim = h.accepts u l aim := by
  cases aim <;> simp only [accepts, slot?, hs]

theorem Orderly.congr {u : ThreadId} (ho : h.Orderly u) (hd : ∀ l, h.IsDirectory l → h'.IsDirectory l)
    (hs : (h'.standing u).slots = (h.standing u).slots) (hc : ∀ p, h'.calls.current? u = some p →
      p.Settled h.IsDirectory ∨ ∃ q, h.calls.current? u = some q ∧ p.wanted? = q.wanted? ∧
        (p.directory? = none ∨ p.directory? = q.directory?)) : h'.Orderly u where
  matched slot x hx := by
    rw [slot?, hs] at hx
    exact ho.matched slot x hx
  aimed p l aim hp hw := by
    rw [accepts_congr hs]
    rcases hc p hp with hsettled | ⟨q, hq, hsame, -⟩
    · rw [hsettled.wanted] at hw
      cases hw
    · exact ho.aimed q l aim hq (hsame ▸ hw)
  directory p l hp hl := by
    rcases hc p hp with hsettled | ⟨q, hq, -, hnone | hsame⟩
    · exact hd l (hsettled.directory l hl)
    · rw [hnone] at hl
      cases hl
    · exact hd l (ho.directory q l hq (hsame ▸ hl))

theorem Orderly.same {u : ThreadId} (ho : h.Orderly u) (hd : ∀ l, h.IsDirectory l → h'.IsDirectory l)
    (hs : (h'.standing u).slots = (h.standing u).slots) (hc : h'.calls.current? u = h.calls.current? u) :
    h'.Orderly u := ho.congr hd hs fun p hp => .inr ⟨p, hc ▸ hp, rfl, .inr rfl⟩

theorem Arranges.orderly (a : Arranges t h h₁) (h' : Hierarchy α) (ho : ∀ u, h.Orderly u)
    (hd : ∀ l, h.IsDirectory l → h'.IsDirectory l)
    (hcalls : ∀ u, t ≠ u → h'.calls.current? u = h₁.calls.current? u) (hthreads : h'.threads = h₁.threads)
    (ht : ∀ p, h'.calls.current? t = some p → p.Settled h.IsDirectory) (u : ThreadId) : h'.Orderly u := by
  have hslots (v : ThreadId) : (h'.standing v).slots = (h₁.standing v).slots := by
    rw [standing, standing, hthreads]
  by_cases hu : t = u
  · subst hu
    refine ⟨fun slot x hx => ?_, fun p l aim hp hw => ?_, fun p l hp hl => hd l ((ht p hp).directory l hl)⟩
    · rw [slot?, hslots] at hx
      exact a.matched (ho t).matched slot x hx
    · rw [(ht p hp).wanted] at hw
      cases hw
  · exact (ho u).same hd ((hslots u).trans (a.others u hu)) (by rw [hcalls u hu, a.calls])

theorem Settles.orderly (a : Settles h.IsDirectory t h h') (ho : ∀ u, h.Orderly u)
    (hd : ∀ l, h.IsDirectory l → h'.IsDirectory l) (u : ThreadId) : h'.Orderly u := by
  obtain ⟨h₁, p, rfl, hp, ha⟩ := a
  refine ha.orderly (h₁.into t p) ho hd (fun v hv => by simp [into, hv]) rfl (fun q hq => ?_) u
  rw [into, Calls.current?_move, if_pos rfl] at hq
  cases hq
  exact hp

theorem step_cases {env : Environment} (hD : ∀ (i : RegistryId) (k : Registry), h.registries[i]? = some k → D k.directory)
    (hd : ∀ p l, h.calls.current? t = some p → p.directory? = some l → D l) (hs : h.step? env t = some h') :
    Settles D t h h' ∨ ∃ p q, h' = h.into t p ∧ h.calls.current? t = some q ∧
      p.wanted? = q.wanted? ∧ p.directory? = none := by
  cases stepped hs with
  | @enters r hc =>
    rcases enter_cases h t r hD with hsettles | ⟨p, heq, hp, hd⟩
    · exact .inl hsettles
    · exact .inr ⟨p, .entering r, heq, hc, hp, hd⟩
  | @admitted l previous q h₁ g hc ha =>
    refine .inl ((settles_proceed env t h₁ g q fun r i hq => ?_).after (arranges_admitted ha))
    obtain ⟨rfl, -⟩ := admit?_eq ha
    subst hq
    exact hd _ l hc rfl
  | @drops gs a _ => exact .inl (settles_dropNext h t gs a)

theorem orderly_move {m : Move α} (hw : ∀ u, h.Poised u) (hf : h.Furnished) (hm : h.move? m = some h')
    (u : ThreadId) : h'.Orderly u := by
  have ho := hf.orderly
  have hd (l : LockId) : h.IsDirectory l → h'.IsDirectory l := isDirectory_move hm
  have free {t : ThreadId} (hfree : h.isFree t = true) {p : Phase α} (hp : h.calls.current? t = some p) :
      p.Settled h.IsDirectory := by
    refine settled_of_isVisiting (visiting_of_isFree (hw t) hfree p ?_)
    rw [phases_eq_cons hp]
    exact List.mem_cons_self
  cases moved hm with
  | addLock rank v => exact (ho u).same hd rfl rfl
  | addRegistry d e => exact (ho u).same hd rfl rfl
  | @start t r _ hadmits =>
    refine ⟨(ho u).matched, fun p l aim hp hwanted => ?_, fun p l hp hl => ?_⟩
    · rw [Calls.current?_start] at hp
      split at hp
      · rename_i htu
        subst htu
        cases hp
        cases r with
        | lock k aim' =>
          cases hwanted
          exact (Bool.and_eq_true_iff.mp hadmits).2
        | drop slots panic => cases hwanted
        | registry r i => cases hwanted
      · exact (ho u).aimed p l aim hp hwanted
    · rw [Calls.current?_start] at hp
      split at hp
      · cases hp
        cases hl
      · exact (ho u).directory p l hp hl
  | step hs =>
    rcases step_cases hf.registries (hf.orderly _).directory hs with hsettles | ⟨p, q, rfl, hq, hwanted, hnone⟩
    · exact hsettles.orderly ho hd u
    · refine (ho u).congr hd rfl fun p' hp' => .inr ?_
      rw [into, Calls.current?_move] at hp'
      split at hp'
      · rename_i htu
        cases hp'
        exact ⟨q, htu ▸ hq, hwanted, .inl hnone⟩
      · exact ⟨p', hp', rfl, .inr rfl⟩
  | @finish t entry directory e _ => exact ((Arranges.refl t h).releases _ _).orderly ho hd u
  | @collect t a hc =>
    refine (Arranges.refl t h).orderly (h.collect t) ho hd (fun v hv => ?_) rfl (fun p hp => ?_) u
    · rw [collect, Calls.current?_finish, if_neg hv]
    · rw [collect, Calls.current?_finish, if_pos rfl] at hp
      exact settled_of_isVisiting ((hw t _ _ (phases_eq_cons hc)).2 p (List.mem_of_head? hp))
  | @perform t d x hfree hdeed =>
    have ha := arranges_attempt hdeed
    refine ha.orderly x.1 ho hd (fun _ _ => rfl) rfl (fun p hp => ?_) u
    rw [ha.calls] at hp
    exact free hfree hp
  | @leak t slot hfree =>
    exact (arranges_clearSlot h t slot).orderly _ ho hd (fun _ _ => rfl) rfl (fun p hp => free hfree hp) u
  | write _ _ => exact (ho u).same hd rfl rfl
  | borrow _ _ => exact (ho u).same hd rfl rfl

theorem registries_step {env : Environment} (hs : h.step? env t = some h') : h'.registries = h.registries := by
  rcases step_cases (D := fun _ => True) (fun _ _ _ => trivial) (fun _ _ _ _ => trivial) hs with
    ⟨h₁, p, rfl, -, ha⟩ | ⟨p, q, rfl, -⟩
  · exact ha.registries
  · rfl

theorem registries_move {m : Move α} (hm : h.move? m = some h') :
    h'.registries = h.registries ∨ ∃ d e, h' = (h.addRegistry d e).1 := by
  cases moved hm with
  | addRegistry d e => exact .inr ⟨d, e, rfl⟩
  | step hs => exact .inl (registries_step hs)
  | perform _ hd => exact .inl (arranges_attempt hd).registries
  | _ => exact .inl rfl

/-- Registries stay. -/
theorem registry_move {m : Move α} (hm : h.move? m = some h') {r : RegistryId} {d : Registry}
    (hd : h.registries[r]? = some d) : h'.registries[r]? = some d := by
  rcases registries_move hm with hsame | ⟨directoryRank, entryRank, rfl⟩
  · rw [hsame, hd]
  · rw [← hd]
    exact List.getElem?_append_left (List.getElem?_eq_some_iff.mp hd).1

theorem Furnished.move {m : Move α} (hf : h.Furnished) (hw : ∀ u, h.Poised u) (hm : h.move? m = some h') :
    h'.Furnished where
  orderly := orderly_move hw hf hm
  registries i k hk := by
    rcases registries_move hm with hsame | ⟨d, e, rfl⟩
    · rw [hsame] at hk
      exact isDirectory_move hm (hf.registries i k hk)
    · simp only [addRegistry, List.getElem?_append] at hk
      split at hk
      · exact isDirectory_move hm (hf.registries i k hk)
      · obtain rfl : k = ⟨h.locks.length, e⟩ := by
          rw [List.getElem?_singleton] at hk
          split at hk
          · cases hk
            rfl
          · cases hk
        refine ⟨{}, ?_⟩
        simp [content?, addRegistry, addLock]

end

section Reachable
variable {h : Hierarchy α} {t : ThreadId}

theorem Reachable.poised (hr : Reachable h) (t : ThreadId) : h.Poised t := by
  obtain ⟨r, hrecord, rfl⟩ := hr.recorded
  exact hrecord.sound.poised t

theorem Reachable.ceiling_le (hr : Reachable h) (t : ThreadId) : h.ceiling t ≤ Rank.unbounded := by
  obtain ⟨r, hrecord, rfl⟩ := hr.recorded
  exact (hrecord.sound.linked t).le

/-- No lock that a thread holds is below its ceiling, and none has the rank of the empty ceiling. -/
theorem Reachable.ceiling_le_rank (hr : Reachable h) {l : LockId} (hl : h.holder? l = some t) :
    h.ceiling t ≤ h.rank l ∧ h.rank l < Rank.unbounded := by
  obtain ⟨r, hrecord, rfl⟩ := hr.recorded
  obtain ⟨g, hg, rfl⟩ := List.mem_map.mp ((hrecord.sound.holds t l).mp hl)
  exact (hrecord.sound.linked t).rank_mem g hg

theorem Reachable.holder (hr : Reachable h) {t : ThreadId} {g : Guard} (hg : g ∈ h.owned t) :
    h.holder? g.lock = some t := by
  obtain ⟨r, hrecord, rfl⟩ := hr.recorded
  exact hrecord.sound.holder (Multiset.mem_of_le (hrecord.sound.listed t) hg)

theorem Reachable.furnished (hr : Reachable h) : h.Furnished := by
  induction hr with
  | refl => exact ⟨nofun, fun _ => ⟨nofun, nofun, nofun⟩⟩
  | tail m hr hm ih => exact ih.move (Reachable.poised hr) hm

theorem Reachable.tidy (hr : Reachable h) (t : ThreadId) : h.Tidy t where
  matched := (hr.furnished.orderly t).matched
  aimed := (hr.furnished.orderly t).aimed
  backed _ := hr.holder

/-- What a move does to guards, in a reachable state. -/
theorem Reachable.transfer {h' : Hierarchy α} {m : Move α} (hr : Reachable h) (hm : h.move? m = some h') :
    ∃ t, Transfer t (h.traffic m) (h.lost m t) h h' ∧ ∀ u, t ≠ u → h.lost m u = 0 := by
  obtain ⟨t, lost, s, hlost, -⟩ := move_transfer hr.ceiling_le hr.poised hm
  obtain ⟨rfl, hothers⟩ := hlost (hr.tidy t)
  exact ⟨t, s, hothers⟩

/-! ## Who refers to a lock -/

theorem mem_sum_map {β γ : Type} {f : β → Multiset γ} {x : γ} {bs : List β} :
    x ∈ (bs.map f).sum ↔ ∃ b ∈ bs, x ∈ f b := by
  induction bs with
  | nil => simp
  | cons b bs ih => simp [ih]

theorem mem_owned {g : Guard} : g ∈ h.owned t ↔
    (∃ slot x, h.slot? t slot = some x ∧ g ∈ x.guards) ∨ ∃ p ∈ h.phases t, g ∈ p.guards := by
  rw [owned, Multiset.mem_add, Standing.guards, Entries.total, mem_sum_map, mem_sum_map]
  refine or_congr_left ⟨?_, ?_⟩
  · rintro ⟨⟨slot, x⟩, hmem, hg⟩
    exact ⟨slot, x, (h.standing t).slots.mem_toList.mp hmem, hg⟩
  · rintro ⟨slot, x, hs, hg⟩
    exact ⟨(slot, x), (h.standing t).slots.mem_toList.mpr hs, hg⟩

/-- A lock is kept if something in a slot of some thread refers to it. -/
theorem isKept_iff {l : LockId} : h.isKept l = true ↔ ∃ t slot x, h.slot? t slot = some x ∧ x.lock = l := by
  simp only [isKept, List.any_eq_true, decide_eq_true_eq]
  constructor
  · rintro ⟨⟨t, s⟩, ht, ⟨slot, x⟩, hx, hl⟩
    have hslots : (h.standing t).slots = s.slots := by
      rw [standing, h.threads.mem_toList.mp ht, Option.getD_some]
    exact ⟨t, slot, x, by rw [slot?, hslots, s.slots.mem_toList.mp hx], hl⟩
  · rintro ⟨t, slot, x, hx, hl⟩
    have hstanding : h.threads.get? t = some (h.standing t) := by
      cases hget : h.threads.get? t with
      | none =>
        rw [slot?, standing, hget] at hx
        cases hx
      | some s => rw [standing, hget, Option.getD_some]
    exact ⟨_, h.threads.mem_toList.mpr hstanding, (slot, x), (h.standing t).slots.mem_toList.mpr hx, hl⟩

/-- Only the innermost call of a thread is anywhere but in a callback. -/
theorem Reachable.current?_of_waiting (hr : Reachable h) {p : Phase α} (hp : p ∈ h.phases t)
    (hv : p.isVisiting = false) : h.calls.current? t = some p := by
  cases hphases : h.phases t with
  | nil =>
    rw [hphases] at hp
    cases hp
  | cons q rest =>
    rw [hphases] at hp
    rcases List.mem_cons.mp hp with rfl | hrest
    · exact Calls.current?_eq_of_cons hphases
    · rw [(hr.poised t q rest hphases).2 p hrest] at hv
      cases hv

/-- A lock of which a guard exists is in use, or is a directory, which nobody borrows. -/
theorem Reachable.isUsed (hr : Reachable h) {g : Guard} (hg : g ∈ h.owned t) :
    h.isUsed g.lock = true ∨ h.IsDirectory g.lock := by
  have pending {p : Phase α} (hp : p ∈ h.phases t) : (t, p) ∈ h.calls.pending := Calls.mem_of.mp hp
  rw [Hierarchy.isUsed, Bool.or_eq_true, List.any_eq_true]
  rcases mem_owned.mp hg with ⟨slot, x, hs, hx⟩ | ⟨p, hp, hx⟩
  · have hlock : x.lock = g.lock := by
      cases x with
      | guard g' => rw [Multiset.mem_singleton.mp hx, Holding.lock]
      | refused v g' => rw [Multiset.mem_singleton.mp hx, Holding.lock]
      | handle k =>
        have hk : k.guard = some g := by
          cases hk : k.guard with
          | none => simp [Holding.guards, Holding.guard?, hk] at hx
          | some g' =>
            simp only [Holding.guards, Holding.guard?, hk, Option.elim_some, Multiset.mem_singleton] at hx
            rw [hx]
        exact ((hr.tidy t).matched slot _ hs g hk).symm
    exact .inl (.inl (isKept_iff.mpr ⟨t, slot, x, hs, hlock⟩))
  · cases p with
    | entering r => cases hx
    | waiting k previous q =>
      cases q with
      | hold aim => cases hx
      | inquire r i => cases hx
      | visit directory callback =>
        rw [Phase.guards, Purpose.guards, Multiset.mem_singleton] at hx
        subst hx
        exact .inr ((hr.furnished.orderly t).directory _ _ (hr.current?_of_waiting hp rfl) rfl)
    | visiting e d =>
      refine .inl (.inr ⟨_, pending hp, ?_⟩)
      simp only [Phase.guards, Multiset.insert_eq_cons, Multiset.mem_cons, Multiset.mem_singleton] at hx
      rcases hx with rfl | rfl <;> simp
    | releasing gs a =>
      refine .inl (.inr ⟨_, pending hp, List.any_eq_true.mpr ⟨g, hx, ?_⟩⟩)
      simp
    | returned a => cases hx

end Reachable

end Interlock.Hierarchy
