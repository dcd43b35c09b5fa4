import Interlock.Proofs.Hierarchy.Ledger
import Interlock.Proofs.Panic.Locks

/-!
# Ranked locks without a call that finds no room

A call that is to be taken away may have one lock in hand. In the state without the call (`Lacks`) that lock is free, and
the ceiling of its thread as it was before. Under the calls and deeds of other threads that state goes on as it would
alone, as long as nobody tries the lock. What can become of ranked locks at all, `Evolves` says.
-/

namespace Interlock.Hierarchy

variable {α : Type} {only : Bool} {t u : ThreadId} {env : Environment}

theorem standing_release (h : Hierarchy α) (t u : ThreadId) (g : Guard) (b : Bool) :
    (h.release t g b).standing u = if t = u then { h.standing t with ceiling := g.previous } else h.standing u :=
  standing_setStanding ..

/-! ## Sound records -/

/-- What is held can be recorded, and the record is sound. -/
def Recorded (h : Hierarchy α) : Prop := ∃ r : Record α, r.Sound ∧ r.state = h

namespace Recorded

variable {h h' : Hierarchy α}

theorem start : Recorded ({} : Hierarchy α) := ⟨{}, Record.sound_start, rfl⟩

variable (hr : h.Recorded)
include hr

theorem poised (t : ThreadId) : h.Poised t := by
  obtain ⟨r, hs, rfl⟩ := hr
  exact hs.poised t

theorem holder {g : Guard} (hg : g ∈ h.owned t) : h.holder? g.lock = some t := by
  obtain ⟨r, hs, rfl⟩ := hr
  exact hs.holder (Multiset.mem_of_le (hs.listed t) hg)

theorem move {m : Move α} (hm : h.move? m = some h') : h'.Recorded := by
  obtain ⟨r, hs, rfl⟩ := hr
  exact ⟨_, hs.next (m := m) (by rw [Record.next?, hm]; rfl), rfl⟩

theorem keep {lost : Multiset Guard} (hq : Quiet t 0 lost h h') (hp : h'.phases t = h.phases t) : h'.Recorded := by
  obtain ⟨r, hs, rfl⟩ := hr
  refine ⟨_, hs.keep hq fun u => ?_, rfl⟩
  have hphases : h'.phases u = r.state.phases u := by
    by_cases hu : t = u
    · exact hu ▸ hp
    · exact (hq.others u hu).2
  exact (hs.poised u).congr (hs.linked u).le hphases (hq.ceiling u) hq.rank

end Recorded

/-- What somebody makes of the ranked locks: a thread makes a move, an element changes, or a thread loses what is in a
slot. -/
inductive Evolves (u : Option ThreadId) (h : Hierarchy α) : Hierarchy α → Prop
  | stays : Evolves u h h
  | moves {h' : Hierarchy α} (m : Move α) : m.thread? = u → h.move? m = some h' → Evolves u h h'
  | edits (l : LockId) (c : Content α) : Evolves u h (h.setContent l c)
  | clears (t : ThreadId) (slot : String) : u = some t → Evolves u h (h.clearSlot t slot)

/-- The lock of the directory of a registry. -/
def IsRegistered (h : Hierarchy α) (l : LockId) : Prop := ∃ r ∈ h.registries, r.directory = l

namespace Evolves

variable {h h' : Hierarchy α} {who : Option ThreadId}

theorem recorded (he : Evolves who h h') (hr : h.Recorded) : h'.Recorded := by
  cases he with
  | stays => exact hr
  | moves m _ hm => exact hr.move hm
  | edits l c => exact hr.keep (quiet_setContent 0 h l c) rfl
  | clears t slot _ => exact hr.keep (quiet_clearSlot h t slot) rfl

theorem registered (he : Evolves who h h') {l : LockId} (hl : h.IsRegistered l) : h'.IsRegistered l := by
  cases he with
  | moves m _ hm =>
    obtain ⟨r, hr, hdirectory⟩ := hl
    obtain ⟨i, hi⟩ := List.mem_iff_getElem?.mp hr
    exact ⟨r, List.mem_of_getElem? (registry_move hm hi), hdirectory⟩
  | _ => exact hl

theorem others (he : Evolves who h h') (hr : h.Recorded) (ht : who ≠ some t) :
    h'.ceiling t = h.ceiling t ∧ h'.owned t = h.owned t ∧ h'.phases t = h.phases t := by
  cases he with
  | moves m hthread hm => exact move_others hr.poised hm (hthread ▸ ht)
  | clears u slot hu =>
    have hne : u ≠ t := fun he => ht (hu.trans (congrArg some he))
    exact ⟨ceiling_clearSlot .., (quiet_clearSlot h u slot).others t hne⟩
  | _ => exact ⟨rfl, rfl, rfl⟩

theorem current? (he : Evolves who h h') (hr : h.Recorded) (ht : who ≠ some t) :
    h'.calls.current? t = h.calls.current? t := by
  obtain ⟨-, -, hphases⟩ := he.others hr ht
  rw [← Calls.head?_of, ← Calls.head?_of]
  exact congrArg List.head? hphases

end Evolves

/-! ## Phases -/

def Inquiry.asksRoom (only : Bool) : Inquiry α → Bool
  | .insert _ _ => !only
  | _ => false

def Request.asksRoom (only : Bool) : Request α → Bool
  | .registry _ i => i.asksRoom only
  | _ => false

def Answer.spares (only : Bool) : Answer α → Bool
  | .exhausted _ => true
  | _ => only

/-- The phases of a call that asks for room and has changed nothing so far. -/
def Phase.spares (only : Bool) : Phase α → Bool
  | .entering r => r.asksRoom only
  | .waiting _ _ (.inquire _ i) => i.asksRoom only
  | .releasing [] a => a.spares only
  | .releasing [_] a => a.spares only
  | .returned a => a.spares only
  | _ => false

/-- The phases of a call that has an answer of another kind. -/
def Phase.differs (only : Bool) : Phase α → Bool
  | .releasing _ a => !a.spares only
  | .returned a => !a.spares only
  | _ => false

def Differs (only : Bool) (h : Hierarchy α) (t : ThreadId) : Prop :=
  ∃ p, h.calls.current? t = some p ∧ p.differs only = true

theorem only_of_asksRoom {i : Inquiry α} (h : i.asksRoom only = true) : only = false := by
  cases i with
  | insert name v => simpa [Inquiry.asksRoom] using h
  | _ => cases h

/-- A call that is to be taken away: whose it is, how far it is, and the ceiling of its thread. -/
structure Absent (α : Type) where
  thread : ThreadId
  phase : Phase α
  ceiling : Rank

namespace Absent

/-- The guard that the call is about to release. -/
def hand? (a : Absent α) : Option Guard :=
  match a.phase with
  | .releasing gs _ => gs.head?
  | _ => none

def holds (a : Absent α) (l : LockId) : Bool := a.hand?.any (·.lock = l)

/-- The lock that the call waits for or has in hand. -/
def lock? (a : Absent α) : Option LockId :=
  match a.phase with
  | .waiting l _ _ => some l
  | .releasing gs _ => gs.head?.map Guard.lock
  | _ => none

/-- The call has changed nothing so far, and the only lock that it takes is that of a directory. -/
structure Spares (only : Bool) (a : Absent α) (h : Hierarchy α) : Prop where
  phase : a.phase.spares only = true
  registered : ∀ l, a.lock? = some l → h.IsRegistered l

/-- The ceiling of the thread without the call. -/
def before (a : Absent α) : Rank := a.hand?.elim a.ceiling Guard.previous

/-- The call is under way in the first state, and the second is as if it had released what it has in hand. -/
structure Stands (a : Absent α) (h h₀ : Hierarchy α) : Prop where
  phase : h.calls.current? a.thread = some a.phase
  ceiling : h.ceiling a.thread = a.ceiling
  standing : h₀.standing a.thread = { h.standing a.thread with ceiling := a.before }
  hand : ∀ g, a.hand? = some g → h.holder? g.lock = some a.thread ∧ a.ceiling = h.rank g.lock

end Absent

/-- The second state is the first without the call. -/
structure Lacks (gone : Option (Absent α)) (h h₀ : Hierarchy α) : Prop where
  contents : SameContents h h₀
  holder : ∀ l, h₀.holder? l = if gone.any (·.holds l) then none else h.holder? l
  standing : ∀ u, gone.map Absent.thread ≠ some u → h₀.standing u = h.standing u
  calls : h₀.calls = gone.elim h.calls fun a => h.calls.finish a.thread
  absent : ∀ a, gone = some a → a.Stands h h₀

section
variable {h h' h₀ h₀' : Hierarchy α} {a : Absent α} {gone : Option (Absent α)}

theorem Absent.Spares.idle (hphase : a.phase.spares only = true) (hnone : a.lock? = none) : a.Spares only h where
  phase := hphase
  registered l hl := by
    rw [hnone] at hl
    cases hl

theorem Absent.Spares.tried (hs : a.Spares only h) {l : LockId} (hl : ¬ h.IsRegistered l) : a.holds l = false := by
  by_contra hholds
  obtain ⟨g, hg, he⟩ := (Option.any_eq_true ..).mp (Bool.not_eq_false _ ▸ hholds)
  refine hl (hs.registered l ?_)
  unfold Absent.hand? at hg
  unfold Absent.lock?
  split at hg
  · rename_i gs b hphase
    rw [hphase]
    exact (congrArg (Option.map Guard.lock) hg).trans (congrArg some (of_decide_eq_true he))
  · cases hg

theorem Absent.Stands.congr (ha : a.Stands h h₀) (hphase : h'.calls.current? a.thread = h.calls.current? a.thread)
    (hstanding : h'.standing a.thread = h.standing a.thread) (hstanding₀ : h₀'.standing a.thread = h₀.standing a.thread)
    (hand : ∀ g, a.hand? = some g → h'.holder? g.lock = h.holder? g.lock ∧ h'.rank g.lock = h.rank g.lock) :
    a.Stands h' h₀' where
  phase := hphase.trans ha.phase
  ceiling := (congrArg Standing.ceiling hstanding).trans ha.ceiling
  standing := by rw [hstanding₀, hstanding, ha.standing]
  hand g hg := by
    obtain ⟨hholder, hrank⟩ := hand g hg
    rw [hholder, hrank]
    exact ha.hand g hg

theorem Absent.thread_ne (hu : gone.map Absent.thread ≠ some u) (ha : gone = some a) : u ≠ a.thread :=
  fun he => hu (ha ▸ congrArg some he.symm)

namespace Lacks

theorem refl (h : Hierarchy α) : Lacks none h h :=
  ⟨⟨fun _ => rfl, fun _ => rfl, rfl⟩, fun _ => rfl, fun _ _ => rfl, rfl, nofun⟩

theorem symm (hr : Lacks none h h₀) : Lacks none h₀ h where
  contents := ⟨fun l => (hr.contents.rank l).symm, fun l => (hr.contents.content l).symm, hr.contents.registries.symm⟩
  holder l := (hr.holder l).symm
  standing u hu := (hr.standing u hu).symm
  calls := hr.calls.symm
  absent := nofun

/-! ## Changes of one part -/

variable (hr : Lacks gone h h₀)
include hr

/-- What the call has in hand its thread holds. -/
theorem holds {l : LockId} (hl : gone.any (·.holds l) = true) : ∃ a, gone = some a ∧ h.holder? l = some a.thread := by
  obtain ⟨a, rfl, ha⟩ := (Option.any_eq_true ..).mp hl
  obtain ⟨g, hg, he⟩ := (Option.any_eq_true ..).mp ha
  obtain rfl := of_decide_eq_true he
  exact ⟨a, rfl, ((hr.absent a rfl).hand g hg).1⟩

/-- A lock that nobody holds is not in hand. -/
theorem not_holds {l : LockId} (hl : h.holder? l = none) : gone.any (·.holds l) = false := by
  by_contra hholds
  obtain ⟨a, -, ha⟩ := hr.holds (by simpa using hholds)
  rw [hl] at ha
  cases ha

variable (hu : gone.map Absent.thread ≠ some u)
include hu

theorem current? : h₀.calls.current? u = h.calls.current? u := by
  rw [hr.calls]
  cases gone with
  | none => rfl
  | some a => exact Calls.current?_finish_of_ne (Absent.thread_ne hu rfl) h.calls

/-- A call of another thread is made, goes on or comes to its end. -/
theorem inCalls {f : Calls (Phase α) → Calls (Phase α)} (hf : Calls.Within u f) :
    Lacks gone { h with calls := f h.calls } { h₀ with calls := f h₀.calls } where
  contents := ⟨hr.contents.rank, hr.contents.content, hr.contents.registries⟩
  holder := hr.holder
  standing := hr.standing
  calls := by
    rw [hr.calls]
    cases gone with
    | none => rfl
    | some a => exact (hf.commutes (Absent.thread_ne hu rfl) h.calls).symm
  absent a ha := (hr.absent a ha).congr (hf.others (Absent.thread_ne hu ha) h.calls) rfl rfl fun _ _ => ⟨rfl, rfl⟩

theorem into (p : Phase α) : Lacks gone (h.into u p) (h₀.into u p) := hr.inCalls hu (.move u p)

theorem setStanding (s : Standing) : Lacks gone (h.setStanding u s) (h₀.setStanding u s) where
  contents := ⟨hr.contents.rank, hr.contents.content, hr.contents.registries⟩
  holder := hr.holder
  standing v hv := by
    rw [standing_setStanding, standing_setStanding, hr.standing v hv]
  calls := hr.calls
  absent a ha := by
    have hne := Absent.thread_ne hu ha
    refine (hr.absent a ha).congr rfl ?_ ?_ fun _ _ => ⟨rfl, rfl⟩
    · rw [standing_setStanding, if_neg hne]
    · rw [standing_setStanding, if_neg hne]

omit hu in
theorem setContent (l : LockId) (c : Content α) : Lacks gone (h.setContent l c) (h₀.setContent l c) where
  contents := by
    refine ⟨fun k => ?_, fun k => ?_, hr.contents.registries⟩
    · rw [rank_setContent, rank_setContent, hr.contents.rank]
    · rw [content?_setContent, content?_setContent, hr.contents.content]
  holder k := by rw [holder?_setContent, holder?_setContent, hr.holder]
  standing := hr.standing
  calls := hr.calls
  absent a ha := (hr.absent a ha).congr rfl rfl rfl fun g _ => ⟨holder?_setContent .., rank_setContent ..⟩

omit hu in
theorem addLock (r : Rank) (c : Content α) : Lacks gone (h.addLock r c).1 (h₀.addLock r c).1 where
  contents := by
    refine ⟨fun k => ?_, fun k => ?_, hr.contents.registries⟩
    · by_cases hk : k = h.locks.length
      · rw [hk, rank_addLock_new, ← hr.contents.length, rank_addLock_new]
      · rw [rank_addLock_of_ne h r c hk, rank_addLock_of_ne h₀ r c (hr.contents.length ▸ hk), hr.contents.rank]
    · rw [content?_addLock_eq, content?_addLock_eq, hr.contents.length, hr.contents.content]
  holder k := by rw [holder?_addLock, holder?_addLock, hr.holder]
  standing := hr.standing
  calls := hr.calls
  absent a ha := by
    refine (hr.absent a ha).congr rfl rfl rfl fun g hg => ⟨holder?_addLock .., ?_⟩
    have hlt := lt_of_holder? ((hr.absent a ha).hand g hg).1
    exact rank_addLock_of_ne h r c (Nat.ne_of_lt hlt)

omit hu in
theorem addRegistry (d e : Rank) : Lacks gone (h.addRegistry d e).1 (h₀.addRegistry d e).1 := by
  have added := hr.addLock d (.directory {})
  refine ⟨⟨added.contents.rank, added.contents.content, ?_⟩, added.holder, added.standing, added.calls, fun a ha => ?_⟩
  · show h₀.registries ++ [⟨h₀.locks.length, e⟩] = h.registries ++ [⟨h.locks.length, e⟩]
    rw [hr.contents.registries, hr.contents.length]
  · exact (added.absent a ha).congr rfl rfl rfl fun _ _ => ⟨rfl, rfl⟩

/-- A lock is released that another thread holds. -/
theorem release {g : Guard} (hg : h.holder? g.lock = some u) (b : Bool) :
    Lacks gone (h.release u g b) (h₀.release u g b) where
  contents := by
    refine ⟨fun k => ?_, fun k => ?_, hr.contents.registries⟩
    · rw [rank_release, rank_release, hr.contents.rank]
    · rw [content?_release, content?_release, hr.contents.content]
  holder k := by
    rw [holder?_release, holder?_release, hr.holder]
    split
    · rw [ite_self]
    · rfl
  standing v hv := by rw [standing_release, standing_release, hr.standing u hu, hr.standing v hv]
  calls := hr.calls
  absent a ha := by
    have hne := Absent.thread_ne hu ha
    refine (hr.absent a ha).congr rfl ?_ ?_ fun x hx => ⟨?_, rank_release ..⟩
    · rw [standing_release, if_neg hne]
    · rw [standing_release, if_neg hne]
    · have hlock : g.lock ≠ x.lock := by
        intro he
        rw [he, ((hr.absent a ha).hand x hx).1] at hg
        exact hne (Option.some.inj hg).symm
      rw [holder?_release, if_neg hlock]

omit hu in
/-- A lock is taken that is free in both states. -/
theorem hold {l : LockId} (hl : h.holder? l = none) : Lacks gone (h.hold u l) (h₀.hold u l) where
  contents := by
    refine ⟨fun k => ?_, fun k => ?_, hr.contents.registries⟩
    · rw [rank_hold, rank_hold, hr.contents.rank]
    · rw [content?_hold, content?_hold, hr.contents.content]
  holder k := by
    rw [holder?_hold, holder?_hold, hr.holder, hr.contents.content]
    split
    · rename_i he
      subst he
      rw [hr.not_holds hl]
      rfl
    · rfl
  standing := hr.standing
  calls := hr.calls
  absent a ha := by
    refine (hr.absent a ha).congr rfl rfl rfl fun x hx => ⟨?_, rank_hold ..⟩
    have hne : l ≠ x.lock := by
      rintro rfl
      rw [((hr.absent a ha).hand x hx).1] at hl
      cases hl
    rw [holder?_hold, if_neg hne]

/-- A lock that can be taken in the first state is free in the second too. -/
theorem admit? (l : LockId) (previous : Rank) :
    Follows (fun x x₀ => Lacks gone x.1 x₀.1 ∧ x₀.2 = x.2) (h.admit? u l previous) (h₀.admit? u l previous) := by
  rw [admit?_eq_hold, admit?_eq_hold, hr.contents.content, hr.contents.rank]
  split
  · rename_i hfree
    have hl : h₀.holder? l = none := by rw [hr.holder, hfree.2, ite_self]
    rw [if_pos ⟨hfree.1, hl⟩]
    have taken := (hr.hold (u := u) hfree.2).setStanding hu { h.standing u with ceiling := h.rank l }
    refine follows_some ⟨?_, rfl⟩
    rw [Hierarchy.setCeiling, Hierarchy.setCeiling]
    have hstanding : (h₀.hold u l).standing u = (h.hold u l).standing u := hr.standing u hu
    rw [hstanding]
    exact taken
  · exact follows_none _

/-- A lock that the call does not have in hand can be taken in both states or in neither. -/
theorem admit?_of_not_holds {l : LockId} (hl : gone.any (·.holds l) = false) (previous : Rank) :
    Option.Rel (fun x x₀ => Lacks gone x.1 x₀.1 ∧ x₀.2 = x.2) (h.admit? u l previous) (h₀.admit? u l previous) := by
  have hfollows := hr.admit? hu l previous
  have hholder : h₀.holder? l = h.holder? l := by
    rw [hr.holder, hl]
    rfl
  cases ha : h.admit? u l previous with
  | some x =>
    obtain ⟨x₀, hx₀, hx⟩ := hfollows x ha
    rw [hx₀]
    exact .some hx
  | none =>
    have hnone : h₀.admit? u l previous = none := by
      rw [admit?_eq_hold] at ha ⊢
      rw [hr.contents.content, hholder]
      split at ha
      · cases ha
      · rename_i hnot
        rw [if_neg hnot]
    rw [hnone]
    exact .none

omit hr in
theorem steady : Steady u (Lacks gone) where
  toTandem := {
    contents := fun hr => hr.contents
    ceiling := fun hr => congrArg Standing.ceiling (hr.standing u hu)
    into := fun hr => hr.into hu
    setContent := fun hr => hr.setContent
    addLock := fun hr => hr.addLock }
  standing hr := hr.standing u hu
  setStanding hr := hr.setStanding hu

/-! ## Other threads -/

theorem isFree : h₀.isFree u = h.isFree u := by rw [Hierarchy.isFree, hr.current? hu, Hierarchy.isFree]

theorem answer? : h₀.answer? u = h.answer? u := by rw [Hierarchy.answer?, hr.current? hu, Hierarchy.answer?]

theorem visited? : h₀.visited? u = h.visited? u := by rw [Hierarchy.visited?, hr.current? hu, Hierarchy.visited?]

theorem start? (r : Request α) : Follows (Lacks gone) (h.start? u r) (h₀.start? u r) := by
  unfold Hierarchy.start?
  rw [hr.isFree hu, (steady hu).admits hr]
  split
  · exact follows_some (hr.inCalls hu (.start u _))
  · exact follows_none _

theorem collect : Lacks gone (h.collect u) (h₀.collect u) := hr.inCalls hu (.finish u)

theorem end? (e : Ending) : Follows (Lacks gone) (h.end? u e) (h₀.end? u e) := by
  unfold Hierarchy.end?
  rw [hr.current? hu]
  split
  · exact follows_some (hr.into hu _)
  · exact follows_none _

theorem step? (hs : h.Recorded) (env : Environment) : Follows (Lacks gone) (h.step? env u) (h₀.step? env u) := by
  unfold Hierarchy.step?
  rw [hr.current? hu]
  cases hc : h.calls.current? u with
  | none => exact follows_none _
  | some p =>
    cases p with
    | entering r => exact follows_some ((steady hu).enter hr r)
    | waiting l previous q =>
      refine follows_map (hr.admit? hu l previous) fun x x₀ hx => ?_
      obtain ⟨h₁, g⟩ := x
      obtain ⟨h₁₀, g₀⟩ := x₀
      obtain ⟨hstate, hguard⟩ := hx
      obtain rfl : g₀ = g := hguard
      exact (steady hu).proceed hstate env g₀ q
    | visiting e d => exact follows_none _
    | releasing gs a =>
      have howned : ∀ g ∈ gs, g ∈ h.owned u := by
        intro g hg
        refine mem_owned.mpr (.inr ⟨.releasing gs a, ?_, hg⟩)
        rw [phases_eq_cons hc]
        exact List.mem_cons_self
      exact follows_some ((steady hu).dropNext hr (fun g hg b => hr.release hu (hs.holder (howned g hg)) b) a)
    | returned a => exact follows_none _

theorem perform? (hs : h.Recorded) {d : Deed} (hd : ∀ l aim, d = .tryLock l aim → gone.any (·.holds l) = false) :
    Option.Rel (fun x x₀ => Lacks gone x.1 x₀.1 ∧ x₀.2 = x.2) (h.perform? u d) (h₀.perform? u d) := by
  unfold Hierarchy.perform?
  rw [hr.isFree hu]
  split
  · refine (steady hu).attempt? hr d (fun l aim previous he => hr.admit?_of_not_holds hu (hd l aim he) previous) ?_
    intro slot x hx g hg
    refine hr.release hu (hs.holder (mem_owned.mpr (.inl ⟨slot, x, hx, ?_⟩))) false
    rw [Holding.guards, hg]
    exact Multiset.mem_singleton_self g
  · exact .none

end Lacks

end

end Interlock.Hierarchy
