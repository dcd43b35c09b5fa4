import Mathlib.Algebra.Order.Group.Multiset
import Interlock.Hierarchy.Calls
import Interlock.Proofs.Calls
import Interlock.Proofs.Runs

/-!
# Runs on the ranked locks, and a record of what is held

A run is a sequence of moves of any threads in any order, from the state without locks: making locks,
making calls and taking their steps, deeds, ends of callbacks, changes to what a lock protects, and losing
a guard without dropping it. `Moved` says what each of them needs and does, and `Stepped` what a step of a call
does. A `Record` keeps beside the state, for each thread, the acquisitions that it has not released, the latest
first. It looks only at which thread holds which mutex, and never at guards, so that the guards and the ceilings
can be compared with it.
-/

namespace Interlock.Hierarchy

variable {α : Type}

/-! ## What a thread has in hand -/

def Holding.guards (x : Holding) : Multiset Guard := x.guard?.elim 0 ({·})

def Purpose.guards : Purpose α → Multiset Guard
  | .hold _ => 0
  | .inquire _ _ => 0
  | .visit directory _ => {directory}

/-- The guards that a call in this phase has in hand. -/
def Phase.guards : Phase α → Multiset Guard
  | .entering _ => 0
  | .waiting _ _ p => p.guards
  | .visiting entry directory => {entry, directory}
  | .releasing guards _ => guards
  | .returned _ => 0

def Phase.isVisiting : Phase α → Bool
  | .visiting _ _ => true
  | _ => false

def phases (h : Hierarchy α) (t : ThreadId) : List (Phase α) := h.calls.of t

def Standing.guards (s : Standing) : Multiset Guard := Entries.total Holding.guards s.slots.entries

/-- The guards that exist on the thread, in its slots and in its calls. -/
def owned (h : Hierarchy α) (t : ThreadId) : Multiset Guard :=
  (h.standing t).guards + ((h.phases t).map Phase.guards).sum

def holder? (h : Hierarchy α) (l : LockId) : Option ThreadId := (h.locks[l]?).bind (·.mutex.holder)

/-! ## Moves -/

inductive Move (α : Type) where
  | addLock (rank : Rank) (v : α)
  | addRegistry (directoryRank entryRank : Rank)
  | start (t : ThreadId) (r : Request α)
  | step (t : ThreadId) (env : Environment)
  | finish (t : ThreadId) (e : Ending)
  | collect (t : ThreadId)
  | perform (t : ThreadId) (d : Deed)
  /-- A thread loses what is in a slot without dropping it. -/
  | leak (t : ThreadId) (slot : String)
  /-- A thread changes an element through a guard that it has in hand. -/
  | write (t : ThreadId) (l : LockId) (v : α)
  /-- An element is changed by somebody who has its lock to himself. -/
  | borrow (l : LockId) (v : α)

def isUsed (h : Hierarchy α) (l : LockId) : Bool :=
  h.isKept l || h.calls.pending.any fun (_, p) => match p with
    | .entering (.lock k _) => k = l
    | .waiting k _ _ => k = l
    | .visiting entry directory => entry.lock = l || directory.lock = l
    | .releasing guards _ => guards.any (·.lock = l)
    | _ => false

def setElement? (h : Hierarchy α) (l : LockId) (v : α) : Option (Hierarchy α) :=
  (h.element? l).map fun _ => h.setContent l (.element v)

def move? (h : Hierarchy α) : Move α → Option (Hierarchy α)
  | .addLock rank v => some (h.addLock rank (.element v)).1
  | .addRegistry directoryRank entryRank => some (h.addRegistry directoryRank entryRank).1
  | .start t r => h.start? t r
  | .step t env => h.step? env t
  | .finish t e => h.end? t e
  | .collect t => (h.answer? t).map fun _ => h.collect t
  | .perform t d => (h.perform? t d).map Prod.fst
  | .leak t slot => if h.isFree t then some (h.clearSlot t slot) else none
  | .write t l v => if h.isFree t ∧ l ∈ (h.owned t).map Guard.lock then h.setElement? l v else none
  | .borrow l v => if h.isUsed l then none else h.setElement? l v

/-! ## What each move does -/

section
variable {h h' : Hierarchy α}

/-- What a deed finds in the slots and what it does. -/
inductive Attempt (h : Hierarchy α) (t : ThreadId) : Deed → Hierarchy α × Outcome → Prop
  | tryLock {l : LockId} {aim : Aim} : h.accepts t l aim = true → Attempt h t (.tryLock l aim) (h.tryLock t l aim)
  | unlock {slot : String} {g : Guard} :
      h.slot? t slot = some (.guard g) → Attempt h t (.unlock slot) (h.unlock t slot g)
  | recover {slot : String} {v : Violation} {g : Guard} :
      h.slot? t slot = some (.refused v g) → Attempt h t (.recover slot) (h.setSlot t slot (.guard g), .done)
  | unlockHandle {slot : String} {k : Handle} :
      h.slot? t slot = some (.handle k) → Attempt h t (.unlockHandle slot) (h.unlockHandle t slot k)
  | defer {l : LockId} {slot : String} : h.slot? t slot = none →
      Attempt h t (.defer l slot) (h.setSlot t slot (.handle ⟨l, .unlocked, none⟩), .done)
  | adopt {source target : String} {g : Guard} : h.slot? t source = some (.guard g) →
      h.canMove t source target = true → Attempt h t (.adopt source target)
        ((h.clearSlot t source).setSlot t target (.handle ⟨g.lock, .adopted, some g⟩), .done)
  | detach {source target : String} {k : Handle} : h.slot? t source = some (.handle k) →
      h.canMove t source target = true → Attempt h t (.detach source target) (h.detach t source target k)

theorem attempted {t : ThreadId} {d : Deed} {x : Hierarchy α × Outcome} (hd : h.attempt? t d = some x) :
    h.Attempt t d x := by
  cases d with
  | tryLock l aim =>
    simp only [attempt?] at hd
    split at hd
    · rename_i hacc
      cases hd
      exact .tryLock hacc
    · cases hd
  | unlock slot =>
    simp only [attempt?] at hd
    split at hd
    · rename_i g hs
      cases hd
      exact .unlock hs
    · cases hd
  | recover slot =>
    simp only [attempt?] at hd
    split at hd
    · rename_i v g hs
      cases hd
      exact .recover hs
    · cases hd
  | unlockHandle slot =>
    simp only [attempt?] at hd
    split at hd
    · rename_i k hs
      cases hd
      exact .unlockHandle hs
    · cases hd
  | defer l slot =>
    simp only [attempt?] at hd
    split at hd
    · rename_i hs
      cases hd
      exact .defer hs
    · cases hd
  | adopt source target =>
    simp only [attempt?] at hd
    split at hd
    · rename_i g hs hmove
      cases hd
      exact .adopt hs hmove
    · cases hd
  | detach source target =>
    simp only [attempt?] at hd
    split at hd
    · rename_i k hs hmove
      cases hd
      exact .detach hs hmove
    · cases hd

/-- What a step of a call needs and what it does. -/
inductive Stepped (h : Hierarchy α) (t : ThreadId) (env : Environment) : Hierarchy α → Prop
  | enters {r : Request α} : h.calls.current? t = some (.entering r) → Stepped h t env (h.enter t r)
  | admitted {l : LockId} {previous : Rank} {q : Purpose α} {h₁ : Hierarchy α} {g : Guard} :
      h.calls.current? t = some (.waiting l previous q) → h.admit? t l previous = some (h₁, g) →
      Stepped h t env (h₁.proceed env t g q)
  | drops {gs : List Guard} {a : Answer α} :
      h.calls.current? t = some (.releasing gs a) → Stepped h t env (h.dropNext t gs a)

theorem stepped {t : ThreadId} {env : Environment} (hs : h.step? env t = some h') : h.Stepped t env h' := by
  unfold step? at hs
  split at hs
  · cases hs
  · rename_i r hc
    cases hs
    exact .enters hc
  · rename_i l previous q hc
    obtain ⟨⟨h₁, g⟩, ha, rfl⟩ := Option.map_eq_some_iff.mp hs
    exact .admitted hc ha
  · cases hs
  · rename_i gs a hc
    cases hs
    exact .drops hc
  · cases hs

/-- What a move needs and what it does. -/
inductive Moved (h : Hierarchy α) : Move α → Hierarchy α → Prop
  | addLock (rank : Rank) (v : α) : Moved h (.addLock rank v) (h.addLock rank (.element v)).1
  | addRegistry (d e : Rank) : Moved h (.addRegistry d e) (h.addRegistry d e).1
  | start {t : ThreadId} {r : Request α} : h.isFree t = true → h.admits t r = true →
      Moved h (.start t r) { h with calls := h.calls.start t (.entering r) }
  | step {t : ThreadId} {env : Environment} {h' : Hierarchy α} : h.step? env t = some h' → Moved h (.step t env) h'
  | finish {t : ThreadId} {entry directory : Guard} (e : Ending) :
      h.calls.current? t = some (.visiting entry directory) → Moved h (.finish t e)
        (h.into t (.releasing [entry, directory] (match e with
          | .finished => .visited true
          | .panicked message => .panicked message)))
  | collect {t : ThreadId} {a : Answer α} :
      h.calls.current? t = some (.returned a) → Moved h (.collect t) (h.collect t)
  | perform {t : ThreadId} {d : Deed} {x : Hierarchy α × Outcome} :
      h.isFree t = true → h.attempt? t d = some x → Moved h (.perform t d) x.1
  | leak {t : ThreadId} {slot : String} : h.isFree t = true → Moved h (.leak t slot) (h.clearSlot t slot)
  | write {t : ThreadId} {l : LockId} {v w : α} : l ∈ (h.owned t).map Guard.lock → h.element? l = some w →
      Moved h (.write t l v) (h.setContent l (.element v))
  | borrow {l : LockId} {v w : α} : h.isUsed l = false → h.element? l = some w →
      Moved h (.borrow l v) (h.setContent l (.element v))

theorem moved {m : Move α} (hm : h.move? m = some h') : h.Moved m h' := by
  cases m with
  | addLock rank v =>
    cases hm
    exact .addLock rank v
  | addRegistry d e =>
    cases hm
    exact .addRegistry d e
  | start t r =>
    simp only [move?, start?] at hm
    split at hm
    · rename_i hmay
      cases hm
      obtain ⟨hfree, hadmits⟩ := Bool.and_eq_true_iff.mp hmay
      exact .start hfree hadmits
    · cases hm
  | step t env => exact .step hm
  | finish t e =>
    simp only [move?, end?] at hm
    split at hm
    · rename_i entry directory hc
      cases hm
      exact .finish e hc
    · cases hm
  | collect t =>
    simp only [move?, answer?] at hm
    split at hm
    · rename_i a hc
      cases hm
      exact .collect hc
    · cases hm
  | perform t d =>
    simp only [move?, perform?] at hm
    split at hm
    · rename_i hfree
      obtain ⟨x, hd, rfl⟩ := Option.map_eq_some_iff.mp hm
      exact .perform hfree hd
    · cases hm
  | leak t slot =>
    simp only [move?] at hm
    split at hm
    · rename_i hfree
      cases hm
      exact .leak hfree
    · cases hm
  | write t l v =>
    simp only [move?] at hm
    split at hm
    · rename_i hmay
      obtain ⟨w, hw, rfl⟩ := Option.map_eq_some_iff.mp hm
      exact .write hmay.2 hw
    · cases hm
  | borrow l v =>
    simp only [move?] at hm
    split at hm
    · cases hm
    · rename_i hunused
      obtain ⟨w, hw, rfl⟩ := Option.map_eq_some_iff.mp hm
      exact .borrow (by simpa using hunused) hw

end

/-! ## Runs -/

def Reachable (h : Hierarchy α) : Prop := Leads move? {} h

/-! ## The record -/

structure Record (α : Type) where
  state : Hierarchy α := {}
  /-- The acquisitions of each thread that it has not released, the latest first. -/
  held : ThreadId → List Guard := fun _ => []

/-- The acquisitions of the thread after a move: one of each mutex that has come into its hands, with the
ceiling that it found, before those of which it still holds the mutex. -/
def revise (h h' : Hierarchy α) (t : ThreadId) (held : List Guard) : List Guard :=
  ((List.range h'.locks.length).filter fun l => h.holder? l ≠ some t ∧ h'.holder? l = some t).map
      (fun l => ⟨l, h.ceiling t⟩) ++
    held.filter fun g => h'.holder? g.lock = some t

namespace Record

def next? (r : Record α) (m : Move α) : Option (Record α) :=
  (r.state.move? m).map fun h => ⟨h, fun t => revise r.state h t (r.held t)⟩

def Reachable (r : Record α) : Prop := Leads next? {} r

end Record

theorem Record.Reachable.state {r : Record α} (hr : r.Reachable) : Hierarchy.Reachable r.state := by
  refine Leads.map Record.state (fun r m r' hn => ?_) hr
  obtain ⟨h', hm, rfl⟩ := Option.map_eq_some_iff.mp hn
  exact hm

theorem Reachable.recorded {h : Hierarchy α} (hr : Reachable h) :
    ∃ r : Record α, r.Reachable ∧ r.state = h :=
  Leads.lift Record.state (fun r m h' hm => ⟨_, by rw [Record.next?, hm]; rfl, rfl⟩) hr

end Interlock.Hierarchy
