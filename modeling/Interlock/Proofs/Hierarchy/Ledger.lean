import Interlock.Proofs.History
import Interlock.Proofs.Hierarchy.Slots

/-!
# A ledger of the locks

The ledger has one log for each lock, in which stand all acquisitions, releases and changes, and for each thread
the acquisitions that nobody owns any more. What is logged is what threads do, whatever the mutex says. A change
is logged as a function from the old content to the new one, so that content can be computed from the log.

`Ledger.Reachable.tenures`: the log of a lock is one tenure after another, each of one thread, and only the tenant
changes the content. `Ledger.Reachable.balanced`: what threads own and what is abandoned are together the locks
that they hold, each counted once.
-/

namespace Interlock.Hierarchy

variable {α : Type}

/-- Why nobody owns an acquisition that is still in force. -/
inductive Cause where
  /-- Its guard was dropped out of order. -/
  | dropped
  | leaked
  deriving Repr, DecidableEq

def Move.cause : Move α → Cause
  | .leak _ _ => .leaked
  | _ => .dropped

inductive Entry (α : Type) where
  | made (c : Content α)
  | taken (t : ThreadId)
  | changed (t : ThreadId) (e : Edit α)
  | abandoned (t : ThreadId) (c : Cause)
  | released (t : ThreadId)
  /-- Changed by somebody who has the lock to himself. -/
  | borrowed (e : Edit α)

/-- A move, or a change of an element that depends on the element. -/
inductive Work (α : Type) where
  | move (m : Move α)
  | modify (t : ThreadId) (l : LockId) (f : α → α)
  | amend (l : LockId) (f : α → α)

def Work.move? (h : Hierarchy α) : Work α → Option (Move α)
  | .move m => some m
  | .modify t l f => (h.element? l).map fun v => .write t l (f v)
  | .amend l f => (h.element? l).map fun v => .borrow l (f v)

/-- The change of what the lock protects, as a function of what it was. -/
def Work.edit? (h : Hierarchy α) (l : LockId) : Work α → Option (Edit α)
  | .move m => h.edit? l m
  | .modify _ k f => if k = l then some (.element f) else none
  | .amend k f => if k = l then some (.element f) else none

/-- The thread that moves; nobody in particular makes locks and borrows elements. -/
def Move.thread? : Move α → Option ThreadId
  | .addLock _ _ => none
  | .addRegistry _ _ => none
  | .start t _ => some t
  | .step t _ => some t
  | .finish t _ => some t
  | .collect t => some t
  | .perform t _ => some t
  | .leak t _ => some t
  | .write t _ _ => some t
  | .borrow _ _ => none

def arrivals (h : Hierarchy α) (m : Move α) (l : LockId) : List (Entry α) :=
  match h.traffic m with
  | .taken t k => if k = l then [.taken t] else []
  | _ => []

def changes (h : Hierarchy α) (w : Work α) (m : Move α) (l : LockId) : List (Entry α) :=
  match w.edit? h l, m.thread? with
  | none, _ => []
  | some e, some t => [.changed t e]
  | some e, none => [.borrowed e]

def abandonments (h : Hierarchy α) (m : Move α) (l : LockId) : List (Entry α) :=
  match m.thread? with
  | some t => if l ∈ (h.lost m t).map Guard.lock then [.abandoned t m.cause] else []
  | none => []

def departures (h : Hierarchy α) (m : Move α) (l : LockId) : List (Entry α) :=
  match h.traffic m with
  | .released t k => if k = l then [.released t] else []
  | _ => []

/-- What is logged for a lock when the first state becomes the second. -/
def entries (h : Hierarchy α) (w : Work α) (m : Move α) (h' : Hierarchy α) (l : LockId) : List (Entry α) :=
  match h.content? l with
  | none => (h'.content? l).toList.map .made
  | some _ => h.arrivals m l ++ h.changes w m l ++ h.abandonments m l ++ h.departures m l

structure Ledger (α : Type) where
  state : Hierarchy α := {}
  abandoned : ThreadId → Multiset (Cause × Guard) := fun _ => 0
  log : LockId → List (Entry α) := fun _ => []

namespace Ledger

def after (g : Ledger α) (w : Work α) (m : Move α) (h : Hierarchy α) : Ledger α where
  state := h
  abandoned t := g.abandoned t + (g.state.lost m t).map (m.cause, ·)
  log l := g.log l ++ g.state.entries w m h l

def next? (g : Ledger α) (w : Work α) : Option (Ledger α) :=
  (w.move? g.state).bind fun m => (g.state.move? m).map (g.after w m)

def Reachable (g : Ledger α) : Prop := Leads next? {} g

theorem next?_eq {g g' : Ledger α} {w : Work α} (hn : g.next? w = some g') :
    ∃ m h', w.move? g.state = some m ∧ g.state.move? m = some h' ∧ g' = g.after w m h' := by
  obtain ⟨m, hw, hn⟩ := Option.bind_eq_some_iff.mp hn
  obtain ⟨h', hm, rfl⟩ := Option.map_eq_some_iff.mp hn
  exact ⟨m, h', hw, hm, rfl⟩

theorem Reachable.state {g : Ledger α} (hg : g.Reachable) : Hierarchy.Reachable g.state := by
  induction hg with
  | refl => exact .refl
  | tail w _ hn ih =>
    obtain ⟨m, h', -, hm, rfl⟩ := next?_eq hn
    exact ih.tail m hm

end Ledger

/-- Every run has a ledger. -/
theorem Reachable.booked {h : Hierarchy α} (hr : Reachable h) : ∃ g : Ledger α, g.Reachable ∧ g.state = h := by
  induction hr with
  | refl => exact ⟨{}, .refl, rfl⟩
  | @tail _ h' m _ hm ih =>
    obtain ⟨g, hg, rfl⟩ := ih
    have hn : g.next? (.move m) = some (g.after (.move m) m h') := by
      rw [Ledger.next?, Work.move?, Option.bind_some, hm, Option.map_some]
    exact ⟨_, hg.tail (.move m) hn, rfl⟩

/-! ## Who has a lock -/

inductive Tenancy where
  | free
  | held (t : ThreadId)
  /-- Held by the thread for good, for it has no guard to release it with. -/
  | stuck (t : ThreadId)
  deriving Repr, DecidableEq

def tenancy (h : Hierarchy α) (l : LockId) : Tenancy :=
  match h.holder? l with
  | none => .free
  | some t => if l ∈ (h.owned t).map Guard.lock then .held t else .stuck t

/-- What an entry of the log does to a lock: what it protects and who has it. -/
inductive Tenure : Option (Content α × Tenancy) → Entry α → Option (Content α × Tenancy) → Prop
  | made (c : Content α) : Tenure none (.made c) (some (c, .free))
  | taken (c : Content α) (t : ThreadId) : Tenure (some (c, .free)) (.taken t) (some (c, .held t))
  | changed (c : Content α) (t : ThreadId) (e : Edit α) :
      Tenure (some (c, .held t)) (.changed t e) (some (e.apply c, .held t))
  | abandoned (c : Content α) (t : ThreadId) (k : Cause) :
      Tenure (some (c, .held t)) (.abandoned t k) (some (c, .stuck t))
  | released (c : Content α) (t : ThreadId) : Tenure (some (c, .held t)) (.released t) (some (c, .free))
  | borrowed {k : Tenancy} (c : Content α) (e : Edit α) (hk : ∀ t, k ≠ .held t) :
      Tenure (some (c, k)) (.borrowed e) (some (e.apply c, k))

def account (h : Hierarchy α) (l : LockId) : Option (Content α × Tenancy) := (h.content? l).map (·, h.tenancy l)

section Tenancy
variable {h h' : Hierarchy α} {m : Move α} {l : LockId} {t : ThreadId}

theorem tenancy_free (hl : h.holder? l = none) : h.tenancy l = .free := by rw [tenancy, hl]

theorem tenancy_held (hl : h.holder? l = some t) (ho : l ∈ (h.owned t).map Guard.lock) : h.tenancy l = .held t := by
  simp only [tenancy, hl, if_pos ho]

theorem tenancy_stuck (hl : h.holder? l = some t) (ho : l ∉ (h.owned t).map Guard.lock) : h.tenancy l = .stuck t := by
  simp only [tenancy, hl, if_neg ho]

theorem of_tenancy_stuck (ht : h.tenancy l = .stuck t) :
    h.holder? l = some t ∧ l ∉ (h.owned t).map Guard.lock := by
  unfold tenancy at ht
  split at ht
  · cases ht
  · rename_i hl
    split at ht
    · cases ht
    · rename_i hnone
      cases ht
      exact ⟨hl, hnone⟩

theorem mem_owned_of_tenancy (ht : h.tenancy l = .held t) : ∃ g ∈ h.owned t, g.lock = l := by
  unfold tenancy at ht
  split at ht
  · cases ht
  · split at ht
    · rename_i hown
      cases ht
      exact Multiset.mem_map.mp hown
    · cases ht

theorem tenancy_congr (hl : h'.holder? l = h.holder? l)
    (ho : ∀ u, h.holder? l = some u → (l ∈ (h'.owned u).map Guard.lock ↔ l ∈ (h.owned u).map Guard.lock)) :
    h'.tenancy l = h.tenancy l := by
  cases hu : h.holder? l with
  | none => rw [tenancy_free hu, tenancy_free (hl.trans hu)]
  | some u => simp only [tenancy, hl, hu, ho u hu]

/-- What is logged of a lock but for changes. -/
structure Logs (h : Hierarchy α) (m : Move α) (l : LockId) (arrivals abandonments departures : List (Entry α)) :
    Prop where
  arrivals : h.arrivals m l = arrivals
  abandonments : h.abandonments m l = abandonments
  departures : h.departures m l = departures

/-- What becomes of one lock in a move. -/
inductive Passing (h : Hierarchy α) (m : Move α) (h' : Hierarchy α) (l : LockId) : Prop
  | same (holder : h'.holder? l = h.holder? l) (tenancy : h'.tenancy l = h.tenancy l) (logs : h.Logs m l [] [] [])
  | taken (t : ThreadId) (known : l < h.locks.length) (before : h.holder? l = none) (after : h'.holder? l = some t)
      (tenancy : h'.tenancy l = .held t) (logs : h.Logs m l [.taken t] [] [])
  | abandoned (t : ThreadId) (before : h.holder? l = some t) (after : h'.holder? l = some t)
      (tenancy : h.tenancy l = .held t) (tenancy' : h'.tenancy l = .stuck t)
      (logs : h.Logs m l [] [.abandoned t m.cause] [])
  | released (t : ThreadId) (before : h.holder? l = some t) (after : h'.holder? l = none)
      (tenancy : h.tenancy l = .held t) (logs : h.Logs m l [] [] [.released t])

theorem thread?_of_lost (hl : l ∈ (h.lost m t).map Guard.lock) : m.thread? = some t := by
  have own {u : ThreadId} {x : Multiset Guard} (hx : l ∈ (if u = t then x else 0).map Guard.lock) : u = t := by
    by_contra hne
    rw [if_neg hne] at hx
    cases hx
  cases m with
  | step u env => exact congrArg some (own hl)
  | leak u slot => exact congrArg some (own hl)
  | _ => cases hl

theorem abandonments_eq_nil (hl : ∀ t, l ∉ (h.lost m t).map Guard.lock) : h.abandonments m l = [] := by
  unfold abandonments
  split
  · exact if_neg (hl _)
  · rfl

theorem logs_none (ht : h.traffic m = .none) (hl : ∀ t, l ∉ (h.lost m t).map Guard.lock) : h.Logs m l [] [] [] where
  arrivals := by rw [arrivals, ht]
  abandonments := abandonments_eq_nil hl
  departures := by rw [departures, ht]

theorem logs_lost (ht : h.traffic m = .none) (hl : l ∈ (h.lost m t).map Guard.lock) :
    h.Logs m l [] [.abandoned t m.cause] [] where
  arrivals := by rw [arrivals, ht]
  abandonments := by simp only [abandonments, thread?_of_lost hl, if_pos hl]
  departures := by rw [departures, ht]

theorem logs_taken {k : LockId} (ht : h.traffic m = .taken t k) (hl : ∀ u, h.lost m u = 0) :
    h.Logs m l (if k = l then [.taken t] else []) [] [] where
  arrivals := by rw [arrivals, ht]
  abandonments := abandonments_eq_nil (by simp [hl])
  departures := by rw [departures, ht]

theorem logs_released {k : LockId} (ht : h.traffic m = .released t k) (hl : ∀ u, h.lost m u = 0) :
    h.Logs m l [] [] (if k = l then [.released t] else []) where
  arrivals := by rw [arrivals, ht]
  abandonments := abandonments_eq_nil (by simp [hl])
  departures := by rw [departures, ht]

/-- A move changes nothing of threads other than its own. -/
theorem move_others (hw : ∀ u, h.Poised u) (hm : h.move? m = some h') (ht : m.thread? ≠ some t) :
    h'.ceiling t = h.ceiling t ∧ h'.owned t = h.owned t ∧ h'.phases t = h.phases t := by
  have hne {u : ThreadId} (hu : m.thread? = some u) : u ≠ t := fun he => ht (he ▸ hu)
  cases moved hm with
  | @start u r _ _ => exact ⟨rfl, (quiet_start h u (.entering r)).others t (hne rfl)⟩
  | @step u env _ hs =>
    obtain ⟨⟨lost, transfer, -⟩, -⟩ := transfer_step (hw u) hs
    exact transfer.shift.others (hne rfl)
  | finish e hc => exact ⟨rfl, (quiet_into (phases_eq_cons hc) _).others t (hne rfl)⟩
  | collect hc => exact ⟨rfl, (quiet_collect (phases_eq_cons hc)).others t (hne rfl)⟩
  | perform _ hd =>
    obtain ⟨⟨lost, transfer, -⟩, -⟩ := transfer_attempt hd
    exact transfer.shift.others (hne rfl)
  | @leak u slot _ => exact ⟨ceiling_clearSlot .., (quiet_clearSlot h u slot).others t (hne rfl)⟩
  | _ => exact ⟨rfl, rfl, rfl⟩

theorem Reachable.others (hr : Reachable h) (hm : h.move? m = some h') (ht : m.thread? ≠ some t) :
    h'.ceiling t = h.ceiling t ∧ h'.owned t = h.owned t ∧ h'.phases t = h.phases t := move_others hr.poised hm ht

theorem Reachable.nodup_owned (hr : Reachable h) (t : ThreadId) : ((h.owned t).map Guard.lock).Nodup := by
  obtain ⟨r, hrecord, rfl⟩ := hr.recorded
  have hs := hrecord.sound
  exact Multiset.nodup_of_le (Multiset.map_le_map (hs.listed t)) (hs.linked t).nodup

/-- A lock of which no guard is gained or lost by the move. -/
theorem Passing.of_same (hothers : ∀ u, t ≠ u → h'.owned u = h.owned u) (hholder : h'.holder? l = h.holder? l)
    (hmem : l ∈ (h'.owned t).map Guard.lock ↔ l ∈ (h.owned t).map Guard.lock) (hlogs : h.Logs m l [] [] []) :
    Passing h m h' l := by
  refine .same hholder (tenancy_congr hholder fun u _ => ?_) hlogs
  by_cases hu : t = u
  · exact hu ▸ hmem
  · rw [hothers u hu]

theorem Reachable.passing_keep (hr : Reachable h) (ht : h.traffic m = .none) (hq : Quiet t 0 (h.lost m t) h h')
    (hothers : ∀ u, t ≠ u → h.lost m u = 0) : Passing h m h' l := by
  have hlocks : (h'.owned t).map Guard.lock + (h.lost m t).map Guard.lock = (h.owned t).map Guard.lock := by
    rw [← Multiset.map_add, hq.owned, add_zero]
  by_cases hlost : l ∈ (h.lost m t).map Guard.lock
  · have hmem : l ∈ (h.owned t).map Guard.lock := by
      rw [← hlocks]
      exact Multiset.mem_add.mpr (.inr hlost)
    have hgone : l ∉ (h'.owned t).map Guard.lock := by
      intro hl
      have hnodup := hr.nodup_owned t
      rw [← hlocks, Multiset.nodup_add] at hnodup
      exact Multiset.disjoint_left.mp hnodup.2.2 hl hlost
    obtain ⟨g, hg, rfl⟩ := Multiset.mem_map.mp hmem
    have hholder := hr.holder hg
    have hholder' := (hq.holder g.lock).trans hholder
    exact .abandoned t hholder hholder' (tenancy_held hholder hmem) (tenancy_stuck hholder' hgone) (logs_lost ht hlost)
  · have hnone (u : ThreadId) : l ∉ (h.lost m u).map Guard.lock := by
      by_cases hu : t = u
      · exact hu ▸ hlost
      · simp [hothers u hu]
    refine .of_same (fun u hu => (hq.others u hu).1) (hq.holder l) ?_ (logs_none ht hnone)
    rw [← hlocks, Multiset.mem_add, or_iff_left hlost]

theorem passing_take {k : LockId} {g : Guard} {h₁ : Hierarchy α} (ht : h.traffic m = .taken t k)
    (ha : h.admit? t k (h.ceiling t) = some (h₁, g)) (hq : Quiet t {g} 0 h₁ h') (hlost : ∀ u, h.lost m u = 0) :
    Passing h m h' l := by
  have hlogs := logs_taken (l := l) ht hlost
  have howned := hq.owned
  rw [add_zero, (admit?_keeps ha t).1] at howned
  have hothers (u : ThreadId) (hu : t ≠ u) : h'.owned u = h.owned u :=
    (hq.others u hu).1.trans (admit?_keeps ha u).1
  obtain ⟨rfl, hfree, -, hholder, -⟩ := admit?_eq ha
  have hholder' := (hq.holder l).trans (hholder l)
  by_cases hk : k = l
  · subst hk
    rw [if_pos rfl] at hholder' hlogs
    refine .taken t (admit?_contents ha).2.1 hfree hholder' (tenancy_held hholder' ?_) hlogs
    simp [howned]
  · rw [if_neg hk] at hholder' hlogs
    refine .of_same hothers hholder' ?_ hlogs
    simp [howned, Ne.symm hk]

theorem Reachable.passing_free (hr : Reachable h) {g : Guard} {b : Bool} (ht : h.traffic m = .released t g.lock)
    (hq : Quiet t 0 {g} (h.release t g b) h') (hlost : ∀ u, h.lost m u = 0) : Passing h m h' l := by
  have hlogs := logs_released (l := l) ht hlost
  have howned := hq.owned_released
  have hholder' := (hq.holder l).trans (holder?_release h t g b l)
  by_cases hg : g.lock = l
  · subst hg
    rw [if_pos rfl] at hholder' hlogs
    have hmem : g ∈ h.owned t := by simp [← howned]
    have hholder := hr.holder hmem
    exact .released t hholder hholder' (tenancy_held hholder (Multiset.mem_map_of_mem _ hmem)) hlogs
  · rw [if_neg hg] at hholder' hlogs
    refine .of_same (fun u hu => (hq.others u hu).1.trans (owned_release ..)) hholder' ?_ hlogs
    simp [← howned, Ne.symm hg]

theorem Reachable.passing (hr : Reachable h) (hm : h.move? m = some h') (l : LockId) : Passing h m h' l := by
  obtain ⟨t, transfer, hothers⟩ := hr.transfer hm
  have none_lost (ht : h.lost m t = 0) (u : ThreadId) : h.lost m u = 0 := by
    by_cases hu : t = u
    · exact hu ▸ ht
    · exact hothers u hu
  cases transfer with
  | keep htraffic hq => exact hr.passing_keep htraffic hq hothers
  | take k h₁ g htraffic ha _ hnone hq =>
    have hlost := hnone (hr.tidy t)
    rw [hlost] at hq
    exact passing_take htraffic ha hq (none_lost hlost)
  | free g b htraffic _ hlost hq => exact hr.passing_free htraffic hq (none_lost hlost)

/-! ## Changes and tenures -/

theorem Work.content {w : Work α} {c : Content α} (hw : w.move? h = some m) (hm : h.move? m = some h')
    (hc : h.content? l = some c) : h'.content? l = some ((w.edit? h l).elim c (·.apply c)) := by
  rw [content_move hm hc]
  have element {k : LockId} {f : α → α} {v : α} (hv : h.element? k = some v) :
      (if k = l then some (Edit.element fun _ => f v) else none).elim c (·.apply c) =
        (if k = l then some (Edit.element f) else none).elim c (·.apply c) := by
    split
    · rename_i hk
      subst hk
      rw [element?_eq_some hv] at hc
      cases hc
      rfl
    · rfl
  cases w with
  | move m' =>
    cases hw
    rfl
  | modify t k f =>
    obtain ⟨v, hv, rfl⟩ := Option.map_eq_some_iff.mp hw
    exact congrArg some (element hv)
  | amend k f =>
    obtain ⟨v, hv, rfl⟩ := Option.map_eq_some_iff.mp hw
    exact congrArg some (element hv)

theorem Work.edit?_isSome {w : Work α} (hw : w.move? h = some m) : (w.edit? h l).isSome = (h.edit? l m).isSome := by
  cases w with
  | move m' =>
    cases hw
    rfl
  | modify t k f =>
    obtain ⟨v, -, rfl⟩ := Option.map_eq_some_iff.mp hw
    simp only [Work.edit?, Hierarchy.edit?]
    split <;> rfl
  | amend k f =>
    obtain ⟨v, -, rfl⟩ := Option.map_eq_some_iff.mp hw
    simp only [Work.edit?, Hierarchy.edit?]
    split <;> rfl

/-- Who may change what a lock protects: a thread that takes the lock in the same move, or has a guard of it, or
somebody while no thread has one. -/
inductive Editing (h : Hierarchy α) (m : Move α) (h' : Hierarchy α) (l : LockId) : Option ThreadId → Prop
  | taking (t : ThreadId) (before : h.holder? l = none) (after : h'.holder? l = some t) : Editing h m h' l (some t)
  | holding (t : ThreadId) (tenancy : h.tenancy l = .held t) (holder : h'.holder? l = h.holder? l)
      (lost : ∀ u, h.lost m u = 0) : Editing h m h' l (some t)
  | alone (tenancy : ∀ t, h.tenancy l ≠ .held t) (holder : h'.holder? l = h.holder? l)
      (lost : ∀ u, h.lost m u = 0) : Editing h m h' l none

theorem Reachable.editing (hr : Reachable h) (hm : h.move? m = some h') {c : Content α} (hc : h.content? l = some c)
    (he : (h.edit? l m).isSome = true) : Editing h m h' l m.thread? := by
  have same {k : LockId} {e : Edit α} (he : (if k = l then some e else none).isSome = true) : k = l := by
    by_contra hne
    rw [if_neg hne] at he
    cases he
  cases moved hm with
  | @step t env _ hs =>
    rcases content_step hs hc with ⟨hnone, -⟩ | ⟨e, -, -, hbefore, hafter⟩
    · rw [edit?, hnone] at he
      cases he
    · exact .taking t hbefore hafter
  | @write t k v w hown _ =>
    obtain rfl := same he
    obtain ⟨g, hg, rfl⟩ := Multiset.mem_map.mp hown
    exact .holding t (tenancy_held (hr.holder hg) hown) (holder?_setContent ..) fun _ => rfl
  | @borrow k v w hunused hw =>
    obtain rfl := same he
    refine .alone (fun t ht => ?_) (holder?_setContent ..) fun _ => rfl
    obtain ⟨g, hg, rfl⟩ := mem_owned_of_tenancy ht
    rcases hr.isUsed hg with hused | hdirectory
    · rw [hunused] at hused
      cases hused
    · exact not_isDirectory hw hdirectory
  | _ => cases he

theorem holder?_move_new (hr : Reachable h) (hm : h.move? m = some h') (hc : h.content? l = none) :
    h'.holder? l = none := by
  have hfree := holder?_of_content? hc
  cases hr.passing hm l with
  | same holder _ _ => exact holder.trans hfree
  | taken t known _ _ _ _ =>
    rw [content?, Option.map_eq_none_iff, List.getElem?_eq_none_iff] at hc
    exact absurd known (Nat.not_lt.mpr hc)
  | abandoned t before _ _ _ _ =>
    rw [hfree] at before
    cases before
  | released t before _ _ _ =>
    rw [hfree] at before
    cases before

theorem Logs.entries {xs ys zs : List (Entry α)} (hl : h.Logs m l xs ys zs) {w : Work α} {c : Content α}
    (hc : h.content? l = some c) : h.entries w m h' l = xs ++ h.changes w m l ++ ys ++ zs := by
  simp only [Hierarchy.entries, hc, hl.arrivals, hl.abandonments, hl.departures]

/-- A move that changes no content. -/
theorem Passing.tenure (hp : Passing h m h' l) {w : Work α} {c : Content α} (hc : h.content? l = some c)
    (hnone : h.changes w m l = []) :
    Trace Tenure (some (c, h.tenancy l)) (h.entries w m h' l) (some (c, h'.tenancy l)) := by
  cases hp with
  | same _ tenancy logs =>
    rw [logs.entries hc, hnone, tenancy]
    rfl
  | taken t _ before _ tenancy logs =>
    rw [logs.entries hc, hnone, tenancy_free before, tenancy]
    exact ⟨_, .taken c t, rfl⟩
  | abandoned t _ _ tenancy tenancy' logs =>
    rw [logs.entries hc, hnone, tenancy, tenancy']
    exact ⟨_, .abandoned c t m.cause, rfl⟩
  | released t _ after tenancy logs =>
    rw [logs.entries hc, hnone, tenancy, tenancy_free after]
    exact ⟨_, .released c t, rfl⟩

/-- A move that neither takes nor releases nor loses anything. -/
theorem Passing.held (hp : Passing h m h' l) {w : Work α} {c : Content α} (hc : h.content? l = some c)
    (hholder : h'.holder? l = h.holder? l) (hlost : ∀ u, h.lost m u = 0) :
    h.entries w m h' l = h.changes w m l ∧ h'.tenancy l = h.tenancy l := by
  cases hp with
  | same _ tenancy logs => exact ⟨by simp [logs.entries hc], tenancy⟩
  | taken t _ before after _ _ =>
    rw [before, after] at hholder
    cases hholder
  | abandoned t _ _ _ _ logs =>
    have hnone := logs.abandonments
    rw [abandonments_eq_nil (by simp [hlost])] at hnone
    cases hnone
  | released t before after _ _ =>
    rw [before, after] at hholder
    cases hholder

/-- A move that takes the lock, and may change its content then. -/
theorem Passing.onTaking (hp : Passing h m h' l) {w : Work α} {c : Content α} (hc : h.content? l = some c)
    (before : h.holder? l = none) (after : h'.holder? l = some t) :
    h.entries w m h' l = .taken t :: h.changes w m l ∧ h'.tenancy l = .held t := by
  cases hp with
  | same holder _ _ =>
    rw [before, after] at holder
    cases holder
  | taken u _ _ after' tenancy logs =>
    rw [after] at after'
    cases after'
    exact ⟨by simp [logs.entries hc], tenancy⟩
  | abandoned u before' _ _ _ _ =>
    rw [before] at before'
    cases before'
  | released u before' _ _ _ =>
    rw [before] at before'
    cases before'

/-- What is logged for a lock in a move is what becomes of it. -/
theorem Reachable.tenure_move {w : Work α} (hr : Reachable h) (hw : w.move? h = some m) (hm : h.move? m = some h')
    (l : LockId) : Trace Tenure (h.account l) (h.entries w m h' l) (h'.account l) := by
  have hpassing := hr.passing hm l
  cases hc : h.content? l with
  | none =>
    have hfree := holder?_move_new hr hm hc
    simp only [account, hc, Option.map_none, entries]
    cases hc' : h'.content? l with
    | none => rfl
    | some c =>
      rw [Option.map_some, tenancy_free hfree]
      exact ⟨_, .made c, rfl⟩
  | some c =>
    have hc' := Work.content hw hm hc
    rw [account, account, hc, hc', Option.map_some, Option.map_some]
    cases he : w.edit? h l with
    | none =>
      rw [he] at hc'
      exact hpassing.tenure hc (by simp only [changes, he])
    | some e =>
      have hediting := hr.editing hm hc (by rw [← Work.edit?_isSome hw, he]; rfl)
      rw [Option.elim_some]
      cases heditor : m.thread? with
      | none =>
        rw [heditor] at hediting
        have hchanges : h.changes w m l = [.borrowed e] := by simp only [changes, he, heditor]
        cases hediting with
        | alone tenancy holder lost =>
          obtain ⟨hentries, hsame⟩ := hpassing.held (w := w) hc holder lost
          rw [hentries, hchanges, hsame]
          exact ⟨_, .borrowed c e tenancy, rfl⟩
      | some t =>
        rw [heditor] at hediting
        have hchanges : h.changes w m l = [.changed t e] := by simp only [changes, he, heditor]
        cases hediting with
        | taking _ before after =>
          obtain ⟨hentries, hheld⟩ := hpassing.onTaking (w := w) hc before after
          rw [hentries, hchanges, tenancy_free before, hheld]
          exact ⟨_, .taken c t, _, .changed c t e, rfl⟩
        | holding _ tenancy holder lost =>
          obtain ⟨hentries, hsame⟩ := hpassing.held (w := w) hc holder lost
          rw [hentries, hchanges, hsame, tenancy]
          exact ⟨_, .changed c t e, rfl⟩

end Tenancy

theorem Ledger.Reachable.tenures {g : Ledger α} (hg : g.Reachable) (l : LockId) :
    Trace Tenure none (g.log l) (g.state.account l) := by
  induction hg with
  | refl => rfl
  | tail w hg hn ih =>
    obtain ⟨m, h', hw, hm, rfl⟩ := next?_eq hn
    exact trace_append.mpr ⟨_, ih, (Ledger.Reachable.state hg).tenure_move hw hm l⟩

/-! ## Every acquisition is accounted for -/

/-- The acquisitions of the thread that are not released: the guards that exist and those that are abandoned. -/
def Ledger.outstanding (g : Ledger α) (t : ThreadId) : Multiset Guard :=
  g.state.owned t + (g.abandoned t).map Prod.snd

theorem Ledger.outstanding_after (g : Ledger α) (w : Work α) (m : Move α) (h' : Hierarchy α) (t : ThreadId) :
    (g.after w m h').outstanding t = h'.owned t + g.state.lost m t + (g.abandoned t).map Prod.snd := by
  simp only [outstanding, after, Multiset.map_add, Multiset.map_map, Function.comp_apply, Multiset.map_id']
  ac_rfl

/-- By a move the guards of a lock on a thread become more or fewer just as the thread takes or releases it. -/
theorem Reachable.count_move {h h' : Hierarchy α} {m : Move α} (hr : Reachable h) (hm : h.move? m = some h')
    (t : ThreadId) (l : LockId) : ((h'.owned t + h.lost m t).countP fun x => x.lock = l) +
        (if h.holder? l = some t then 1 else 0) =
      ((h.owned t).countP fun x => x.lock = l) + if h'.holder? l = some t then 1 else 0 := by
  obtain ⟨u, transfer, hothers⟩ := hr.transfer hm
  have others (hu : u ≠ t) : h'.owned t + h.lost m t = h.owned t := by
    rw [(transfer.shift.others hu).2.1, hothers t hu, add_zero]
  cases transfer with
  | keep _ hq =>
    have howned : h'.owned t + h.lost m t = h.owned t := by
      by_cases hu : u = t
      · subst hu
        rw [hq.owned, add_zero]
      · exact others hu
    rw [howned, hq.holder]
  | take k h₁ x _ ha _ _ hq =>
    have howned := hq.owned
    rw [(admit?_keeps ha u).1] at howned
    obtain ⟨rfl, hfree, -, hholder, -⟩ := admit?_eq ha
    rw [hq.holder, hholder]
    by_cases hu : u = t
    · subst hu
      rw [howned, add_comm (h.owned u), Multiset.singleton_add, Multiset.countP_cons]
      by_cases hk : k = l
      · subst hk
        simp [hfree]
      · simp [hk]
    · rw [others hu]
      by_cases hk : k = l
      · subst hk
        simp [hfree, hu]
      · simp [hk]
  | free x b _ _ hlost hq =>
    have howned := hq.owned_released
    have hheld : h.holder? x.lock = some u := hr.holder (by simp [← howned])
    rw [hq.holder, holder?_release]
    by_cases hu : u = t
    · subst hu
      rw [hlost, add_zero, ← howned, add_comm (h'.owned u), Multiset.singleton_add, Multiset.countP_cons]
      by_cases hx : x.lock = l
      · subst hx
        simp [hheld]
      · simp [hx]
    · rw [others hu]
      by_cases hx : x.lock = l
      · subst hx
        simp [hheld, hu]
      · simp [hx]

theorem Ledger.Reachable.balanced {g : Ledger α} (hg : g.Reachable) (t : ThreadId) (l : LockId) :
    ((g.outstanding t).countP fun x => x.lock = l) = if g.state.holder? l = some t then 1 else 0 := by
  induction hg with
  | refl => rfl
  | @tail g _ w hg hn ih =>
    obtain ⟨m, h', -, hm, rfl⟩ := next?_eq hn
    have hcount := (Ledger.Reachable.state hg).count_move hm t l
    rw [outstanding, Multiset.countP_add] at ih
    rw [outstanding_after, Multiset.countP_add]
    show _ = if h'.holder? l = some t then 1 else 0
    omega

end Interlock.Hierarchy
