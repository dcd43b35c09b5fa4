import Interlock.Proofs.Handles.Plain
import Interlock.Proofs.Related

/-!
# Handles and optional guards move together

Where a state with handles can make a move, so can the one without, and they stay alike and tell the client the same.
A call that takes a lock puts it over nothing, because handles are in order (`Reachable.tidy`); this is the only place
where more is needed than that the states are alike.
-/

namespace Interlock.Hierarchy

variable {α : Type}

namespace Mirrors

variable {h h' h₁ h₁' : Hierarchy α} {o o₁ : Options} {t : ThreadId}

theorem isBound (ha : Mirrors h h' o) (t : ThreadId) (slot : String) :
    Plain.isBound ⟨h', o⟩ t slot = (h.slot? t slot).isSome := (ha.slots t slot).isSome

theorem accepts (ha : Mirrors h h' o) (t : ThreadId) (l : LockId) (aim : Aim) :
    Plain.accepts ⟨h', o⟩ t l aim = h.accepts t l aim := by
  cases aim with
  | guard slot => simp only [Plain.accepts, ha.isBound, Hierarchy.accepts, Option.not_isSome]
  | newHandle slot => simp only [Plain.accepts, ha.isBound, Hierarchy.accepts, Option.not_isSome]
  | handle slot =>
    have stands := ha.slots t slot
    simp only [Plain.accepts, Hierarchy.accepts]
    generalize h.slot? t slot = x at stands ⊢
    generalize h'.slot? t slot = y at stands
    generalize o.get? (t, slot) = z at stands ⊢
    cases stands <;> simp

theorem admits (ha : Mirrors h h' o) (t : ThreadId) (r : Request α) :
    Plain.admits ⟨h', o⟩ t r = h.admits t r := by
  cases r with
  | lock l aim => simp only [Plain.admits, Hierarchy.admits, ha.locks, ha.accepts]
  | drop slots panic => simp only [Plain.admits, Hierarchy.admits, ha.isBound]
  | registry r i => simp only [Plain.admits, Hierarchy.admits, ha.registries]

/-! ## Calls -/

theorem parallel (t : ThreadId) (o : Options) : Parallel t fun h h' : Hierarchy α => Mirrors h h' o where
  contents ha := ha.agrees.toSameContents
  ceiling ha := ha.ceiling t
  into ha := ha.into t
  setContent ha := ha.setContent
  addLock ha := ha.addLock
  release ha := ha.release t

theorem takeOut (t : ThreadId) : ∀ (slots : List String) {h h' : Hierarchy α} {o : Options}, Mirrors h h' o →
    Mirrors (h.takeOut t slots).1 (h'.takeOut t slots).1 (o.forget t slots) ∧
      (h'.takeOut t slots).2 = (h.takeOut t slots).2
  | [], _, _, _, ha => ⟨ha, rfl⟩
  | slot :: slots, h, h', o, ha => by
    have cleared : Mirrors (h.clearSlot t slot) (h'.clearSlot t slot) (o.erase (t, slot)) :=
      ha.put .free (puts_clearSlot h t slot) (puts_clearSlot h' t slot) (o.puts_erase t slot)
    obtain ⟨hstate, hguards⟩ := takeOut t slots cleared
    refine ⟨hstate, ?_⟩
    simp only [Hierarchy.takeOut, (ha.slots t slot).guard?, hguards]

/-- A guard of the lock is put where the aim wants it, if that is free or a handle of the lock. -/
theorem deliver (ha : Mirrors h h' o) (t : ThreadId) {g : Guard} {aim : Aim} (hacc : h.accepts t g.lock aim = true) :
    Mirrors (h.deliver t g aim) (h'.deliver t g (.guard aim.slot)) (o.declare t g.lock aim) := by
  cases aim with
  | guard slot =>
    rw [Hierarchy.accepts, Option.isNone_iff_eq_none] at hacc
    have hnone := (hacc ▸ ha.slots t slot).of_none.2
    exact ha.put (.guard g) (puts_setSlot h t slot _) (puts_setSlot h' t slot _) (Options.puts_self hnone)
  | newHandle slot =>
    exact ha.put (.handle ⟨g.lock, .locked, some g⟩) (puts_setSlot h t slot _) (puts_setSlot h' t slot _)
      (o.puts_insert t slot g.lock)
  | handle slot =>
    rw [← ha.accepts] at hacc
    have hrefers : o.get? (t, slot) = some g.lock := of_decide_eq_true hacc
    exact ha.put (.handle ⟨g.lock, .locked, some g⟩) (puts_setSlot h t slot _) (puts_setSlot h' t slot _)
      (Options.puts_self hrefers)

theorem start? (ha : Mirrors h h' o) (t : ThreadId) (r : Request α) :
    Option.Rel Replaced (h.start? t r) (Plain.start? ⟨h', o⟩ t r) := by
  unfold Hierarchy.start? Plain.start?
  rw [ha.isFree, ha.admits]
  split
  · refine .some (ha.framed ha.locks ha.registries ?_ ha.ceiling (fun _ => rfl) fun _ => rfl)
    exact congrArg (·.start t (.entering r)) ha.calls
  · exact .none

theorem step? (ha : Mirrors h h' o) (env : Environment) (t : ThreadId)
    (aimed : ∀ l previous aim, h.calls.current? t = some (.waiting l previous (.hold aim)) → h.accepts t l aim = true) :
    Option.Rel Replaced (h.step? env t) (Plain.step? env t ⟨h', o⟩) := by
  unfold Plain.step? Hierarchy.step?
  rw [ha.calls]
  cases hc : h.calls.current? t with
  | none => exact .none
  | some p =>
    cases p with
    | entering r =>
      cases r with
      | lock l aim => exact .some ((parallel t o).approach ha l _ _)
      | drop slots panic =>
        obtain ⟨hstate, hguards⟩ := takeOut t slots ha
        simp only [Hierarchy.enter, hguards]
        exact .some (hstate.into t _)
      | registry r i =>
        simp only [Hierarchy.enter, ha.registries]
        split
        · exact .some ((parallel t o).approach ha _ _ _)
        · exact .some (ha.into t _)
    | waiting l previous q =>
      have admitted := ha.admit? t l previous
      cases q with
      | hold aim =>
        have hacc := aimed l previous aim hc
        refine rel_map admitted ?_
        rintro ⟨h₁, g⟩ ⟨h₁', g'⟩ ⟨hstate, rfl, rfl, hslots⟩
        rw [← accepts_congr hslots] at hacc
        exact (hstate.deliver t hacc).into t _
      | inquire r i =>
        simp only [Option.map_map]
        refine rel_map admitted ?_
        rintro ⟨h₁, g⟩ ⟨h₁', g'⟩ ⟨hstate, rfl, -⟩
        exact (parallel t o).inquire hstate env g' r i
      | visit d callback =>
        simp only [Option.map_map]
        refine rel_map admitted ?_
        rintro ⟨h₁, g⟩ ⟨h₁', g'⟩ ⟨hstate, rfl, -⟩
        exact (parallel t o).visit hstate env g' d callback
    | visiting e d => exact .none
    | releasing gs a => exact .some ((parallel t o).dropNext ha gs a)
    | returned a => exact .none

/-! ## Deeds -/

/-- Both come to the same outcome. -/
abbrev Tells (x : Hierarchy α × Outcome) (y : Plain α × Outcome) : Prop := Replaced x.1 y.1 ∧ y.2 = x.2

theorem tryLock (ha : Mirrors h h' o) (t : ThreadId) {l : LockId} {aim : Aim} (hacc : h.accepts t l aim = true) :
    Tells (h.tryLock t l aim) (Plain.tryLock ⟨h', o⟩ t l aim) := by
  unfold Plain.tryLock Hierarchy.tryLock
  rw [ha.agrees.checkAcquire]
  cases h.checkAcquire t l with
  | error v => exact ⟨ha, rfl⟩
  | ok previous =>
    have admitted := ha.admit? t l previous
    simp only
    generalize h.admit? t l previous = x at admitted ⊢
    generalize h'.admit? t l previous = x' at admitted ⊢
    cases admitted with
    | none => exact ⟨ha, rfl⟩
    | @some x x' hs =>
      obtain ⟨h₁, g⟩ := x
      obtain ⟨h₁', g'⟩ := x'
      obtain ⟨hstate, rfl, rfl, hslots⟩ := hs
      rw [← accepts_congr hslots] at hacc
      exact ⟨hstate.deliver t hacc, rfl⟩

theorem unlock (ha : Mirrors h h' o) {slot : String} {g : Guard} (hs : h.slot? t slot = some (.guard g)) :
    Mirrors (h.unlock t slot g).1 (h'.unlock t slot g).1 o ∧ (h'.unlock t slot g).2 = (h.unlock t slot g).2 := by
  have hnone := Options.puts_self ((ha.slots t slot).guard_iff.mpr hs).1
  unfold Hierarchy.unlock
  rw [ha.agrees.checkRelease]
  split
  · exact ⟨(ha.release t g false).put .free (puts_clearSlot _ t slot) (puts_clearSlot _ t slot) hnone, rfl⟩
  · exact ⟨ha.put (.refused _ g) (puts_setSlot h t slot _) (puts_setSlot h' t slot _) hnone, rfl⟩

/-- A handle and an optional guard are unlocked alike, and where that is refused both stay as they are. -/
theorem unlockHandle (ha : Mirrors h h' o) {slot : String} {k : Handle} (hs : h.slot? t slot = some (.handle k)) :
    Tells (h.unlockHandle t slot k) (Plain.unlockOption ⟨h', o⟩ t slot) := by
  obtain ⟨hguard, hrefers⟩ := (hs ▸ ha.slots t slot).of_handle
  have hsame := Options.puts_self hrefers
  unfold Hierarchy.unlockHandle Plain.unlockOption
  rw [hguard]
  cases hk : k.guard with
  | none => exact ⟨ha, rfl⟩
  | some g =>
    simp only [Option.map_some, Hierarchy.unlock, ha.agrees.checkRelease]
    cases h.checkRelease t g with
    | ok =>
      exact ⟨(ha.release t g false).put (.handle ⟨k.lock, .unlocked, none⟩) (puts_setSlot _ t slot _)
        (puts_clearSlot _ t slot) hsame, rfl⟩
    | error v =>
      have restored : Puts t slot (some (.guard g)) h' ((h'.setSlot t slot (.refused v g)).setSlot t slot (.guard g)) := by
        have a := puts_setSlot h' t slot (.refused v g)
        have b := puts_setSlot (h'.setSlot t slot (.refused v g)) t slot (.guard g)
        refine ⟨rfl, rfl, rfl, fun u => (b.ceiling u).trans (a.ceiling u), fun u s => ?_⟩
        rw [b.slots, a.slots]
        split <;> rfl
      have stands := Stands.handle k
      rw [hk] at stands
      exact ⟨ha.put stands (puts_self hs) restored hsame, rfl⟩

theorem detach (ha : Mirrors h h' o) {source target : String} {k : Handle}
    (hs : h.slot? t source = some (.handle k)) (hmove : h.canMove t source target = true) :
    Tells (h.detach t source target k) (Plain.detach ⟨h', o⟩ t source target) := by
  obtain ⟨hguard, hrefers⟩ := (hs ▸ ha.slots t source).of_handle
  unfold Hierarchy.detach Plain.detach
  rw [hguard]
  cases hk : k.guard with
  | none =>
    rw [hk] at hguard
    exact ⟨ha.put .free (puts_clearSlot h t source) (puts_self hguard) (o.puts_erase t source), rfl⟩
  | some g =>
    have cleared : Mirrors (h.clearSlot t source) (h'.clearSlot t source) (o.erase (t, source)) :=
      ha.put .free (puts_clearSlot h t source) (puts_clearSlot h' t source) (o.puts_erase t source)
    have hnone := Options.puts_self (slot?_of_canMove hmove ▸ cleared.slots t target).of_none.2
    exact ⟨cleared.put (.guard g) (puts_setSlot _ t target _) (puts_setSlot _ t target _) hnone, rfl⟩

theorem canMove (ha : Mirrors h h' o) (t : ThreadId) (source target : String) :
    Plain.canMove ⟨h', o⟩ t source target = h.canMove t source target := by
  simp only [Plain.canMove, ha.isBound, Hierarchy.canMove, Option.not_isSome]

/-- A variable was a handle before, if it is an optional guard. -/
theorem contains (ha : Mirrors h h' o) (t : ThreadId) (slot : String) :
    o.contains (t, slot) = true ↔ ∃ k, h.slot? t slot = some (.handle k) := by
  rw [Table.contains, Option.isSome_iff_exists]
  constructor
  · rintro ⟨l, hl⟩
    obtain ⟨k, hk, -⟩ := (ha.slots t slot).refers.mp hl
    exact ⟨k, hk⟩
  · rintro ⟨k, hk⟩
    exact ⟨k.lock, (ha.slots t slot).refers.mpr ⟨k, hk, rfl⟩⟩

theorem attempt_tryLock (ha : Mirrors h h' o) (t : ThreadId) (l : LockId) (aim : Aim) :
    Option.Rel Tells (h.attempt? t (.tryLock l aim)) (Plain.attempt? ⟨h', o⟩ t (.tryLock l aim)) := by
  simp only [Hierarchy.attempt?, Plain.attempt?, ha.accepts]
  split
  · rename_i hacc
    exact .some (ha.tryLock t hacc)
  · exact .none

theorem attempt_unlock (ha : Mirrors h h' o) (t : ThreadId) (slot : String) :
    Option.Rel Tells (h.attempt? t (.unlock slot)) (Plain.attempt? ⟨h', o⟩ t (.unlock slot)) := by
  have stands := ha.slots t slot
  simp only [Hierarchy.attempt?, Plain.attempt?]
  split
  · rename_i g hs
    obtain ⟨hz, hy⟩ := stands.guard_iff.mpr hs
    rw [hz, hy]
    exact .some (ha.unlock hs)
  · rename_i hother
    split
    · rename_i g hz hy
      exact absurd (stands.guard_iff.mp ⟨hz, hy⟩) (hother g)
    · exact .none

theorem attempt_recover (ha : Mirrors h h' o) (t : ThreadId) (slot : String) :
    Option.Rel Tells (h.attempt? t (.recover slot)) (Plain.attempt? ⟨h', o⟩ t (.recover slot)) := by
  have stands := ha.slots t slot
  simp only [Hierarchy.attempt?, Plain.attempt?]
  split
  · rename_i v g hs
    rw [stands.refused_iff.mpr hs]
    have hsame := Options.puts_self (hs ▸ stands).of_refused
    exact .some ⟨ha.put (.guard g) (puts_setSlot h t slot _) (puts_setSlot h' t slot _) hsame, rfl⟩
  · rename_i hother
    split
    · rename_i v g hy
      exact absurd (stands.refused_iff.mp hy) (hother v g)
    · exact .none

theorem attempt_unlockHandle (ha : Mirrors h h' o) (t : ThreadId) (slot : String) :
    Option.Rel Tells (h.attempt? t (.unlockHandle slot)) (Plain.attempt? ⟨h', o⟩ t (.unlockHandle slot)) := by
  simp only [Hierarchy.attempt?, Plain.attempt?]
  split
  · rename_i k hs
    rw [if_pos ((ha.contains t slot).mpr ⟨k, hs⟩)]
    exact .some (ha.unlockHandle hs)
  · rename_i hnone
    rw [if_neg ?_]
    · exact .none
    · intro hcontains
      obtain ⟨k, hk⟩ := (ha.contains t slot).mp hcontains
      exact hnone k hk

theorem attempt_defer (ha : Mirrors h h' o) (t : ThreadId) (l : LockId) (slot : String) :
    Option.Rel Tells (h.attempt? t (.defer l slot)) (Plain.attempt? ⟨h', o⟩ t (.defer l slot)) := by
  have stands := ha.slots t slot
  simp only [Hierarchy.attempt?, Plain.attempt?, ha.isBound]
  cases hs : h.slot? t slot with
  | none =>
    rw [hs] at stands
    exact .some ⟨ha.put (.handle ⟨l, .unlocked, none⟩) (puts_setSlot h t slot _) (puts_self stands.of_none.1)
      (o.puts_insert t slot l), rfl⟩
  | some x => exact .none

theorem attempt_adopt (ha : Mirrors h h' o) (t : ThreadId) (source target : String) :
    Option.Rel Tells (h.attempt? t (.adopt source target)) (Plain.attempt? ⟨h', o⟩ t (.adopt source target)) := by
  have stands := ha.slots t source
  simp only [Hierarchy.attempt?, Plain.attempt?, ha.canMove]
  split
  · rename_i g hs hmove
    obtain ⟨hz, hy⟩ := stands.guard_iff.mpr hs
    rw [hz, hy, hmove]
    have cleared : Mirrors (h.clearSlot t source) (h'.clearSlot t source) o :=
      ha.put .free (puts_clearSlot h t source) (puts_clearSlot h' t source) (Options.puts_self hz)
    exact .some ⟨cleared.put (.handle ⟨g.lock, .adopted, some g⟩) (puts_setSlot _ t target _)
      (puts_setSlot _ t target _) (o.puts_insert t target g.lock), rfl⟩
  · rename_i hother
    split
    · rename_i g hz hy hmove
      exact absurd hmove (hother g (stands.guard_iff.mp ⟨hz, hy⟩))
    · exact .none

theorem attempt_detach (ha : Mirrors h h' o) (t : ThreadId) (source target : String) :
    Option.Rel Tells (h.attempt? t (.detach source target)) (Plain.attempt? ⟨h', o⟩ t (.detach source target)) := by
  simp only [Hierarchy.attempt?, Plain.attempt?, ha.canMove, Bool.and_eq_true]
  split
  · rename_i k hs hmove
    rw [if_pos ⟨(ha.contains t source).mpr ⟨k, hs⟩, hmove⟩]
    exact .some (ha.detach hs hmove)
  · rename_i hnone
    rw [if_neg ?_]
    · exact .none
    · rintro ⟨hcontains, hmove⟩
      obtain ⟨k, hk⟩ := (ha.contains t source).mp hcontains
      exact hnone k hk hmove

theorem attempt? (ha : Mirrors h h' o) (t : ThreadId) (d : Deed) :
    Option.Rel Tells (h.attempt? t d) (Plain.attempt? ⟨h', o⟩ t d) := by
  cases d with
  | tryLock l aim => exact ha.attempt_tryLock t l aim
  | unlock slot => exact ha.attempt_unlock t slot
  | recover slot => exact ha.attempt_recover t slot
  | unlockHandle slot => exact ha.attempt_unlockHandle t slot
  | defer l slot => exact ha.attempt_defer t l slot
  | adopt source target => exact ha.attempt_adopt t source target
  | detach source target => exact ha.attempt_detach t source target

theorem perform? (ha : Mirrors h h' o) (t : ThreadId) (d : Deed) :
    Option.Rel Tells (h.perform? t d) (Plain.perform? ⟨h', o⟩ t d) := by
  unfold Hierarchy.perform? Plain.perform?
  rw [ha.isFree]
  split
  · exact ha.attempt? t d
  · exact .none

/-! ## Who refers to a lock -/

theorem mem_owned_iff (ha : Mirrors h h' o) (t : ThreadId) (g : Guard) : g ∈ h'.owned t ↔ g ∈ h.owned t := by
  rw [mem_owned, mem_owned, phases, ha.calls, ← phases]
  refine or_congr_left (exists_congr fun slot => ?_)
  exact (ha.slots t slot).mem_guards g

theorem isKept_iff (ha : Mirrors h h' o) (matched : ∀ t slot x, h.slot? t slot = some x → x.Matched) (l : LockId) :
    (h'.isKept l = true ∨ ∃ t slot, o.get? (t, slot) = some l) ↔ h.isKept l = true := by
  rw [Hierarchy.isKept_iff, Hierarchy.isKept_iff, ← exists_or]
  refine exists_congr fun t => ?_
  rw [← exists_or]
  refine exists_congr fun slot => ?_
  exact (ha.slots t slot).lock (matched t slot) l

theorem isUsed (ha : Mirrors h h' o) (matched : ∀ t slot x, h.slot? t slot = some x → x.Matched) (l : LockId) :
    Plain.isUsed ⟨h', o⟩ l = h.isUsed l := by
  have options : (o.toList.any fun e => e.2 = l) = true ↔ ∃ t slot, o.get? (t, slot) = some l := by
    simp only [List.any_eq_true, decide_eq_true_eq]
    constructor
    · rintro ⟨⟨⟨t, slot⟩, k⟩, hmem, rfl⟩
      exact ⟨t, slot, o.mem_toList.mp hmem⟩
    · rintro ⟨t, slot, hl⟩
      exact ⟨((t, slot), l), o.mem_toList.mpr hl, rfl⟩
  rw [Bool.eq_iff_iff]
  simp only [Plain.isUsed, Hierarchy.isUsed, Bool.or_eq_true, ha.calls]
  rw [options, ← ha.isKept_iff matched]
  exact or_right_comm

theorem setElement? (ha : Mirrors h h' o) (l : LockId) (v : α) :
    Option.Rel Replaced (h.setElement? l v) ((h'.setElement? l v).map fun h => ⟨h, o⟩) := by
  unfold Hierarchy.setElement?
  rw [ha.agrees.element?, Option.map_map]
  exact rel_map (rel_refl _) fun _ _ _ => ha.setContent l _

/-! ## All moves -/

theorem move? (ha : Mirrors h h' o) (hr : Reachable h) (m : Move α) :
    Option.Rel Replaced (h.move? m) (Plain.move? ⟨h', o⟩ m) := by
  cases m with
  | addLock rank v => exact .some (ha.addLock rank _)
  | addRegistry d e => exact .some (ha.addRegistry d e)
  | start t r => exact ha.start? t r
  | step t env => exact ha.step? env t fun l previous aim hc => (hr.tidy t).aimed _ l aim hc rfl
  | finish t e =>
    simp only [Hierarchy.move?, Plain.move?, Hierarchy.end?, ha.calls]
    split
    · exact .some (ha.into t _)
    · exact .none
  | collect t =>
    simp only [Hierarchy.move?, Plain.move?, answer?, ha.calls, Option.map_map]
    refine rel_map (rel_refl _) fun _ _ _ => ?_
    exact ha.framed ha.locks ha.registries (congrArg (·.finish t) ha.calls) ha.ceiling (fun _ => rfl) fun _ => rfl
  | perform t d => exact rel_map (ha.perform? t d) fun _ _ hx => hx.1
  | leak t slot =>
    simp only [Hierarchy.move?, Plain.move?, ha.isFree]
    split
    · exact .some (ha.put .free (puts_clearSlot h t slot) (puts_clearSlot h' t slot) (o.puts_erase t slot))
    · exact .none
  | write t l v =>
    have hmem : l ∈ (h'.owned t).map Guard.lock ↔ l ∈ (h.owned t).map Guard.lock := by
      simp only [Multiset.mem_map, ha.mem_owned_iff]
    simp only [Hierarchy.move?, Plain.move?, ha.isFree, hmem]
    split
    · exact ha.setElement? l v
    · exact .none
  | borrow l v =>
    simp only [Hierarchy.move?, Plain.move?, ha.isUsed fun t => (hr.tidy t).matched]
    split
    · exact .none
    · exact ha.setElement? l v

end Mirrors

/-! ## What a move tells -/

inductive Reply (α : Type) where
  | silence
  | outcome (o : Outcome)
  | answer (a : Answer α)

def reply (h : Hierarchy α) : Move α → Reply α
  | .perform t d => (h.perform? t d).elim .silence fun x => .outcome x.2
  | .collect t => (h.answer? t).elim .silence .answer
  | _ => .silence

def Plain.reply (p : Plain α) : Move α → Reply α
  | .perform t d => (p.perform? t d).elim .silence fun x => .outcome x.2
  | .collect t => (p.state.answer? t).elim .silence .answer
  | _ => .silence

namespace Replaced

variable {h : Hierarchy α} {p : Plain α}

theorem reply (ha : Replaced h p) (m : Move α) : p.reply m = h.reply m := by
  cases m with
  | perform t d =>
    have performed := Mirrors.perform? ha t d
    simp only [Hierarchy.reply, Plain.reply]
    generalize h.perform? t d = x at performed ⊢
    generalize p.perform? t d = y at performed ⊢
    cases performed with
    | none => rfl
    | some hx => simp only [Option.elim_some, hx.2]
  | collect t => simp only [Hierarchy.reply, Plain.reply, answer?, Mirrors.calls ha]
  | _ => rfl

end Replaced

theorem replaced_empty : Replaced ({} : Hierarchy α) {} :=
  ⟨rfl, rfl, rfl, fun _ => rfl, fun _ _ => .free⟩

end Interlock.Hierarchy
