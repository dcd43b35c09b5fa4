import Mathlib.Data.List.Forall2
import Interlock.Proofs.History
import Interlock.Proofs.Stack.Moves

/-!
# A stack as a tally of arrivals

Two elements can be equal, so a list of what is on a stack does not say which of them a pop takes away. A tally
numbers the elements in the order in which they came onto the stack and lists the numbers of those that were
taken off. The latest that is left is taken (`Takes`), so no number is listed twice (`Tally.Sound`). `Serves`
says what one call does to a tally and answers; on the elements that are left it does what the stack does
(`Acts.serves`, `ended_serves`).
-/

namespace Interlock.Stack

variable {α : Type}

structure Tally (α : Type) where
  arrived : List α
  /-- The numbers of the elements that were taken off, in this order. -/
  taken : List Nat := []

namespace Tally

def left (y : Tally α) : List Nat := (List.range y.arrived.length).filter (· ∉ y.taken)

def at? (y : Tally α) (i : Nat) : Option α := y.arrived[i]?

/-- What is left on the stack, the latest first. -/
def items (y : Tally α) : List α := y.left.reverse.filterMap y.at?

def delivered (y : Tally α) : List α := y.taken.filterMap y.at?

def push (y : Tally α) (v : α) : Tally α := { y with arrived := y.arrived ++ [v] }

def Bare (y : Tally α) : Prop := ∀ i < y.arrived.length, i ∈ y.taken

/-- Of the elements that are left the latest, which is this one, is taken off. -/
def Takes (y : Tally α) (v : α) (y' : Tally α) : Prop :=
  ∃ i, y.at? i = some v ∧ i ∉ y.taken ∧ (∀ j < y.arrived.length, j ∉ y.taken → j ≤ i) ∧
    y' = { y with taken := y.taken ++ [i] }

structure Sound (y : Tally α) : Prop where
  nodup : y.taken.Nodup
  arrived : ∀ i ∈ y.taken, i < y.arrived.length

end Tally

/-- The call gives this answer when the first tally is what it finds, and leaves the second. -/
inductive Serves : Tally α → Request α → Answer α → Tally α → Prop
  | push (y : Tally α) (v : α) : Serves y (.push v) .done (y.push v)
  | pushRefused (y : Tally α) (v : α) (f : StorageFault) : Serves y (.push v) (.exhausted f) y
  | pop {y y' : Tally α} {v : α} : y.Takes v y' → Serves y .pop (.popped v) y'
  | popEmpty {y : Tally α} : y.Bare → Serves y .pop .empty y
  | popInto {y y' : Tally α} {v : α} (out : α) : y.Takes v y' → Serves y (.popInto out) (.moved true v) y'
  | popIntoEmpty {y : Tally α} (out : α) : y.Bare → Serves y (.popInto out) (.moved false out) y
  /-- What the builder makes of the element is its own affair. -/
  | popWith {y y' : Tally α} {v : α} (result : α) : y.Takes v y' → Serves y .popWith (.built result) y'
  | popWithRefused {y : Tally α} (reason : String) : ¬ y.Bare → Serves y .popWith (.notBuilt (.build reason)) y
  | popWithPanicked {y : Tally α} (message : String) : ¬ y.Bare → Serves y .popWith (.panicked message) y
  | popWithEmpty {y : Tally α} : y.Bare → Serves y .popWith (.notBuilt .empty) y
  | len (y : Tally α) : Serves y .len (.count y.items.length) y
  | isEmpty (y : Tally α) : Serves y .isEmpty (.flag y.items.isEmpty) y
  | clone (y : Tally α) : Serves y .clone (.contents y.items) y
  | reserve (y : Tally α) (n : Nat) : Serves y (.reserve n) .done y
  | reserveRefused (y : Tally α) (n : Nat) (f : StorageFault) : Serves y (.reserve n) (.exhausted f) y

/-! ## What is left -/

namespace Tally

section
variable {y y' : Tally α} {i : Nat} {v : α}

theorem mem_left : i ∈ y.left ↔ i < y.arrived.length ∧ i ∉ y.taken := by
  simp [left]

theorem at?_isSome (h : i < y.arrived.length) : ∃ v, y.at? i = some v :=
  ⟨_, List.getElem?_eq_getElem h⟩

theorem filterMap_at? (y : Tally α) : (List.range y.arrived.length).filterMap y.at? = y.arrived := by
  have hmap : (List.range y.arrived.length).map y.at? = y.arrived.map some := by
    apply List.ext_getElem
    · simp
    · intro i hi _
      simp [at?]
  calc (List.range y.arrived.length).filterMap y.at?
      = ((List.range y.arrived.length).map y.at?).filterMap id := by rw [List.filterMap_map]; rfl
    _ = y.arrived := by rw [hmap, List.filterMap_map]; simp

theorem items_start (init : List α) : ({ arrived := init } : Tally α).items = init.reverse := by
  have hleft : ({ arrived := init } : Tally α).left = List.range init.length := by simp [left]
  rw [items, hleft, List.filterMap_reverse]
  exact congrArg List.reverse (filterMap_at? { arrived := init })

theorem pairwise_left (y : Tally α) : y.left.Pairwise (· < ·) :=
  List.pairwise_lt_range.filter _

theorem bare_iff : y.Bare ↔ y.left = [] := by
  rw [List.eq_nil_iff_forall_not_mem]
  constructor
  · intro h i hi
    obtain ⟨hlt, hnot⟩ := mem_left.mp hi
    exact hnot (h i hlt)
  · intro h i hlt
    by_contra hnot
    exact h i (mem_left.mpr ⟨hlt, hnot⟩)

theorem bare_iff_items : y.Bare ↔ y.items = [] := by
  rw [bare_iff]
  constructor
  · intro h
    simp [items, h]
  · intro h
    rw [items, List.filterMap_eq_nil_iff] at h
    rw [List.eq_nil_iff_forall_not_mem]
    intro i hi
    obtain ⟨v, hv⟩ := at?_isSome (mem_left.mp hi).1
    have := h i (List.mem_reverse.mpr hi)
    rw [hv] at this
    cases this

theorem at?_push (h : i < y.arrived.length) : (y.push v).at? i = y.at? i :=
  List.getElem?_append_left h

theorem left_push (hy : y.Sound) (v : α) : (y.push v).left = y.left ++ [y.arrived.length] := by
  have hnew : y.arrived.length ∉ y.taken := fun h => Nat.lt_irrefl _ (hy.arrived _ h)
  rw [left, left, push, List.length_append, List.length_singleton, List.range_succ, List.filter_append]
  simp [hnew]

/-- What is pushed lies on top of what was left. -/
theorem items_push (hy : y.Sound) (v : α) : (y.push v).items = v :: y.items := by
  have hnew : (y.push v).at? y.arrived.length = some v := by simp [at?, push]
  rw [items, left_push hy, List.reverse_append, List.reverse_singleton, List.singleton_append,
    List.filterMap_cons, hnew, items]
  refine congrArg (v :: ·) (List.filterMap_congr ?_)
  intro i hi
  exact at?_push (mem_left.mp (List.mem_reverse.mp hi)).1

/-- The top is the latest element that is left. -/
theorem takes_of_items {rest : List α} (h : y.items = v :: rest) : ∃ y', y.Takes v y' ∧ y'.items = rest := by
  cases hleft : y.left.reverse with
  | nil => simp [items, hleft] at h
  | cons i below =>
    have hsplit : y.left = below.reverse ++ [i] := by simpa using congrArg List.reverse hleft
    have hi : i ∈ y.left := by simp [hsplit]
    have hlower : ∀ j ∈ below, j < i := by
      have := y.pairwise_left
      rw [hsplit, List.pairwise_append] at this
      intro j hj
      exact this.2.2 j (List.mem_reverse.mpr hj) i List.mem_cons_self
    obtain ⟨w, hw⟩ := at?_isSome (mem_left.mp hi).1
    rw [items, hleft, List.filterMap_cons, hw] at h
    obtain ⟨rfl, rfl⟩ := List.cons.inj h
    refine ⟨{ y with taken := y.taken ++ [i] }, ⟨i, hw, (mem_left.mp hi).2, ?_, rfl⟩, ?_⟩
    · intro j hj hnot
      have hmem : j ∈ below.reverse ++ [i] := hsplit ▸ mem_left.mpr ⟨hj, hnot⟩
      rcases List.mem_append.mp hmem with hbelow | hsame
      · exact Nat.le_of_lt (hlower j (List.mem_reverse.mp hbelow))
      · exact Nat.le_of_eq (List.mem_singleton.mp hsame)
    · have hafter : ({ y with taken := y.taken ++ [i] } : Tally α).left = y.left.filter (· ≠ i) := by
        simp only [left, List.filter_filter]
        apply List.filter_congr
        intro j _
        by_cases hj : j = i <;> simp [hj]
      have hbelow : below.filter (· ≠ i) = below := by
        rw [List.filter_eq_self]
        intro j hj
        simpa using Nat.ne_of_lt (hlower j hj)
      rw [items, hafter, ← List.filter_reverse, hleft, List.filter_cons_of_neg (by simp), hbelow]
      rfl

end

/-! ## Nothing is taken twice -/

section
variable {y y' : Tally α} {v : α}

theorem sound_start (init : List α) : ({ arrived := init } : Tally α).Sound := ⟨List.nodup_nil, nofun⟩

theorem Takes.sound (h : y.Takes v y') (hy : y.Sound) : y'.Sound := by
  obtain ⟨i, hv, hnot, -, rfl⟩ := h
  refine ⟨?_, ?_⟩
  · rw [List.nodup_append]
    refine ⟨hy.nodup, by simp, ?_⟩
    rintro j hj k hk rfl
    exact hnot (List.mem_singleton.mp hk ▸ hj)
  · intro j hj
    rcases List.mem_append.mp hj with hj | hj
    · exact hy.arrived j hj
    · rw [List.mem_singleton.mp hj]
      exact (List.getElem?_eq_some_iff.mp hv).1

theorem Sound.push (hy : y.Sound) (v : α) : (y.push v).Sound := by
  refine ⟨hy.nodup, ?_⟩
  intro i hi
  have := hy.arrived i hi
  simp only [Tally.push, List.length_append, List.length_singleton]
  omega

/-- Whatever has arrived has been taken once or is left. -/
theorem Sound.perm (hy : y.Sound) : y.arrived.Perm (y.delivered ++ y.items) := by
  have hnumbers : (List.range y.arrived.length).Perm (y.taken ++ y.left) := by
    rw [List.perm_ext_iff_of_nodup List.nodup_range]
    · intro i
      rw [List.mem_range, List.mem_append, mem_left]
      constructor
      · intro hi
        by_cases h : i ∈ y.taken
        · exact .inl h
        · exact .inr ⟨hi, h⟩
      · rintro (h | h)
        · exact hy.arrived i h
        · exact h.1
    · rw [List.nodup_append]
      refine ⟨hy.nodup, List.nodup_range.filter _, ?_⟩
      rintro i hi j hj rfl
      exact (mem_left.mp hj).2 hi
  have hsplit := hnumbers.filterMap y.at?
  rw [filterMap_at?, List.filterMap_append] at hsplit
  refine hsplit.trans (List.Perm.append_left _ ?_)
  rw [items, List.filterMap_reverse]
  exact (List.reverse_perm _).symm

theorem Sound.delivered_push (hy : y.Sound) (v : α) : (y.push v).delivered = y.delivered := by
  apply List.filterMap_congr
  intro i hi
  exact at?_push (hy.arrived i hi)

theorem Takes.delivered (h : y.Takes v y') : y'.delivered = y.delivered ++ [v] := by
  obtain ⟨i, hv, -, -, rfl⟩ := h
  have hlast : [i].filterMap y.at? = [v] := by simp [hv]
  rw [Tally.delivered, Tally.delivered, ← hlast]
  exact List.filterMap_append

theorem Takes.arrived (h : y.Takes v y') : y'.arrived = y.arrived := by
  obtain ⟨i, -, -, -, rfl⟩ := h
  rfl

end

end Tally

/-! ## The stack does what the tally says -/

theorem Acts.serves {y : Tally α} (hy : y.Sound) {items items' : List α} {r : Request α} {a : Answer α}
    (h : Acts items r a items') (hitems : items = y.items) : ∃ y', Serves y r a y' ∧ items' = y'.items := by
  cases h with
  | push items v => exact ⟨_, .push y v, by rw [y.items_push hy, hitems]⟩
  | pushRefused items v f => exact ⟨_, .pushRefused y v f, hitems⟩
  | pop v rest =>
    obtain ⟨y', htakes, hrest⟩ := Tally.takes_of_items hitems.symm
    exact ⟨y', .pop htakes, hrest.symm⟩
  | popEmpty => exact ⟨y, .popEmpty (Tally.bare_iff_items.mpr hitems.symm), hitems⟩
  | popInto out v rest =>
    obtain ⟨y', htakes, hrest⟩ := Tally.takes_of_items hitems.symm
    exact ⟨y', .popInto out htakes, hrest.symm⟩
  | popIntoEmpty out => exact ⟨y, .popIntoEmpty out (Tally.bare_iff_items.mpr hitems.symm), hitems⟩
  | popWithEmpty => exact ⟨y, .popWithEmpty (Tally.bare_iff_items.mpr hitems.symm), hitems⟩
  | len items => exact ⟨y, hitems ▸ .len y, hitems⟩
  | isEmpty items => exact ⟨y, hitems ▸ .isEmpty y, hitems⟩
  | clone items => exact ⟨y, hitems ▸ .clone y, hitems⟩
  | reserve items n => exact ⟨y, .reserve y n, hitems⟩
  | reserveRefused items n f => exact ⟨y, .reserveRefused y n f, hitems⟩

/-- A builder that ends while the stack has a top. -/
theorem ended_serves {y : Tally α} {top : α} (e : Ending α) (htop : y.items.head? = some top) :
    ∃ y', Serves y .popWith e.answer y' ∧ e.items y.items = y'.items := by
  obtain ⟨rest, hitems⟩ := List.head?_eq_some_iff.mp htop
  have hfull : ¬ y.Bare := by
    rw [Tally.bare_iff_items, hitems]
    exact List.cons_ne_nil top rest
  cases e with
  | built v =>
    obtain ⟨y', htakes, hrest⟩ := Tally.takes_of_items hitems
    exact ⟨y', .popWith v htakes, by rw [hrest, hitems]; rfl⟩
  | refused reason => exact ⟨y, .popWithRefused reason hfull, rfl⟩
  | panicked message => exact ⟨y, .popWithPanicked message hfull, rfl⟩

/-! ## Accounts of a history -/

def pushed (es : List (Event (Request α) (Answer α))) : List α :=
  es.flatMap fun
    | .served _ (.push v) .done => [v]
    | _ => []

def Answer.isPop : Answer α → Bool
  | .popped _ => true
  | .moved found _ => found
  | .built _ => true
  | _ => false

/-- The answers of the successful pops. -/
def pops (es : List (Event (Request α) (Answer α))) : List (Answer α) :=
  es.flatMap fun
    | .served _ _ a => [a].filter Answer.isPop
    | _ => []

/-- The answer gives this element away, or what a builder made of it. -/
inductive Delivers : Answer α → α → Prop
  | popped (v : α) : Delivers (.popped v) v
  | moved (v : α) : Delivers (.moved true v) v
  | built (result v : α) : Delivers (.built result) v

/-- The history has led from the first tally to the second: all that was pushed has arrived, and the pops that
succeeded have given away what was taken off. -/
structure Accounts (es : List (Event (Request α) (Answer α))) (y y' : Tally α) : Prop where
  sound : y'.Sound
  arrived : y'.arrived = y.arrived ++ pushed es
  delivered : ∃ vs, y'.delivered = y.delivered ++ vs ∧ List.Forall₂ Delivers (pops es) vs

theorem Serves.accounts {y y' : Tally α} {r : Request α} {a : Answer α} (hy : y.Sound) (h : Serves y r a y')
    (t : ThreadId) : Accounts [.served t r a] y y' := by
  have same (hpushed : pushed [.served t r a] = []) (hpops : a.isPop = false) : Accounts [.served t r a] y y :=
    ⟨hy, by rw [hpushed, List.append_nil], [], by simp, by simp [pops, hpops]⟩
  have gone {v : α} (htakes : y.Takes v y') (hpushed : pushed [.served t r a] = []) (hpops : a.isPop = true)
      (hv : Delivers a v) : Accounts [.served t r a] y y' :=
    ⟨htakes.sound hy, by rw [htakes.arrived, hpushed, List.append_nil], [v], htakes.delivered,
      by simp [pops, hpops, hv]⟩
  cases h with
  | push v => exact ⟨hy.push v, rfl, [], by rw [hy.delivered_push, List.append_nil], .nil⟩
  | pop htakes => exact gone htakes rfl rfl (.popped _)
  | popInto out htakes => exact gone htakes rfl rfl (.moved _)
  | popWith result htakes => exact gone htakes rfl rfl (.built _ _)
  | _ => exact same rfl rfl

theorem Accounts.trans {es es' : List (Event (Request α) (Answer α))} {y₁ y₂ y₃ : Tally α}
    (h : Accounts es y₁ y₂) (h' : Accounts es' y₂ y₃) : Accounts (es ++ es') y₁ y₃ := by
  obtain ⟨vs, hvs, hpops⟩ := h.delivered
  obtain ⟨vs', hvs', hpops'⟩ := h'.delivered
  refine ⟨h'.sound, ?_, vs ++ vs', ?_, ?_⟩
  · rw [h'.arrived, h.arrived, pushed, pushed, pushed, List.flatMap_append, List.append_assoc]
  · rw [hvs', hvs, List.append_assoc]
  · rw [pops, List.flatMap_append]
    exact List.rel_append hpops hpops'

theorem serial_accounts {es : List (Event (Request α) (Answer α))} {y y' : Tally α} (hy : y.Sound)
    (h : Serial Serves y es y') : Accounts es y y' := by
  induction es generalizing y with
  | nil =>
    cases h
    exact ⟨hy, by simp [pushed], [], by simp, .nil⟩
  | cons e es ih =>
    obtain ⟨y₁, he, h⟩ := h
    have hone : Accounts [e] y y₁ := by
      cases he with
      | called t r => exact ⟨hy, by simp [pushed], [], by simp, .nil⟩
      | served t hv => exact hv.accounts hy t
      | returned t a => exact ⟨hy, by simp [pushed], [], by simp, .nil⟩
    exact hone.trans (ih hone.sound h)

end Interlock.Stack
