import Interlock.Proofs.Calls
import Interlock.Proofs.Cells.Values
import Interlock.Proofs.Runs

/-!
# Runs on cells

A run interleaves the calls of any number of threads on any number of cells, each taking one mutex at a time. A
thread is inside one call at most, because callbacks touch no cell but the one they were given. The cells that
a thread has can be read off the phase of its call (`Phase.held`), and so can the one that it wants
(`Phase.wants`).
-/

namespace Interlock.Cells

variable {α : Type}

def ofValues (values : List α) : Cells α := { cells := values.map fun v => { value := v } }

inductive Move (α : Type) where
  | start (t : ThreadId) (r : Request)
  | step (t : ThreadId)
  /-- The thread's callback changes the value of its cell. -/
  | write (t : ThreadId) (v : α)
  /-- The thread's callback ends. -/
  | finish (t : ThreadId) (e : Ending)
  | collect (t : ThreadId)

def Move.thread : Move α → ThreadId
  | .start t _ => t
  | .step t => t
  | .write t _ => t
  | .finish t _ => t
  | .collect t => t

def Request.cells : Request → List CellId
  | .withLock i => [i]
  | .snapshot i => [i]
  | .sameValue i j => [i, j]
  | .swap i j => [i, j]

/-- A thread makes a call on cells that there are, when it is inside no other. -/
def begin? (c : Cells α) (t : ThreadId) (r : Request) : Option (Cells α) :=
  if (c.calls.current? t).isNone ∧ ∀ i ∈ r.cells, i < c.cells.length then c.start? t r else none

def move? [BEq α] (c : Cells α) : Move α → Option (Cells α)
  | .start t r => c.begin? t r
  | .step t => c.step? t
  | .write t v => (c.held? t).map fun i => c.setValue i v
  | .finish t e => c.end? t e
  | .collect t => (c.answer? t).map fun _ => c.collect t

def Reachable [BEq α] (init : List α) (c : Cells α) : Prop := Leads move? (ofValues init) c

/-! ## Phases -/

namespace Phase

/-- The cells that the call has. -/
def held : Phase α → List CellId
  | .using i => [i]
  | .copied i _ _ => [i]
  | .halfway i _ => [i]
  | .exchanged i j => [i, j]
  | .leaving i _ _ => [i]
  | _ => []

/-- The cell that the call takes next. -/
def wants : Phase α → Option CellId
  | .entering (.withLock i) => some i
  | .entering (.swap i j) => if i = j then none else some (min i j)
  | .approaching i _ => some i
  | .halfway _ j => some j
  | _ => none

/-- The cells that the call goes on to are among the first `n`, and those of a swap are in order. -/
def Valid (n : Nat) : Phase α → Prop
  | .entering r => ∀ i ∈ r.cells, i < n
  | .using i => i < n
  | .approaching i (.first j) => i < n ∧ j < n ∧ i ≠ j
  | .approaching i _ => i < n
  | .copied i _ (.first j) => i < n ∧ j < n ∧ i ≠ j
  | .copied i _ _ => i < n
  | .comparing _ _ => True
  | .halfway i j => i < j ∧ j < n
  | .exchanged i j => i < j ∧ j < n
  | .leaving i _ _ => i < n
  | .returned _ => True

/-- A step that takes no cell and lets none go. -/
inductive Glides [BEq α] : Phase α → Phase α → Prop
  | snapshot (i : CellId) : Glides (.entering (.snapshot i)) (.approaching i .snapshot)
  | same (i : CellId) : Glides (.entering (.sameValue i i)) (.returned (.flag true))
  | compare {i j : CellId} : i ≠ j → Glides (.entering (.sameValue i j)) (.approaching i (.first j))
  | swapSame (i : CellId) : Glides (.entering (.swap i i)) (.returned .done)
  | compared (v w : α) : Glides (.comparing v w) (.returned (.flag (v == w)))

/-- A step that takes a cell and leaves its value as it is. -/
inductive Seizes (c : Cells α) : Phase α → CellId → Phase α → Prop
  | uses (i : CellId) : Seizes c (.entering (.withLock i)) i (.using i)
  | copies {i : CellId} {v : α} (p : Purpose α) : c.value? i = some v →
      Seizes c (.approaching i p) i (.copied i v p)
  | begins {i j : CellId} : i ≠ j → Seizes c (.entering (.swap i j)) (min i j) (.halfway (min i j) (max i j))

inductive Releases : Phase α → CellId → Bool → Phase α → Prop
  | snapshot (i : CellId) (v : α) : Releases (.copied i v .snapshot) i false (.returned (.value v))
  | first (i j : CellId) (v : α) : Releases (.copied i v (.first j)) i false (.approaching j (.second v))
  | second (i : CellId) (v w : α) : Releases (.copied i w (.second v)) i false (.comparing v w)
  | exchanged (i j : CellId) : Releases (.exchanged i j) j false (.leaving i false .done)
  | leaving (i : CellId) (panicking : Bool) (a : Answer α) : Releases (.leaving i panicking a) i panicking (.returned a)

end Phase

def Ending.answer : Ending → Answer α
  | .finished => .done
  | .panicked message => .panicked message

def Ending.isPanic : Ending → Bool
  | .finished => false
  | .panicked _ => true

/-! ## What a move does -/

inductive Change [BEq α] (c : Cells α) : Move α → Cells α → Prop
  | starts (t : ThreadId) (r : Request) : c.calls.current? t = none → (∀ i ∈ r.cells, i < c.cells.length) →
      Change c (.start t r) { c with calls := c.calls.start t (.entering r) }
  | glides {t : ThreadId} {p p' : Phase α} : c.calls.current? t = some p → p.Glides p' →
      Change c (.step t) (c.into t p')
  | seizes {t : ThreadId} {p p' : Phase α} {i : CellId} : c.calls.current? t = some p → p.Seizes c i p' →
      (c.value? i).isSome → c.holder? i = none → Change c (.step t) ((c.hold t i).into t p')
  | exchanges {t : ThreadId} {i j : CellId} {v w : α} : c.calls.current? t = some (.halfway i j) →
      c.value? i = some v → c.value? j = some w → c.holder? j = none →
      Change c (.step t) ((((c.hold t j).setValue i w).setValue j v).into t (.exchanged i j))
  | releases {t : ThreadId} {p p' : Phase α} {i : CellId} {b : Bool} : c.calls.current? t = some p →
      p.Releases i b p' → Change c (.step t) ((c.release i b).into t p')
  | writes {t : ThreadId} {i : CellId} (v : α) : c.calls.current? t = some (.using i) →
      Change c (.write t v) (c.setValue i v)
  | finishes {t : ThreadId} {i : CellId} (e : Ending) : c.calls.current? t = some (.using i) →
      Change c (.finish t e) (c.into t (.leaving i (Ending.isPanic e) (Ending.answer e)))
  | collects {t : ThreadId} {a : Answer α} : c.calls.current? t = some (.returned a) →
      Change c (.collect t) (c.collect t)

theorem acquire?_eq_some {c c' : Cells α} {t : ThreadId} {i : CellId} (h : c.acquire? t i = some c') :
    (c.value? i).isSome ∧ c.holder? i = none ∧ c' = c.hold t i := by
  rw [acquire?_eq] at h
  split at h
  · rename_i hfree
    cases h
    exact ⟨hfree.1, hfree.2, rfl⟩
  · cases h

section
variable [BEq α] {c c' : Cells α} {t : ThreadId}

theorem start_change {r : Request} (h : c.begin? t r = some c') : Change c (.start t r) c' := by
  unfold begin? at h
  split at h
  · rename_i hfree
    have ht := Option.isNone_iff_eq_none.mp hfree.1
    unfold start? at h
    rw [ht] at h
    cases h
    exact .starts t r ht hfree.2
  · cases h

/-- A step that takes a cell. -/
theorem seize_change {p p' : Phase α} {i : CellId} (ht : c.calls.current? t = some p) (hp : p.Seizes c i p')
    (h : (c.acquire? t i).map (·.into t p') = some c') : Change c (.step t) c' := by
  obtain ⟨c₁, hc₁, rfl⟩ := Option.map_eq_some_iff.mp h
  obtain ⟨hvalue, hfree, rfl⟩ := acquire?_eq_some hc₁
  exact .seizes ht hp hvalue hfree

theorem enter_change {r : Request} (ht : c.calls.current? t = some (.entering r)) (h : c.enter? t r = some c') :
    Change c (.step t) c' := by
  cases r with
  | withLock i => exact seize_change ht (.uses i) h
  | snapshot i =>
    cases h
    exact .glides ht (.snapshot i)
  | sameValue i j =>
    unfold enter? at h
    dsimp only at h
    split at h
    · rename_i hij
      subst hij
      cases h
      exact .glides ht (.same i)
    · rename_i hij
      cases h
      exact .glides ht (.compare hij)
  | swap i j =>
    unfold enter? at h
    dsimp only at h
    split at h
    · rename_i hij
      subst hij
      cases h
      exact .glides ht (.swapSame i)
    · rename_i hij
      exact seize_change ht (.begins hij) h

theorem step_change (h : c.step? t = some c') : Change c (.step t) c' := by
  unfold step? at h
  split at h
  · cases h
  · rename_i r ht
    exact enter_change ht h
  · cases h
  · rename_i i p ht
    obtain ⟨v, hv, h⟩ := Option.bind_eq_some_iff.mp h
    exact seize_change ht (.copies p hv) h
  · rename_i i v ht
    cases h
    exact .releases ht (.snapshot i v)
  · rename_i i v j ht
    cases h
    exact .releases ht (.first i j v)
  · rename_i i v w ht
    cases h
    exact .releases ht (.second i w v)
  · rename_i v w ht
    cases h
    exact .glides ht (.compared v w)
  · rename_i i j ht
    obtain ⟨v, hv, h⟩ := Option.bind_eq_some_iff.mp h
    obtain ⟨w, hw, h⟩ := Option.bind_eq_some_iff.mp h
    obtain ⟨c₁, hc₁, h⟩ := Option.bind_eq_some_iff.mp h
    obtain ⟨-, hfree, rfl⟩ := acquire?_eq_some hc₁
    cases h
    exact .exchanges ht hv hw hfree
  · rename_i i j ht
    cases h
    exact .releases ht (.exchanged i j)
  · rename_i i panicking a ht
    cases h
    exact .releases ht (.leaving i panicking a)
  · cases h

omit [BEq α] in
theorem held?_eq_some {i : CellId} (h : c.held? t = some i) : c.calls.current? t = some (.using i) := by
  unfold held? at h
  split at h
  · rename_i ht
    cases h
    exact ht
  · cases h

theorem end_change {e : Ending} (h : c.end? t e = some c') : Change c (.finish t e) c' := by
  unfold end? at h
  split at h
  · rename_i i ht
    cases h
    cases e with
    | finished => exact .finishes .finished ht
    | panicked message => exact .finishes (.panicked message) ht
  · cases h

omit [BEq α] in
theorem answer?_eq_some {a : Answer α} (h : c.answer? t = some a) : c.calls.current? t = some (.returned a) := by
  unfold answer? at h
  split at h
  · rename_i ht
    cases h
    exact ht
  · cases h

theorem move_change {m : Move α} (h : c.move? m = some c') : Change c m c' := by
  cases m with
  | start t r => exact start_change h
  | step t => exact step_change h
  | write t v =>
    obtain ⟨i, hi, rfl⟩ := Option.map_eq_some_iff.mp h
    exact .writes v (held?_eq_some hi)
  | finish t e => exact end_change h
  | collect t =>
    obtain ⟨a, ha, rfl⟩ := Option.map_eq_some_iff.mp h
    exact .collects (answer?_eq_some ha)

end

/-! ## What holds in every state -/

structure Sound (c : Cells α) : Prop where
  single : c.calls.Single
  held : ∀ i t, c.holder? i = some t ↔ ∃ p, c.calls.current? t = some p ∧ i ∈ p.held
  valid : ∀ t p, c.calls.current? t = some p → p.Valid c.cells.length

section
variable (c : Cells α) (t : ThreadId) (i : CellId)

@[simp] theorem cells_into (p : Phase α) : (c.into t p).cells = c.cells := rfl

@[simp] theorem calls_into (p : Phase α) : (c.into t p).calls = c.calls.move t p := rfl

@[simp] theorem calls_hold : (c.hold t i).calls = c.calls := rfl

@[simp] theorem calls_setValue (v : α) : (c.setValue i v).calls = c.calls := rfl

@[simp] theorem calls_release (b : Bool) : (c.release i b).calls = c.calls := rfl

@[simp] theorem length_hold : (c.hold t i).cells.length = c.cells.length := by simp [hold]

@[simp] theorem length_setValue (v : α) : (c.setValue i v).cells.length = c.cells.length := by simp [setValue]

@[simp] theorem length_release (b : Bool) : (c.release i b).cells.length = c.cells.length := by simp [release]

@[simp] theorem holder?_into (p : Phase α) : (c.into t p).holder? i = c.holder? i := rfl

@[simp] theorem value?_into (p : Phase α) : (c.into t p).value? i = c.value? i := rfl

end

theorem sound_start (init : List α) : (ofValues init).Sound where
  single _ := Nat.zero_le 1
  held i t := by
    refine iff_of_false ?_ (by rintro ⟨p, hp, -⟩; cases hp)
    simp only [holder?, ofValues, List.getElem?_map]
    cases init[i]? <;> simp
  valid t p h := by cases h

theorem min_lt_max_lt {a b n : Nat} (hne : a ≠ b) (ha : a < n) (hb : b < n) :
    min a b < max a b ∧ max a b < n := by
  omega

namespace Phase

variable {c : Cells α} {p p' : Phase α} {i : CellId} {b : Bool} {n : Nat}

theorem Glides.held_eq [BEq α] (h : p.Glides p') : p.held = [] ∧ p'.held = [] := by
  cases h <;> exact ⟨rfl, rfl⟩

theorem Glides.valid [BEq α] (h : p.Glides p') (hp : p.Valid n) : p'.Valid n := by
  cases h with
  | snapshot i => exact hp i (by simp [Request.cells])
  | compare hij => exact ⟨hp _ (by simp [Request.cells]), hp _ (by simp [Request.cells]), hij⟩
  | _ => trivial

theorem Seizes.held_eq (h : p.Seizes c i p') : p.held = [] ∧ p'.held = [i] := by
  cases h <;> exact ⟨rfl, rfl⟩

theorem Seizes.wants_eq (h : p.Seizes c i p') : p.wants = some i := by
  cases h with
  | uses i => rfl
  | copies p hv => rfl
  | begins hij => exact if_neg hij

theorem Seizes.valid (h : p.Seizes c i p') (hp : p.Valid n) : p'.Valid n := by
  cases h with
  | uses i => exact hp i (by simp [Request.cells])
  | copies q hv =>
    cases q with
    | first j => exact hp
    | _ => exact hp
  | @begins i j hij =>
    have hi : i < n := hp i (by simp [Request.cells])
    have hj : j < n := hp j (by simp [Request.cells])
    exact min_lt_max_lt hij hi hj

theorem Releases.mem_held (h : p.Releases i b p') (hp : p.Valid n) (k : CellId) :
    k ∈ p'.held ↔ k ≠ i ∧ k ∈ p.held := by
  cases h with
  | exchanged l _ =>
    have hne : l ≠ i := Nat.ne_of_lt hp.1
    simp only [held, List.mem_cons, List.not_mem_nil, or_false]
    constructor
    · rintro rfl
      exact ⟨hne, .inl rfl⟩
    · rintro ⟨hki, h | h⟩
      · exact h
      · exact absurd h hki
  | _ => simp [held]

theorem Releases.mem (h : p.Releases i b p') : i ∈ p.held := by
  cases h <;> simp [held]

theorem Releases.valid (h : p.Releases i b p') (hp : p.Valid n) : p'.Valid n := by
  cases h with
  | first i j v => exact hp.2.1
  | exchanged i j => exact Nat.lt_trans hp.1 hp.2
  | _ => trivial

/-- Who has a cell and wants another is in the middle of a swap, and wants the one of the greater number. -/
theorem lt_of_wants {k : CellId} (hp : p.Valid n) (hi : i ∈ p.held) (hk : p.wants = some k) : i < k := by
  cases p with
  | halfway i' j =>
    cases hk
    rw [List.mem_singleton.mp hi]
    exact hp.1
  | entering r => cases hi
  | approaching j q => cases hi
  | _ => cases hk

theorem lt_of_wants_valid (hp : p.Valid n) (hi : p.wants = some i) : i < n := by
  cases p with
  | entering r =>
    cases r with
    | withLock j =>
      cases hi
      exact hp _ (by simp [Request.cells])
    | swap j k =>
      have hj : j < n := hp j (by simp [Request.cells])
      unfold wants at hi
      dsimp only at hi
      split at hi
      · cases hi
      · cases hi
        exact Nat.lt_of_le_of_lt (Nat.min_le_left j k) hj
    | _ => cases hi
  | approaching j q =>
    cases hi
    cases q with
    | first k => exact hp.1
    | _ => exact hp
  | halfway j k =>
    cases hi
    exact hp.2
  | _ => cases hi

end Phase

namespace Sound

variable {c c' : Cells α} {t u : ThreadId} {p p' : Phase α} {i k : CellId} (hs : c.Sound)
include hs

theorem holds_iff (ht : c.calls.current? t = some p) : c.holder? k = some t ↔ k ∈ p.held := by
  rw [hs.held]
  constructor
  · rintro ⟨q, hq, hk⟩
    rw [ht] at hq
    cases hq
    exact hk
  · intro hk
    exact ⟨p, ht, hk⟩

/-- The call of a thread goes on, and the cells of the other threads stay theirs. -/
theorem goesOn (hcalls : c'.calls = c.calls.move t p')
    (hheld : ∀ k u, c'.holder? k = some u ↔ if t = u then k ∈ p'.held else c.holder? k = some u)
    (hlen : c'.cells.length = c.cells.length) (hp' : p'.Valid c.cells.length) : c'.Sound where
  single := by
    rw [hcalls]
    exact hs.single.move t p'
  held k u := by
    rw [hheld, hcalls, Calls.current?_move]
    split
    · simp
    · exact hs.held k u
  valid u q hq := by
    rw [hcalls, Calls.current?_move] at hq
    rw [hlen]
    split at hq
    · cases hq
      exact hp'
    · exact hs.valid u q hq

theorem glides [BEq α] (ht : c.calls.current? t = some p) (hp : p.Glides p') : (c.into t p').Sound := by
  refine hs.goesOn rfl (fun k u => ?_) rfl (hp.valid (hs.valid t p ht))
  rw [holder?_into]
  split
  · rename_i hu
    rw [← hu, hs.holds_iff ht, hp.held_eq.1, hp.held_eq.2]
  · rfl

theorem seizes (ht : c.calls.current? t = some p) (hp : p.Seizes c i p') (hi : (c.value? i).isSome)
    (hfree : c.holder? i = none) : ((c.hold t i).into t p').Sound := by
  refine hs.goesOn rfl (fun k u => ?_) (length_hold c t i) (hp.valid (hs.valid t p ht))
  rw [holder?_into, holder?_hold_of_value hi, hp.held_eq.2, List.mem_singleton]
  have hnone : c.holder? k = some t ↔ False := by rw [hs.holds_iff ht, hp.held_eq.1]; simp
  by_cases hk : i = k
  · subst hk
    by_cases hu : t = u <;> simp [hu, hfree]
  · rw [if_neg hk]
    split
    · rename_i hu
      rw [← hu, hnone]
      simp [Ne.symm hk]
    · rfl

theorem exchanges {j : CellId} {v w : α} (ht : c.calls.current? t = some (.halfway i j)) (hw : c.value? j = some w)
    (hfree : c.holder? j = none) :
    ((((c.hold t j).setValue i w).setValue j v).into t (.exchanged i j)).Sound := by
  have hvalid : (Phase.exchanged i j : Phase α).Valid c.cells.length := hs.valid t (.halfway i j) ht
  refine hs.goesOn rfl (fun k u => ?_) (by simp) hvalid
  rw [holder?_into, holder?_exchange hw]
  have hheld : c.holder? k = some t ↔ k = i := by rw [hs.holds_iff ht]; simp [Phase.held]
  by_cases hk : j = k
  · subst hk
    by_cases hu : t = u <;> simp [hu, hfree, Phase.held]
  · rw [if_neg hk]
    split
    · rename_i hu
      rw [← hu, hheld]
      simp [Phase.held, Ne.symm hk]
    · rfl

theorem releases {b : Bool} (ht : c.calls.current? t = some p) (hp : p.Releases i b p') :
    ((c.release i b).into t p').Sound := by
  have hvalid := hs.valid t p ht
  refine hs.goesOn rfl (fun k u => ?_) (length_release c i b) (hp.valid hvalid)
  rw [holder?_into, holder?_release]
  have hi : c.holder? i = some t := (hs.holds_iff ht).mpr hp.mem
  split
  · rename_i hk
    subst hk
    split
    · simp [hp.mem_held hvalid]
    · rename_i hu
      rw [hi]
      simp [hu]
  · rename_i hk
    split
    · rename_i hu
      rw [← hu, hs.holds_iff ht, hp.mem_held hvalid]
      simp [Ne.symm hk]
    · rfl

theorem change [BEq α] {m : Move α} (h : c.Change m c') : c'.Sound := by
  cases h with
  | starts t r ht hr =>
    refine ⟨hs.single.start ht _, fun k u => ?_, fun u q hq => ?_⟩
    · show c.holder? k = some u ↔ _
      rw [hs.held, Calls.current?_start]
      split
      · rename_i hu
        rw [← hu, ht]
        simp [Phase.held]
      · rfl
    · rw [Calls.current?_start] at hq
      split at hq
      · cases hq
        exact hr
      · exact hs.valid u q hq
  | glides ht hp => exact hs.glides ht hp
  | seizes ht hp hi hfree => exact hs.seizes ht hp hi hfree
  | exchanges ht hv hw hfree => exact hs.exchanges ht hw hfree
  | releases ht hp => exact hs.releases ht hp
  | @writes t i v ht =>
    refine ⟨hs.single, fun k u => ?_, fun u q hq => ?_⟩
    · rw [holder?_setValue]
      exact hs.held k u
    · rw [length_setValue]
      exact hs.valid u q hq
  | @finishes t i e ht =>
    have hvalid : i < c.cells.length := hs.valid t (.using i) ht
    refine hs.goesOn rfl (fun k u => ?_) rfl hvalid
    rw [holder?_into]
    split
    · rename_i hu
      rw [← hu, hs.holds_iff ht]
      rfl
    · rfl
  | @collects t a ht =>
    have hcurrent (u : ThreadId) : (c.collect t).calls.current? u = if t = u then none else c.calls.current? u :=
      hs.single.current?_finish t u
    refine ⟨hs.single.finish t, fun k u => ?_, fun u q hq => ?_⟩
    · show c.holder? k = some u ↔ _
      rw [hs.held, hcurrent]
      split
      · rename_i hu
        rw [← hu, ht]
        simp [Phase.held]
      · rfl
    · rw [hcurrent] at hq
      split at hq
      · cases hq
      · exact hs.valid u q hq

end Sound

theorem Reachable.sound [BEq α] {init : List α} {c : Cells α} (hr : c.Reachable init) : c.Sound := by
  induction hr with
  | refl => exact sound_start init
  | tail m _ hm ih => exact ih.change (move_change hm)

end Interlock.Cells
