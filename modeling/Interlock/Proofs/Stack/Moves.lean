import Interlock.Proofs.Calls
import Interlock.Proofs.Runs
import Interlock.Stack

/-!
# Runs on the stack

A run interleaves the calls of any number of threads. A call does its work in the step in which it takes the
mutex. Only a pop with a builder keeps the mutex beyond that step and does its work when the builder ends; its
thread may take any number of moves in between. A call on the same stack from inside a builder never gets the
mutex, so a thread is inside two calls at most (`Sound`).
-/

namespace Interlock.Stack

variable {α : Type}

inductive Move (α : Type) where
  | start (t : ThreadId) (r : Request α)
  | step (t : ThreadId) (env : Environment)
  /-- The thread's builder ends. -/
  | finish (t : ThreadId) (e : Ending α)
  | collect (t : ThreadId)

def move? (s : Stack α) : Move α → Option (Stack α)
  | .start t r => s.start? t r
  | .step t env => s.step? env t
  | .finish t e => s.end? t e
  | .collect t => (s.answer? t).map fun _ => s.collect t

def Reachable (init : List α) (s : Stack α) : Prop := Leads move? (ofList init) s

/-! ## What a move does -/

def Phase.isBuilding : Phase α → Bool
  | .building _ => true
  | _ => false

/-- The phases in which a call has the mutex. -/
def Phase.hasMutex : Phase α → Bool
  | .building _ => true
  | .leaving _ _ => true
  | _ => false

def seize (s : Stack α) (t : ThreadId) : Stack α := { s with mutex := { s.mutex with holder := some t } }

def Ending.answer : Ending α → Answer α
  | .built v => .built v
  | .refused reason => .notBuilt (.build reason)
  | .panicked message => .panicked message

def Ending.isPanic : Ending α → Bool
  | .panicked _ => true
  | _ => false

/-- The elements after a builder that looked at the top of these. -/
def Ending.items (items : List α) : Ending α → List α
  | .built _ => items.tail
  | _ => items

section
variable (s : Stack α) (t u : ThreadId) (p : Phase α) (items : List α)

@[simp] theorem items_into : (s.into t p).items = s.items := rfl

@[simp] theorem mutex_into : (s.into t p).mutex = s.mutex := rfl

@[simp] theorem calls_into : (s.into t p).calls = s.calls.move t p := rfl

@[simp] theorem items_seize : (s.seize t).items = s.items := rfl

@[simp] theorem holder_seize : (s.seize t).mutex.holder = some t := rfl

@[simp] theorem calls_seize : (s.seize t).calls = s.calls := rfl

end

/-- What a call does in the step in which it takes the mutex: it leaves these elements and has this answer. -/
inductive Acts : List α → Request α → Answer α → List α → Prop
  | push (items : List α) (v : α) : Acts items (.push v) .done (v :: items)
  | pushRefused (items : List α) (v : α) (f : StorageFault) : Acts items (.push v) (.exhausted f) items
  | pop (v : α) (rest : List α) : Acts (v :: rest) .pop (.popped v) rest
  | popEmpty : Acts [] .pop .empty []
  | popInto (out v : α) (rest : List α) : Acts (v :: rest) (.popInto out) (.moved true v) rest
  | popIntoEmpty (out : α) : Acts [] (.popInto out) (.moved false out) []
  | popWithEmpty : Acts [] .popWith (.notBuilt .empty) []
  | len (items : List α) : Acts items .len (.count items.length) items
  | isEmpty (items : List α) : Acts items .isEmpty (.flag items.isEmpty) items
  | clone (items : List α) : Acts items .clone (.contents items) items
  | reserve (items : List α) (n : Nat) : Acts items (.reserve n) .done items
  | reserveRefused (items : List α) (n : Nat) (f : StorageFault) : Acts items (.reserve n) (.exhausted f) items

inductive Turn (t : ThreadId) (s : Stack α) : Request α → Stack α → Prop
  | acts {r : Request α} {a : Answer α} {items : List α} : Acts s.items r a items →
      Turn t s r (({ s with items }.seize t).into t (.leaving false a))
  | shows {top : α} {rest : List α} : s.items = top :: rest →
      Turn t s .popWith ((s.seize t).into t (.building top))

theorem act_turn (env : Environment) (t : ThreadId) (s : Stack α) (r : Request α) :
    Turn t s r (act env t (s.seize t) r) := by
  obtain ⟨items, m, c⟩ := s
  cases r with
  | push v =>
    unfold act seize
    dsimp only
    cases env.array items.length 1 with
    | ok => exact .acts (.push items v)
    | error f => exact .acts (.pushRefused items v f)
  | pop =>
    cases items with
    | nil => exact .acts .popEmpty
    | cons v rest => exact .acts (.pop v rest)
  | popInto out =>
    cases items with
    | nil => exact .acts (.popIntoEmpty out)
    | cons v rest => exact .acts (.popInto out v rest)
  | popWith =>
    cases items with
    | nil => exact .acts .popWithEmpty
    | cons top rest => exact .shows rfl
  | len => exact .acts (.len items)
  | isEmpty => exact .acts (.isEmpty items)
  | clone => exact .acts (.clone items)
  | reserve n =>
    unfold act seize
    dsimp only
    cases env.array items.length n with
    | ok => exact .acts (.reserve items n)
    | error f => exact .acts (.reserveRefused items n f)

inductive Change (s : Stack α) : Move α → Stack α → Prop
  | starts (t : ThreadId) (r : Request α) : (∀ p, s.calls.current? t = some p → p.isBuilding = true) →
      Change s (.start t r) { s with calls := s.calls.start t (.entering r) }
  | takes {t : ThreadId} {r : Request α} {s' : Stack α} (env : Environment) :
      s.calls.current? t = some (.entering r) → s.mutex.holder = none → Turn t s r s' → Change s (.step t env) s'
  | leaves {t : ThreadId} {b : Bool} {a : Answer α} (env : Environment) :
      s.calls.current? t = some (.leaving b a) →
      Change s (.step t env) ({ s with mutex := s.mutex.release b }.into t (.returned a))
  | ends {t : ThreadId} {top : α} (e : Ending α) : s.calls.current? t = some (.building top) →
      Change s (.finish t e) ({ s with items := e.items s.items }.into t (.leaving e.isPanic e.answer))
  | collects {t : ThreadId} {a : Answer α} : s.calls.current? t = some (.returned a) →
      Change s (.collect t) (s.collect t)

section
variable {s s' : Stack α} {t : ThreadId}

theorem start_change {r : Request α} (h : s.start? t r = some s') : Change s (.start t r) s' := by
  unfold start? at h
  split at h
  · rename_i hc
    cases h
    refine .starts t r fun p hp => ?_
    rw [hc] at hp
    cases hp
  · rename_i top hc
    cases h
    refine .starts t r fun p hp => ?_
    rw [hc] at hp
    cases hp
    rfl
  · cases h

theorem step_change {env : Environment} (h : s.step? env t = some s') : Change s (.step t env) s' := by
  unfold step? at h
  split at h
  · cases h
  · rename_i r hc
    obtain ⟨m, hm, rfl⟩ := Option.map_eq_some_iff.mp h
    obtain ⟨hfree, rfl⟩ := Mutex.acquire?_eq_some hm
    exact .takes env hc hfree (act_turn env t s r)
  · rename_i b a hc
    cases h
    exact .leaves env hc
  · cases h
  · cases h

theorem end_change {e : Ending α} (h : s.end? t e = some s') : Change s (.finish t e) s' := by
  unfold end? at h
  split at h
  · rename_i top hc
    cases h
    cases e with
    | built v => exact .ends (.built v) hc
    | refused reason => exact .ends (.refused reason) hc
    | panicked message => exact .ends (.panicked message) hc
  · cases h

theorem move_change {m : Move α} (h : s.move? m = some s') : Change s m s' := by
  cases m with
  | start t r => exact start_change h
  | step t env => exact step_change h
  | finish t e => exact end_change h
  | collect t =>
    obtain ⟨a, ha, rfl⟩ := Option.map_eq_some_iff.mp h
    unfold answer? at ha
    split at ha
    · rename_i a' hc
      exact .collects hc
    · cases ha

end

/-! ## Moves of one thread and of others -/

def Move.thread : Move α → ThreadId
  | .start t _ => t
  | .step t _ => t
  | .finish t _ => t
  | .collect t => t

theorem Change.others {s s' : Stack α} {m : Move α} {t : ThreadId} (h : s.Change m s') (ht : m.thread ≠ t) :
    s'.calls.of t = s.calls.of t := by
  cases h with
  | starts u r hu => exact (Calls.of_start ..).trans (if_neg ht)
  | takes env hu hfree hturn =>
    cases hturn with
    | acts hacts => exact (Calls.of_move ..).trans (if_neg ht)
    | shows hitems => exact (Calls.of_move ..).trans (if_neg ht)
  | leaves env hu => exact (Calls.of_move ..).trans (if_neg ht)
  | ends e hu => exact (Calls.of_move ..).trans (if_neg ht)
  | collects hu => exact (Calls.of_finish ..).trans (if_neg ht)

/-! ## What holds in every state -/

structure Sound (s : Stack α) : Prop where
  /-- A thread is inside one call, or inside a builder and a call made from it that waits for the mutex. -/
  nested : ∀ t p outer, s.calls.of t = p :: outer → outer = [] ∨ ∃ r top, p = .entering r ∧ outer = [.building top]
  held : ∀ t, s.mutex.holder = some t ↔ ∃ p ∈ s.calls.of t, p.hasMutex = true
  /-- What a builder looks at is the top. -/
  top : ∀ t v, .building v ∈ s.calls.of t → s.items.head? = some v

theorem sound_start (init : List α) : (ofList init).Sound where
  nested _ _ _ h := by cases h
  held _ := by simp [ofList, Calls.of]
  top _ _ h := by cases h

namespace Sound

variable {s s' : Stack α} {t u : ThreadId} {p q : Phase α} (hs : s.Sound)
include hs

theorem not_hasMutex (hfree : s.mutex.holder = none) (hp : p ∈ s.calls.of t) : p.hasMutex = false := by
  by_contra h
  have hheld := (hs.held t).mpr ⟨p, hp, by simpa using h⟩
  rw [hfree] at hheld
  cases hheld

theorem holder_of (hp : s.calls.current? t = some p) (hm : p.hasMutex = true) : s.mutex.holder = some t := by
  refine (hs.held t).mpr ⟨p, ?_, hm⟩
  rw [Calls.of_eq_cons hp]
  exact List.mem_cons_self

/-- Only a call that waits for the mutex is made from inside another. -/
theorem of_eq (hp : s.calls.current? t = some p) (hq : ∀ r, p ≠ .entering r) : s.calls.of t = [p] := by
  rw [Calls.of_eq_cons hp]
  rcases hs.nested t p _ (Calls.of_eq_cons hp) with h | ⟨r, top, h, -⟩
  · rw [h]
  · exact absurd h (hq r)

/-- A call that waits for a free mutex is not made from inside another. -/
theorem of_eq_of_free (hp : s.calls.current? t = some p) (hfree : s.mutex.holder = none) :
    s.calls.of t = [p] := by
  rw [Calls.of_eq_cons hp]
  rcases hs.nested t p _ (Calls.of_eq_cons hp) with h | ⟨r, top, -, h⟩
  · rw [h]
  · have hmem : Phase.building top ∈ s.calls.of t := by
      rw [Calls.of_eq_cons hp, h]
      simp
    exact absurd (hs.not_hasMutex hfree hmem) (by simp [Phase.hasMutex])

/-- The calls of all threads but the holder are without the mutex. -/
theorem not_hasMutex_of_ne (hheld : s.mutex.holder = some t) (hu : t ≠ u) (hp : p ∈ s.calls.of u) :
    p.hasMutex = false := by
  by_contra h
  have := (hs.held u).mpr ⟨p, hp, by simpa using h⟩
  rw [hheld] at this
  exact hu (Option.some.inj this)

theorem starts (ht : ∀ p, s.calls.current? t = some p → p.isBuilding = true) (r : Request α) :
    ({ s with calls := s.calls.start t (.entering r) }).Sound where
  nested u p outer h := by
    rw [Calls.of_start] at h
    split at h
    · cases h
      cases hp : s.calls.current? t with
      | none => exact .inl (by rename_i hu; rw [← hu, Calls.of_eq_nil hp])
      | some q =>
        have hq := ht q hp
        cases q with
        | building top =>
          have hof := hs.of_eq hp nofun
          exact .inr ⟨r, top, rfl, by rename_i hu; rw [← hu, hof]⟩
        | _ => cases hq
    · exact hs.nested u p outer h
  held u := by
    rw [hs.held u, Calls.of_start]
    split
    · simp [Phase.hasMutex]
    · rfl
  top u v h := by
    rw [Calls.of_start] at h
    split at h
    · refine hs.top u v ?_
      simpa using h
    · exact hs.top u v h

/-- The one call of a thread goes on, while no other thread has the mutex. -/
theorem goesOn (hof : s.calls.of t = [p]) (hothers : ∀ u, t ≠ u → ∀ q ∈ s.calls.of u, q.hasMutex = false)
    (hcalls : s'.calls = s.calls.move t q) (hheld : s'.mutex.holder = if q.hasMutex then some t else none)
    (htop : ∀ v, q = .building v → s'.items.head? = some v) : s'.Sound where
  nested u p' outer h := by
    rw [hcalls, Calls.of_move] at h
    split at h
    · rename_i hu
      subst hu
      rw [hof, List.tail_cons] at h
      cases h
      exact .inl rfl
    · exact hs.nested u p' outer h
  held u := by
    rw [hcalls, Calls.of_move, hheld]
    by_cases hu : t = u
    · subst hu
      rw [if_pos rfl, hof, List.tail_cons]
      by_cases hq : q.hasMutex = true <;> simp [hq]
    · rw [if_neg hu]
      refine iff_of_false ?_ ?_
      · split <;> simp [hu]
      · rintro ⟨p', hp', h⟩
        rw [hothers u hu p' hp'] at h
        cases h
  top u v h := by
    rw [hcalls, Calls.of_move] at h
    by_cases hu : t = u
    · subst hu
      rw [if_pos rfl, hof, List.tail_cons, List.mem_singleton] at h
      exact htop v h.symm
    · rw [if_neg hu] at h
      have := hothers u hu _ h
      cases this

theorem turn {r : Request α} (hp : s.calls.current? t = some (.entering r)) (hfree : s.mutex.holder = none)
    (h : Turn t s r s') : s'.Sound := by
  have hof := hs.of_eq_of_free hp hfree
  have hothers (u : ThreadId) (_ : t ≠ u) (q : Phase α) (hq : q ∈ s.calls.of u) := hs.not_hasMutex hfree hq
  cases h with
  | acts hv => exact hs.goesOn hof hothers rfl rfl nofun
  | shows hitems =>
    refine hs.goesOn hof hothers rfl rfl fun v hv => ?_
    cases hv
    simp [hitems]

theorem collects {a : Answer α} (hp : s.calls.current? t = some (.returned a)) : (s.collect t).Sound := by
  have hof := hs.of_eq hp nofun
  have hfinish (u : ThreadId) : (s.collect t).calls.of u = if t = u then [] else s.calls.of u := by
    rw [collect, Calls.of_finish]
    split
    · rename_i hu
      rw [← hu, hof, List.tail_cons]
    · rfl
  refine ⟨fun u p outer h => ?_, fun u => ?_, fun u v h => ?_⟩
  · rw [hfinish] at h
    split at h
    · cases h
    · exact hs.nested u p outer h
  · show s.mutex.holder = some u ↔ _
    rw [hs.held u, hfinish]
    split
    · rename_i hu
      rw [← hu, hof]
      simp [Phase.hasMutex]
    · rfl
  · rw [hfinish] at h
    split at h
    · cases h
    · exact hs.top u v h

theorem change {m : Move α} (h : s.Change m s') : s'.Sound := by
  cases h with
  | starts t r ht => exact hs.starts ht r
  | takes env hp hfree hturn => exact hs.turn hp hfree hturn
  | @leaves t b a env hp =>
    have hof := hs.of_eq hp nofun
    have hheld := hs.holder_of hp rfl
    exact hs.goesOn hof (fun u hu q hq => hs.not_hasMutex_of_ne hheld hu hq) rfl rfl nofun
  | @ends t top e hp =>
    have hof := hs.of_eq hp nofun
    have hheld := hs.holder_of hp rfl
    exact hs.goesOn hof (fun u hu q hq => hs.not_hasMutex_of_ne hheld hu hq) rfl hheld nofun
  | collects hp => exact hs.collects hp

end Sound

theorem Reachable.sound {init : List α} {s : Stack α} (hr : s.Reachable init) : s.Sound := by
  induction hr with
  | refl => exact sound_start init
  | tail m _ hm ih => exact ih.change (move_change hm)

end Interlock.Stack
