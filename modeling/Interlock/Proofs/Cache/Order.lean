import Interlock.Proofs.Cache.Courses

/-!
# The cache is a map, under any interleaving

Serving the calls on a map one after another, in the order in which they got into shared or exclusive mode, gives
all answers. A change is served some steps after it got into exclusive mode, and nobody else gets in meanwhile,
so calls are served in the order in which they get in. While a callback runs nobody changes the map.
-/

namespace Interlock.Cache

variable {κ α : Type}

/-- The calls that got into shared or exclusive mode, in this order. -/
def entrants (es : List (Mark κ α)) : List Ticket :=
  es.filterMap fun
    | ⟨n, .entered⟩ => some n
    | _ => none

def served (es : List (Mark κ α)) : List Ticket :=
  es.filterMap fun
    | ⟨n, .served _ _⟩ => some n
    | _ => none

/-- In exclusive mode, and has still to be served. -/
def Phase.isUnserved : Phase κ α → Bool
  | .excluding _ => true
  | .uncounted _ => true
  | .changing _ => true
  | _ => false

/-- The call is the one that has got into exclusive mode and has still to be served. -/
def Record.Unserved (r : Record κ α) (n : Ticket) : Prop := ∃ t p, r.Underway t n p ∧ p.isUnserved = true

section
variable (n : Ticket) (es es' : List (Mark κ α))

theorem entrants_append : entrants (es ++ es') = entrants es ++ entrants es' := List.filterMap_append ..

theorem served_append : served (es ++ es') = served es ++ served es' := List.filterMap_append ..

@[simp] theorem excludes_of_isUnserved {p : Phase κ α} (h : p.isUnserved = true) : p.excludes = true := by
  cases p with
  | excluding ch => rfl
  | uncounted ch => rfl
  | changing ch => rfl
  | _ => cases h

@[simp] theorem isUnserved_opening (req : Request κ α) : req.opening.isUnserved = false := by
  cases req <;> rfl

end

variable [DecidableEq κ]

/-- What a mark says about the map: one that a call was served moves it on. -/
inductive Plays : (κ → Option α) → Mark κ α → (κ → Option α) → Prop
  | serves {m m' : κ → Option α} {req : Request κ α} {a : Answer α} (n : Ticket) :
      Serves m req a m' → Plays m ⟨n, .served req a⟩ m'
  | rests (m : κ → Option α) {e : Mark κ α} : (∀ req a, e.what ≠ .served req a) → Plays m e m

/-- Serving the calls one after another, in the order of the marks, leads from the first map to the second. -/
def Replay : (κ → Option α) → List (Mark κ α) → (κ → Option α) → Prop := Trace Plays

section
variable {c c' c₁ : Cache κ α} {t : ThreadId} {p p' : Phase κ α} {before after : Option (Phase κ α)}
  {ms : List (Milestone κ α)} {m : κ → Option α}

@[simp] theorem isUnserved_sight (l : Look κ) : (c.sight l).isUnserved = false := by cases l <;> rfl

theorem replay_append {es es' : List (Mark κ α)} {m' : κ → Option α} :
    Replay m (es ++ es') m' ↔ ∃ m₁, Replay m es m₁ ∧ Replay m₁ es' m' := trace_append

/-- A look is served from the map that is there when it gets into shared mode. -/
theorem milestones_sight (c : Cache κ α) (l : Look κ) :
    ∃ a, milestones c.map (.admitted l) (c.sight l) = [.entered, .served (.look l) a] ∧
      Serves c.map (.look l) a c.map := by
  cases l with
  | read key => exact ⟨_, rfl, .read c.map key⟩
  | readWith key => exact ⟨_, rfl, .readWith c.map key⟩
  | len =>
    refine ⟨_, rfl, ?_⟩
    rw [Table.size_eq_ncard]
    exact .len c.map
  | isEmpty => exact ⟨_, rfl, .isEmpty c.map _ (Table.size_eq_zero_iff c.entries)⟩

theorem Turn.replay (h : Turn t c p p' c₁) (n : Ticket) :
    Replay c.map ((milestones c.map p p').map (Mark.mk n)) c₁.map := by
  cases h with
  | sees l hw =>
    obtain ⟨a, hms, hv⟩ := milestones_sight c l
    rw [hms]
    exact ⟨_, .rests _ nofun, _, .serves n hv, rfl⟩
  | changes hv => exact ⟨_, .serves n hv, rfl⟩
  | arrives l hfree => exact ⟨_, .rests _ nofun, rfl⟩
  | passes l => exact ⟨_, .rests _ nofun, rfl⟩
  | unshares a => exact ⟨_, .rests _ nofun, rfl⟩
  | queues ch hfree => exact ⟨_, .rests _ nofun, rfl⟩
  | counts ch => rfl
  | excludes ch hw hr => exact ⟨_, .rests _ nofun, rfl⟩
  | uncounts ch => rfl
  | ungates ch => exact ⟨_, .rests _ nofun, rfl⟩
  | readmits a => exact ⟨_, .rests _ nofun, rfl⟩

theorem Stride.replay (h : Stride t c c' before after ms) (n : Ticket) :
    Replay c.map (ms.map (Mark.mk n)) c'.map := by
  cases h with
  | makes req hfree hmap => exact hmap ▸ ⟨_, .rests _ nofun, rfl⟩
  | ends e hp hmap => exact hmap ▸ rfl
  | collects hp hmap => exact hmap ▸ ⟨_, .rests _ nofun, rfl⟩
  | turns hp hturn hstate =>
    have := hturn.replay n
    rw [hstate]
    exact this

/-- What a move means for the order of the calls: nothing, or a look gets in and is served, or a change gets in,
or a change is served. -/
theorem Stride.attends (h : Stride t c c' before after ms) (n : Ticket) :
    (entrants (ms.map (Mark.mk n)) = [] ∧ served (ms.map (Mark.mk n)) = [] ∧
      after.any Phase.isUnserved = before.any Phase.isUnserved) ∨
    (entrants (ms.map (Mark.mk n)) = [n] ∧ served (ms.map (Mark.mk n)) = [n] ∧ c.lock.writer = none ∧
      after.any Phase.isUnserved = before.any Phase.isUnserved) ∨
    (entrants (ms.map (Mark.mk n)) = [n] ∧ served (ms.map (Mark.mk n)) = [] ∧ c.lock.writer = none ∧
      after.any Phase.isUnserved = true) ∨
    (entrants (ms.map (Mark.mk n)) = [] ∧ served (ms.map (Mark.mk n)) = [n] ∧
      before.any Phase.isUnserved = true ∧ after.any Phase.isUnserved = false) := by
  cases h with
  | makes req hfree hmap => exact .inl ⟨rfl, rfl, isUnserved_opening req⟩
  | ends e hp hmap => exact .inl ⟨rfl, rfl, rfl⟩
  | collects hp hmap => exact .inl ⟨rfl, rfl, rfl⟩
  | turns hp hturn hstate =>
    cases hturn with
    | sees l hw =>
      obtain ⟨a, hms, -⟩ := milestones_sight c l
      rw [hms]
      exact .inr (.inl ⟨rfl, rfl, hw, isUnserved_sight l⟩)
    | excludes ch hw hr => exact .inr (.inr (.inl ⟨rfl, rfl, hw, rfl⟩))
    | changes hv => exact .inr (.inr (.inr ⟨rfl, rfl, rfl, rfl⟩))
    | _ => exact .inl ⟨rfl, rfl, rfl⟩

end

namespace Record

section
variable {r r' : Record κ α} {t : ThreadId} {n k : Ticket} {p : Phase κ α} {before after : Option (Phase κ α)}
  {ms : List (Milestone κ α)}

omit [DecidableEq κ] in
theorem Underway.current? (h : r.Underway t n p) (hs : r.state.Sound) (hv : p.isVisiting = false) :
    r.state.calls.current? t = some p := hs.innermost h.mem_of hv

omit [DecidableEq κ] in
theorem writer_of_unserved (hs : r.state.Sound) (h : r.Unserved n) : r.state.lock.writer ≠ none := by
  obtain ⟨t, p, hp, hunserved⟩ := h
  have hexcludes := excludes_of_isUnserved hunserved
  have hv := Phase.not_visiting Phase.excludes_of_isVisiting hexcludes
  rw [(hs.writer t).mpr ⟨p, hp.current? hs hv, hexcludes⟩]
  nofun

namespace Advance

variable (h : Advance r r' t n before after ms)
include h

theorem unserved_iff : r'.Unserved k ↔ (r.Unserved k ∧ k ≠ n) ∨ (k = n ∧ after.any Phase.isUnserved = true) := by
  constructor
  · rintro ⟨u, q, hq, hunserved⟩
    rcases (h.now u k q).mp hq with ⟨hq, hne⟩ | ⟨-, rfl, rfl⟩
    · exact .inl ⟨⟨u, q, hq, hunserved⟩, hne⟩
    · exact .inr ⟨rfl, hunserved⟩
  · rintro (⟨⟨u, q, hq, hunserved⟩, hne⟩ | ⟨rfl, hafter⟩)
    · exact ⟨u, q, (h.now u k q).mpr (.inl ⟨hq, hne⟩), hunserved⟩
    · cases after with
      | none => cases hafter
      | some q => exact ⟨t, q, (h.now t k q).mpr (.inr ⟨rfl, rfl, rfl⟩), hafter⟩

theorem unserved_before (hr : r.Ticketed) : r.Unserved n ↔ before.any Phase.isUnserved = true := by
  rcases h.was with ⟨rfl, rfl, -⟩ | ⟨p, rfl, hp, -⟩
  · refine iff_of_false ?_ (by simp)
    rintro ⟨u, q, hq, -⟩
    exact hr.notMem_issued hq.mem_tickets
  · constructor
    · rintro ⟨u, q, hq, hunserved⟩
      obtain ⟨-, rfl⟩ := hr.unique hp hq
      exact hunserved
    · intro hunserved
      exact ⟨t, p, hp, hunserved⟩

/-- A move that neither takes a change into exclusive mode nor serves it. -/
theorem unserved_same (hr : r.Ticketed) (hsame : after.any Phase.isUnserved = before.any Phase.isUnserved) :
    r'.Unserved k ↔ r.Unserved k := by
  rw [h.unserved_iff, hsame]
  by_cases hk : k = n
  · subst hk
    rw [h.unserved_before hr]
    simp
  · simp [hk]

end Advance

/-! ## The order in which calls are served -/

/-- Calls are served in the order in which they got in, but for the one that has still to be served. -/
def Ordered (r : Record κ α) : Prop :=
  ∃ s : Option Ticket, entrants r.history = served r.history ++ s.toList ∧ ∀ n, s = some n ↔ r.Unserved n

theorem Ordered.next (ho : r.Ordered) (hr : r.Ticketed) (hs : r.state.Sound)
    (h : Advance r r' t n before after ms) : r'.Ordered := by
  obtain ⟨s, horder, hs'⟩ := ho
  have hnone (hw : r.state.lock.writer = none) : s = none := by
    cases s with
    | none => rfl
    | some k => exact absurd hw (writer_of_unserved hs ((hs' k).mp rfl))
  have hentrants := entrants_append r.history (ms.map (Mark.mk n))
  have hserved := served_append r.history (ms.map (Mark.mk n))
  rw [← h.history] at hentrants hserved
  rcases h.stride.attends n with ⟨he, hv, hsame⟩ | ⟨he, hv, hw, hsame⟩ | ⟨he, hv, hw, hafter⟩ |
    ⟨he, hv, hbefore, hafter⟩
  · refine ⟨s, ?_, fun k => (hs' k).trans (h.unserved_same hr hsame).symm⟩
    rw [hentrants, hserved, he, hv, horder, List.append_nil, List.append_nil]
  · obtain rfl := hnone hw
    refine ⟨none, ?_, fun k => (hs' k).trans (h.unserved_same hr hsame).symm⟩
    rw [hentrants, hserved, he, hv, horder]
    simp
  · obtain rfl := hnone hw
    refine ⟨some n, ?_, fun k => ?_⟩
    · rw [hentrants, hserved, he, hv, horder]
      simp
    · rw [h.unserved_iff, ← hs' k, hafter]
      simp [eq_comm]
  · obtain rfl := (hs' n).mpr ((h.unserved_before hr).mpr hbefore)
    refine ⟨none, ?_, fun k => ?_⟩
    · rw [hentrants, hserved, he, hv, horder]
      simp
    · rw [h.unserved_iff, ← hs' k, hafter]
      simp [eq_comm]

end

section
variable {init : Table κ α} {r : Record κ α} (hr : r.Reachable init)
include hr

theorem Reachable.ordered : r.Ordered := by
  induction hr with
  | refl =>
    refine ⟨none, rfl, fun n => ?_⟩
    simp only [reduceCtorEq, false_iff]
    rintro ⟨t, p, hp, -⟩
    cases hp
  | tail m hr h ih =>
    obtain ⟨n, before, after, ms, hadvance⟩ := (Reachable.ticketed hr).advance h
    exact ih.next (Reachable.ticketed hr) (Reachable.state hr).sound hadvance

theorem Reachable.replay : Replay init.get? r.history r.state.map := by
  induction hr with
  | refl => rfl
  | tail m hr h ih =>
    obtain ⟨n, before, after, ms, hadvance⟩ := (Reachable.ticketed hr).advance h
    rw [hadvance.history]
    exact replay_append.mpr ⟨_, ih, hadvance.stride.replay n⟩

end

/-! ## While a callback runs -/

section
variable {r r' : Record κ α} {t u : ThreadId} {p : Phase κ α} {m : Move κ α} (hs : r.state.Sound)
  (hp : p ∈ r.state.calls.of t) (hv : p.isVisiting = true)
include hs hp hv

/-- While a callback runs no change is served. -/
theorem stable (hr : r.Ticketed) (h : r.next? m = some r') :
    r'.state.map = r.state.map ∧ ∃ es, r'.history = r.history ++ es ∧
      ∀ e ∈ es, ∀ ch a, e.what ≠ .served (.change ch) a := by
  obtain ⟨n, before, after, ms, hadvance⟩ := hr.advance h
  refine ⟨hs.stride_map hadvance.stride hp hv, _, hadvance.history, ?_⟩
  intro e he ch a hwhat
  obtain ⟨what, hms, rfl⟩ := List.mem_map.mp he
  obtain rfl : what = .served (.change ch) a := hwhat
  cases hadvance.stride with
  | makes req => cases List.mem_singleton.mp hms
  | ends e => cases hms
  | collects => cases List.mem_singleton.mp hms
  | turns hcurrent hturn =>
    cases hturn with
    | changes hserves =>
      have hwriter := hs.no_writer hp hv
      rw [(hs.writer _).mpr ⟨_, hcurrent, rfl⟩] at hwriter
      cases hwriter
    | sees l =>
      obtain ⟨b, hsight, -⟩ := milestones_sight r.state l
      rw [hsight] at hms
      simp at hms
    | _ => simp [milestones] at hms

/-- While a callback runs other looks are let in. -/
theorem admits {l : Look κ} (hu : r.state.calls.current? u = some (.admitted l)) (env : Environment) :
    ∃ c, r.state.step? env u = some c ∧ c.calls.current? u = some (r.state.sight l) := by
  have hshare : r.state.lock.share? = some { r.state.lock with readers := r.state.lock.readers + 1 } := by
    simp [SharedLock.share?, hs.no_writer hp hv]
  simp only [step?, hu, hshare, Option.map_some, Option.some.injEq, exists_eq_left']
  cases l <;> simp [look, into, sight, map]

end

/-! ## Linearizability -/

section
variable {init : Table κ α} {r : Record κ α} (hr : r.Reachable init)
include hr

theorem Reachable.shown {t : ThreadId} {n : Ticket} {key : κ} (h : r.Underway t n (.visiting key)) :
    ⟨n, .served (.look (.readWith key)) (.found (r.state.map key))⟩ ∈ r.history := by
  have htrail := hr.charted.trails t n _ h
  rw [← mem_course]
  generalize course n r.history = ms at htrail ⊢
  cases htrail with
  | visiting _ => simp

theorem Reachable.snd_stack (t : ThreadId) : (r.stack t).map Prod.snd = r.state.calls.of t :=
  List.map_snd_zip (hr.ticketed.matched t).ge

end

end Record

/-- **The cache is a linearizable map, and what a callback is shown stays as it is.** Whatever the
interleaving: serving the calls one after another on a map, in the order of the history, leads from the
first map to the present one and gives every answer; this order is the one in which they got into shared or
exclusive mode, but for the change that has got in and has still to be served; each call that was ever made is
under way or over, and has been served as often as its phase says, once when it is over, between being made and
returning, with the answer that it returns; what a running callback was shown is what the map has for its key now;
and while a callback runs no move changes the map or serves a change, and other looks are let in. -/
theorem linearizable_map {init : Table κ α} {r : Record κ α} (hr : r.Reachable init) :
    Replay init.get? r.history r.state.map ∧
    (∃ s : Option Ticket, entrants r.history = served r.history ++ s.toList ∧ ∀ n, s = some n ↔ r.Unserved n) ∧
    (∀ t, (r.stack t).map Prod.snd = r.state.calls.of t) ∧
    (∀ n < r.issued, (∃ t p, r.Underway t n p ∧ Trail r.state.map p (course n r.history)) ∨
      Whole (course n r.history)) ∧
    (∀ t n key, r.Underway t n (.visiting key) →
      ⟨n, .served (.look (.readWith key)) (.found (r.state.map key))⟩ ∈ r.history) ∧
    ∀ t, ∀ p ∈ r.state.calls.of t, p.isVisiting = true →
      (∀ m r', r.next? m = some r' → r'.state.map = r.state.map ∧ ∃ es, r'.history = r.history ++ es ∧
        ∀ e ∈ es, ∀ ch a, e.what ≠ .served (.change ch) a) ∧
      ∀ u l env, r.state.calls.current? u = some (.admitted l) →
        ∃ c, r.state.step? env u = some c ∧ c.calls.current? u = some (r.state.sight l) := by
  have hs := (Record.Reachable.state hr).sound
  refine ⟨hr.replay, hr.ordered, hr.snd_stack, fun n => hr.charted.standing, fun t n key => hr.shown, ?_⟩
  intro t p hp hv
  exact ⟨fun m r' => Record.stable hs hp hv hr.ticketed, fun u l env hu => Record.admits hs hp hv hu env⟩

/-- After a write two callbacks run at once, one panics, and a change waits for the other. -/
def twoCallbacks : List (Move Nat Nat) :=
  .start 3 (.change (.write 0 5)) :: List.replicate 7 (.step 3 default) ++
    [.collect 3, .start 1 (.look (.readWith 0)), .step 1 default, .step 1 default, .start 2 (.look (.readWith 0)),
      .step 2 default, .step 2 default, .step 2 default, .step 1 default, .start 4 (.change (.remove 0)),
      .step 4 default, .step 4 default, .finish 1 (.panicked "oops"), .step 1 default]

theorem linearizable_map_two_callbacks : ∃ r : Record Nat Nat, r.Reachable {} ∧
    r.stack 1 = [(1, .returned (.panicked "oops"))] ∧ r.stack 2 = [(2, .visiting 0)] ∧
    r.stack 4 = [(3, .counted (.remove 0))] ∧ r.state.map 0 = some 5 ∧ entrants r.history = [0, 2, 1] ∧
    Replay (fun _ => none) r.history r.state.map ∧
    ⟨2, .served (.look (.readWith 0)) (.found (some 5))⟩ ∈ r.history ∧
    ∀ m r', r.next? m = some r' → r'.state.map 0 = some 5 := by
  obtain ⟨r, hrun, hone, htwo, hfour, hmap, hentrants⟩ : ∃ r : Record Nat Nat,
      run? Record.next? { state := { entries := {} } } twoCallbacks = some r ∧
      r.stack 1 = [(1, .returned (.panicked "oops"))] ∧ r.stack 2 = [(2, .visiting 0)] ∧
      r.stack 4 = [(3, .counted (.remove 0))] ∧ r.state.map 0 = some 5 ∧ entrants r.history = [0, 2, 1] :=
    ⟨_, rfl, rfl, rfl, rfl, rfl, rfl⟩
  have hr : r.Reachable {} := Leads.refl.run _ hrun
  obtain ⟨hreplay, -, hof, -, hshown, hstable⟩ := linearizable_map hr
  have hvisiting : Phase.visiting 0 ∈ r.state.calls.of 2 := by
    rw [← hof, htwo]
    exact List.mem_cons_self
  have hunderway : r.Underway 2 2 (.visiting 0) := by
    rw [Record.Underway, htwo]
    exact List.mem_cons_self
  refine ⟨r, hr, hone, htwo, hfour, hmap, hentrants, hreplay, ?_, fun m r' h => ?_⟩
  · rw [← hmap]
    exact hshown 2 2 0 hunderway
  · rw [((hstable 2 _ hvisiting rfl).1 m r' h).1]
    exact hmap

end Interlock.Cache
