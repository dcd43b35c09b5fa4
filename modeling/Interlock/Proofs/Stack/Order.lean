import Interlock.Proofs.Stack.Arrivals

/-!
# The stack is last in, first out, under any interleaving

A `Record` keeps a history beside the stack, and the calls in the order in which they got the mutex. A call is
taken down as served when it does its work: as it gets the mutex, or, if it shows the top to a builder, as the
builder ends. In between no other call gets the mutex, so both lists are in the same order (`InOrder`).
-/

namespace Interlock.Stack

variable {α : Type}

/-! ## The record -/

structure Record (α : Type) where
  state : Stack α
  history : List (Event (Request α) (Answer α)) := []
  /-- The calls, in the order in which they got the mutex. -/
  granted : List (ThreadId × Request α) := []

def served (t : ThreadId) : Option (Phase α) → Option (Phase α) → List (Event (Request α) (Answer α))
  | some (.entering r), some (.leaving _ a) => [.served t r a]
  | _, _ => []

/-- What is taken down of a move that leads from one state to another. -/
def note (s s' : Stack α) : Move α → List (Event (Request α) (Answer α))
  | .start t r => [.called t r]
  | .step t _ => served t (s.calls.current? t) (s'.calls.current? t)
  | .finish t e => [.served t .popWith e.answer]
  | .collect t => ((s.answer? t).map (.returned t)).toList

/-- The call that gets the mutex in a move. -/
def grant (s : Stack α) : Move α → List (ThreadId × Request α)
  | .step t _ =>
    match s.calls.current? t with
    | some (.entering r) => [(t, r)]
    | _ => []
  | _ => []

namespace Record

def next? (r : Record α) (m : Move α) : Option (Record α) :=
  (r.state.move? m).map fun s => ⟨s, r.history ++ note r.state s m, r.granted ++ grant r.state m⟩

def Reachable (init : List α) (r : Record α) : Prop := Leads next? { state := ofList init } r

end Record

theorem Record.Reachable.state {init : List α} {r : Record α} (hr : r.Reachable init) :
    Stack.Reachable init r.state := by
  refine Leads.map Record.state (fun r m r' hn => ?_) hr
  obtain ⟨s, hm, rfl⟩ := Option.map_eq_some_iff.mp hn
  exact hm

theorem Reachable.recorded {init : List α} {s : Stack α} (hr : Reachable init s) :
    ∃ r : Record α, r.Reachable init ∧ r.state = s :=
  Leads.lift Record.state (fun r m s hm => ⟨_, by rw [Record.next?, hm]; rfl, rfl⟩) hr

/-! ## What a move takes down -/

section
variable {s s' : Stack α} {t : ThreadId} {r : Request α} {a : Answer α} {env : Environment}

theorem length_note_le (s s' : Stack α) (m : Move α) : (note s s' m).length ≤ 1 := by
  cases m with
  | start t r => exact Nat.le_refl 1
  | step t env =>
    show (served t _ _).length ≤ 1
    unfold served
    split
    · exact Nat.le_refl 1
    · exact Nat.zero_le 1
  | finish t e => exact Nat.le_refl 1
  | collect t => exact Option.length_toList_le

theorem note_acts {items : List α} (ht : s.calls.current? t = some (.entering r)) :
    note s (({ s with items }.seize t).into t (.leaving false a)) (.step t env) = [.served t r a] := by
  simp [note, ht, served]

theorem note_shows {top : α} (ht : s.calls.current? t = some (.entering r)) :
    note s ((s.seize t).into t (.building top)) (.step t env) = [] := by
  simp [note, ht, served]

theorem note_leaves {panicking : Bool} (ht : s.calls.current? t = some (.leaving panicking a)) :
    note s s' (.step t env) = [] := by
  simp [note, ht, served]

theorem note_collects (ht : s.calls.current? t = some (.returned a)) :
    note s s' (.collect t) = [.returned t a] := by
  simp [note, answer?, ht]

/-- The history grows by at most one event, which is the truth about what is left on the stack. -/
theorem Change.serial {m : Move α} (hs : s.Sound) (hc : s.Change m s') {y : Tally α} (hy : y.Sound)
    (hitems : s.items = y.items) : ∃ y', Serial Serves y (note s s' m) y' ∧ s'.items = y'.items := by
  cases hc with
  | starts t r ht => exact ⟨y, ⟨_, .called _ t r, rfl⟩, hitems⟩
  | @takes t r s' env ht hfree hturn =>
    cases hturn with
    | acts hacts =>
      rw [note_acts ht]
      obtain ⟨y', hv, hitems'⟩ := hacts.serves hy hitems
      exact ⟨y', ⟨_, .served t hv, rfl⟩, hitems'⟩
    | shows _ =>
      rw [note_shows ht]
      exact ⟨y, rfl, hitems⟩
  | leaves env ht =>
    rw [note_leaves ht]
    exact ⟨y, rfl, hitems⟩
  | @ends t top e ht =>
    have htop : s.items.head? = some top := by
      apply hs.top t top
      rw [Calls.of_eq_cons ht]
      exact List.mem_cons_self
    obtain ⟨y', hv, hitems'⟩ := ended_serves e (hitems ▸ htop)
    refine ⟨y', ⟨_, .served t hv, rfl⟩, ?_⟩
    rw [← hitems', ← hitems]
    rfl
  | collects ht =>
    rw [note_collects ht]
    exact ⟨y, ⟨_, .returned _ _ _, rfl⟩, hitems⟩

/-- A call is served while its thread has the mutex. -/
theorem Change.holds {m : Move α} (hs : s'.Sound) (hc : s.Change m s') (h : .served t r a ∈ note s s' m) :
    s'.mutex.holder = some t := by
  cases hc with
  | starts u q hu => simp [note] at h
  | @takes u q s' env hu hfree hturn =>
    cases hturn with
    | acts _ =>
      rw [note_acts hu, List.mem_singleton] at h
      cases h
      rfl
    | shows _ => simp [note_shows hu] at h
  | leaves env hu => simp [note_leaves hu] at h
  | @ends u top e hu =>
    obtain ⟨rfl, -, -⟩ : t = u ∧ r = .popWith ∧ a = e.answer := by simpa [note] using h
    exact hs.holder_of (p := .leaving e.isPanic e.answer) (by simp) rfl
  | collects hu => simp [note_collects hu] at h

end

/-! ## The calls of one thread -/

inductive Fits : Phase α → Stage (Request α) (Answer α) → Prop
  | entering (r : Request α) : Fits (.entering r) (.asked r)
  | building (top : α) : Fits (.building top) (.asked .popWith)
  | leaving (panicking : Bool) (r : Request α) (a : Answer α) : Fits (.leaving panicking a) (.answered r a)
  | returned (r : Request α) (a : Answer α) : Fits (.returned a) (.answered r a)

theorem Change.areAt {s s' : Stack α} {m : Move α} (hc : s.Change m s') {u : ThreadId}
    {st : List (Stage (Request α) (Answer α))} (hst : s.calls.AreAt Fits u st) :
    ∃ st', Course u st (note s s' m) st' ∧ s'.calls.AreAt Fits u st' := by
  cases hc with
  | starts t r ht => exact hst.starts t (.entering r)
  | @takes t r s' env ht hfree hturn =>
    cases hturn with
    | @acts r a items hacts =>
      rw [note_acts ht]
      apply hst.answers ht
      · intro q hq
        cases hq
        rfl
      · exact .leaving false r a
    | shows _ =>
      rw [note_shows ht]
      refine ⟨st, rfl, hst.keeps ht ?_⟩
      intro q hq
      cases hq
      exact .building _
  | @leaves t panicking a env ht =>
    rw [note_leaves ht]
    refine ⟨st, rfl, hst.keeps ht ?_⟩
    intro q hq
    cases hq
    exact .returned _ a
  | @ends t top e ht =>
    apply hst.answers ht
    · intro q hq
      cases hq
      rfl
    · exact .leaving e.isPanic .popWith e.answer
  | collects ht =>
    rw [note_collects ht]
    apply hst.collects ht
    intro q hq
    cases hq
    exact ⟨_, rfl⟩

/-! ## The order in which the calls got the mutex -/

/-- The calls that were served, in the order of the history. -/
def servings (es : List (Event (Request α) (Answer α))) : List (ThreadId × Request α) :=
  es.flatMap fun
    | .served t r _ => [(t, r)]
    | _ => []

/-- The calls have been served in the order in which they got the mutex. Only the last may be still at work. -/
inductive InOrder (r : Record α) : Prop
  | allServed : (∀ t v, .building v ∉ r.state.calls.of t) → r.granted = servings r.history → InOrder r
  | lastBuilding {t : ThreadId} {v : α} : .building v ∈ r.state.calls.of t →
      r.granted = servings r.history ++ [(t, .popWith)] → InOrder r

namespace Sound

variable {s s' : Stack α} {t u : ThreadId} {p q : Phase α} (hs : s.Sound)
include hs

theorem not_building (hfree : s.mutex.holder = none) (v : α) : .building v ∉ s.calls.of t := by
  intro h
  have := hs.not_hasMutex hfree h
  cases this

/-- Only the thread that has the mutex can be at a builder. -/
theorem building_of_held (hp : s.calls.current? t = some p) (hm : p.hasMutex = true) {v : α}
    (h : .building v ∈ s.calls.of u) : u = t ∧ p = .building v := by
  have hof : s.calls.of t = [p] := by
    apply hs.of_eq hp
    rintro r rfl
    cases hm
  have hheld := hs.holder_of hp hm
  rw [(hs.held u).mpr ⟨_, h, rfl⟩] at hheld
  obtain rfl := Option.some.inj hheld
  rw [hof, List.mem_singleton] at h
  exact ⟨rfl, h.symm⟩

end Sound

theorem servings_append (es es' : List (Event (Request α) (Answer α))) :
    servings (es ++ es') = servings es ++ servings es' := List.flatMap_append

/-- A move after which the same builders run, and which neither gives the mutex away nor serves a call. -/
theorem InOrder.keeps {r r' : Record α} (h : InOrder r)
    (hcalls : ∀ t v, .building v ∈ r'.state.calls.of t ↔ .building v ∈ r.state.calls.of t)
    (hgranted : r'.granted = r.granted) (hserved : servings r'.history = servings r.history) : InOrder r' := by
  cases h with
  | allServed hnone heq =>
    refine .allServed ?_ (by rw [hgranted, heq, hserved])
    intro t v hv
    exact hnone t v ((hcalls t v).mp hv)
  | lastBuilding hv heq => exact .lastBuilding ((hcalls _ _).mpr hv) (by rw [hgranted, heq, hserved])

theorem building_mem_move {c : Calls (Phase α)} {t u : ThreadId} {p q : Phase α} {v : α}
    (hp : c.current? t = some p) (hbp : p.isBuilding = false) (hbq : q.isBuilding = false) :
    .building v ∈ (c.move t q).of u ↔ .building v ∈ c.of u := by
  have hne (b : Phase α) (hb : b.isBuilding = false) : Phase.building v ≠ b := by
    rintro rfl
    cases hb
  by_cases h : t = u
  · subst h
    rw [Calls.of_move, if_pos rfl]
    nth_rewrite 2 [Calls.of_eq_cons hp]
    simp [hne p hbp, hne q hbq]
  · simp [h]

theorem Change.inOrder {r r' : Record α} {m : Move α} (hs : r.state.Sound) (hc : r.state.Change m r'.state)
    (hhistory : r'.history = r.history ++ note r.state r'.state m)
    (hgranted : r'.granted = r.granted ++ grant r.state m) (h : InOrder r) : InOrder r' := by
  obtain ⟨s, es, gs⟩ := r
  obtain ⟨s', es', gs'⟩ := r'
  dsimp only at hs hc hhistory hgranted
  subst hhistory hgranted
  cases hc with
  | starts t q ht =>
    refine h.keeps (fun u v => ?_) (by simp [grant]) (by simp [note, servings])
    by_cases hu : t = u <;> simp [hu]
  | @takes t q s' env ht hfree hturn =>
    have hall : gs = servings es := by
      cases h with
      | allServed _ heq => exact heq
      | lastBuilding hv _ => exact absurd hv (hs.not_building hfree _)
    have hgrant : grant s (.step t env) = [(t, q)] := by simp [grant, ht]
    cases hturn with
    | acts _ =>
      refine .allServed (fun u v hv => ?_) ?_
      · exact hs.not_building hfree v ((building_mem_move ht rfl rfl).mp hv)
      · simp only
        rw [hgrant, note_acts ht, servings_append, hall]
        rfl
    | @shows top rest _ =>
      refine .lastBuilding (t := t) (v := top) (by simp) ?_
      simp only
      rw [hgrant, note_shows ht, List.append_nil, hall]
  | @leaves t panicking a env ht =>
    refine h.keeps (fun u v => building_mem_move ht rfl rfl) ?_ ?_
    · simp [grant, ht]
    · simp only
      rw [note_leaves ht, List.append_nil]
  | @ends t top e ht =>
    have hnow : gs = servings es ++ [(t, .popWith)] := by
      cases h with
      | allServed hnone _ =>
        refine absurd ?_ (hnone t top)
        rw [Calls.of_eq_cons ht]
        exact List.mem_cons_self
      | lastBuilding hv heq =>
        obtain ⟨rfl, -⟩ := hs.building_of_held ht rfl hv
        exact heq
    refine .allServed (fun u v hv => ?_) ?_
    · have hof := hs.of_eq ht nofun
      replace hv : Phase.building v ∈ (s.calls.move t (.leaving e.isPanic e.answer)).of u := hv
      rw [Calls.of_move] at hv
      by_cases hu : t = u
      · subst hu
        simp [hof] at hv
      · rw [if_neg hu] at hv
        exact hu (hs.building_of_held ht rfl hv).1.symm
    · simp only
      rw [hnow, servings_append]
      simp [grant, note, servings]
  | @collects t a ht =>
    refine h.keeps (fun u v => ?_) (by simp [grant]) ?_
    · have hof := hs.of_eq ht nofun
      show _ ∈ (s.calls.finish t).of u ↔ _
      by_cases hu : t = u
      · subst hu
        simp [hof]
      · simp [hu]
    · simp only
      rw [note_collects ht]
      simp [servings]

/-! ## Linearizability -/

section
variable {init : List α} {r : Record α} (hr : r.Reachable init)
include hr

theorem Record.Reachable.serial :
    ∃ y : Tally α, Serial Serves { arrived := init } r.history y ∧ r.state.items = y.items := by
  induction hr with
  | refl => exact ⟨_, rfl, (Tally.items_start init).symm⟩
  | tail m hr hn ih =>
    obtain ⟨s, hm, rfl⟩ := Option.map_eq_some_iff.mp hn
    obtain ⟨y, hserial, hitems⟩ := ih
    have hy := (serial_accounts (Tally.sound_start init) hserial).sound
    obtain ⟨y', hserial', hitems'⟩ := (move_change hm).serial (Record.Reachable.state hr).sound hy hitems
    exact ⟨y', serial_append.mpr ⟨y, hserial, hserial'⟩, hitems'⟩

theorem Record.Reachable.course (t : ThreadId) :
    ∃ st, Course t [] r.history st ∧ r.state.calls.AreAt Fits t st := by
  induction hr with
  | refl => exact ⟨[], rfl, .nil⟩
  | tail m hr hn ih =>
    obtain ⟨s, hm, rfl⟩ := Option.map_eq_some_iff.mp hn
    obtain ⟨st, hcourse, hst⟩ := ih
    obtain ⟨st', hcourse', hst'⟩ := (move_change hm).areAt hst
    exact ⟨st', course_append.mpr ⟨st, hcourse, hcourse'⟩, hst'⟩

theorem Record.Reachable.inOrder : InOrder r := by
  induction hr with
  | refl => exact .allServed (fun t v h => by cases h) rfl
  | tail m hr hn ih =>
    obtain ⟨s, hm, rfl⟩ := Option.map_eq_some_iff.mp hn
    exact (move_change hm).inOrder (Record.Reachable.state hr).sound rfl rfl ih

/-- **The stack is a linearizable stack, last in, first out.** Whatever the interleaving: serving the calls one
after another, each taking what came latest of what is left, leads from the first elements to the present ones
and gives every answer; each call is served once, between being made and returning, and in the order in which
the calls got the mutex; of all that was there or was pushed, nothing is given out twice, and what was not given
out is still there; a builder looks at the top until it ends; and a move serves at most one call, from the
elements that are on the stack at that moment, with the mutex in the hands of its thread. -/
theorem linearizable_lifo : ∃ y : Tally α,
    (Serial Serves { arrived := init } r.history y ∧ r.state.items = y.items) ∧
    (y.arrived = init ++ pushed r.history ∧ y.taken.Nodup ∧ List.Forall₂ Delivers (pops r.history) y.delivered ∧
      (init ++ pushed r.history).Perm (y.delivered ++ r.state.items)) ∧
    (∀ t, ∃ st, Course t [] r.history st ∧ r.state.calls.AreAt Fits t st) ∧ InOrder r ∧
    (∀ t v, .building v ∈ r.state.calls.of t → r.state.items.head? = some v) ∧
    ∀ m r', r.next? m = some r' → ∃ es y', r'.history = r.history ++ es ∧ es.length ≤ 1 ∧
      Serial Serves y es y' ∧ r'.state.items = y'.items ∧
      ∀ t req a, .served t req a ∈ es → r'.state.mutex.holder = some t := by
  have hs := (Record.Reachable.state hr).sound
  obtain ⟨y, hserial, hitems⟩ := hr.serial
  have haccounts := serial_accounts (Tally.sound_start init) hserial
  have harrived : y.arrived = init ++ pushed r.history := haccounts.arrived
  obtain ⟨vs, hvs, hpops⟩ := haccounts.delivered
  have hdelivered : y.delivered = vs := by simpa [Tally.delivered] using hvs
  have hperm : (init ++ pushed r.history).Perm (y.delivered ++ r.state.items) := by
    rw [← harrived, hitems]
    exact haccounts.sound.perm
  refine ⟨y, ⟨hserial, hitems⟩, ⟨harrived, haccounts.sound.nodup, hdelivered ▸ hpops, hperm⟩, hr.course,
    hr.inOrder, hs.top, ?_⟩
  intro m r' hn
  obtain ⟨s, hm, rfl⟩ := Option.map_eq_some_iff.mp hn
  have hchange := move_change hm
  obtain ⟨y', hserial', hitems'⟩ := hchange.serial hs haccounts.sound hitems
  refine ⟨_, y', rfl, length_note_le r.state s m, hserial', hitems', ?_⟩
  intro t req a h
  exact hchange.holds (hs.change hchange) h

end

/-- A builder panics, a pop that waited meanwhile gets the element that the builder saw, and a second builder
takes the other one. -/
def panickedThenBuilt : List (Move Nat) :=
  [.start 1 .popWith, .step 1 default, .start 2 .pop, .start 3 .popWith, .finish 1 (.panicked "no"),
    .step 1 default, .step 2 default, .step 2 default, .collect 2, .step 3 default, .start 4 (.push 5),
    .finish 3 (.built 9), .step 3 default, .step 4 default, .collect 1]

theorem linearizable_lifo_panicked_then_built : ∃ r : Record Nat, r.Reachable [1, 2] ∧
    pushed r.history = [5] ∧ pops r.history = [.popped 2, .built 9] ∧ r.state.items = [5] ∧
    ∃ y : Tally Nat, Serial Serves { arrived := [1, 2] } r.history y ∧ y.taken.Nodup ∧
      ([1, 2] ++ pushed r.history).Perm (y.delivered ++ r.state.items) := by
  obtain ⟨r, hrun, hpushed, hpops, hitems⟩ :
      ∃ r, run? Record.next? { state := ofList [1, 2] } panickedThenBuilt = some r ∧ pushed r.history = [5] ∧
        pops r.history = [.popped 2, .built 9] ∧ r.state.items = [5] := ⟨_, rfl, rfl, rfl, rfl⟩
  have hr : r.Reachable [1, 2] := Leads.refl.run _ hrun
  obtain ⟨y, ⟨hserial, -⟩, ⟨-, hnodup, -, hperm⟩, -⟩ := linearizable_lifo hr
  exact ⟨r, hr, hpushed, hpops, hitems, y, hserial, hnodup, hperm⟩

end Interlock.Stack
