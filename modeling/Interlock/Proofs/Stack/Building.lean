import Interlock.Proofs.Stack.Moves

/-!
# A pop with a builder builds before it removes

`PopWith` follows one such call through a run in which the other threads do what they like. From the step in
which it gets the mutex to the step in which it leaves, nobody else gets it, so all that happens on the stack is
that calls are made, which wait, and that answers are picked up (`Held`). The other moves do not touch the stack
while the builder runs, so they could as well have come before it: the call might have taken the top, built from
it and put it back if that failed, all in one step (`popBuildPush`).
-/

namespace Interlock.Stack

variable {α : Type}

/-- A call is made or an answer is picked up. The stack is as it was. -/
def Move.isIdle : Move α → Bool
  | .start _ _ => true
  | .collect _ => true
  | _ => false

/-- The mutex is free, and whoever waits for it can have it and do what its call does, whether or not a builder
has panicked. -/
def Ready (s : Stack α) : Prop :=
  s.mutex.holder = none ∧ ∀ u r env, s.calls.current? u = some (.entering r) →
    ∃ s', s.step? env u = some s' ∧ Turn u s r s'

/-- The thread's pop with a builder has waited for the mutex since it was made. -/
structure Waits (t : ThreadId) (s₀ : Stack α) (ms : List (Move α)) (s : Stack α) : Prop where
  run : run? move? s₀ ms = some s
  others : ∀ m ∈ ms, m.thread ≠ t
  waiting : s.calls.current? t = some (.entering .popWith)

/-- The thread has the mutex of the stack of these elements; these moves, all idle, came last. -/
structure Held (t : ThreadId) (items : List α) (ms : List (Move α)) (s : Stack α) : Prop where
  idle : ∀ m ∈ ms, m.isIdle = true
  items : s.items = items
  holder : s.mutex.holder = some t

/-- The stack once the thread has the mutex and its builder looks at the top. -/
def shown (s : Stack α) (t : ThreadId) (top : α) : Stack α := (s.seize t).into t (.building top)

/-- The top is popped, the builder runs, and the top is pushed back if nothing was built from it, all in the step
in which the thread gets the mutex. -/
def popBuildPush (s : Stack α) (t : ThreadId) (e : Ending α) : Stack α :=
  match s.items with
  | [] => (s.seize t).into t (.leaving false (.notBuilt .empty))
  | top :: rest =>
    let popped := { s with items := rest }.seize t
    match e with
    | .built v => popped.into t (.leaving false (.built v))
    | e => { popped with items := top :: popped.items }.into t (.leaving e.isPanic e.answer)

/-- How far the thread's pop with a builder has got, in a run from the state in which it was made. -/
inductive PopWith (t : ThreadId) (s₀ : Stack α) : List (Move α) → Stack α → Prop
  | waits {ms : List (Move α)} {s : Stack α} : Waits t s₀ ms s → PopWith t s₀ ms s
  /-- It has found the stack empty, and no builder runs. -/
  | misses {ms after : List (Move α)} {s s' : Stack α} (env : Environment) : Waits t s₀ ms s →
      s.mutex.holder = none → s.items = [] → Held t [] after s' →
      s'.calls.of t = [.leaving false (.notBuilt .empty)] →
      (∀ e, run? move? (s.popBuildPush t e) after = some s') → PopWith t s₀ (ms ++ .step t env :: after) s'
  /-- Its builder looks at the element that was the top when it got the mutex. But for that the state is the one
  in which the call waits still. -/
  | builds {ms during : List (Move α)} {s s₁ s' : Stack α} (env : Environment) {top : α} {rest : List α} :
      Waits t s₀ ms s → s.mutex.holder = none → s.items = top :: rest → Held t (top :: rest) during s' →
      Waits t s₀ (ms ++ during) s₁ → s₁.mutex.holder = none → s' = s₁.shown t top →
      PopWith t s₀ (ms ++ .step t env :: during) s'
  /-- Its builder has made a call on the stack itself, and waits for ever. -/
  | reenters {ms after : List (Move α)} {s s' : Stack α} {top : α} {r : Request α} : PopWith t s₀ ms s →
      s.calls.of t = [.building top] → Held t s.items after s' → s'.calls.of t = [.entering r, .building top] →
      PopWith t s₀ (ms ++ .start t r :: after) s'
  /-- Its builder has ended. Unless it has built something, the elements are those that it began with. It could
  have run at once, when the moves of the others had been made. -/
  | ends {ms during after : List (Move α)} {s s₁ s' : Stack α} (env : Environment) {top : α} {rest : List α}
      (e : Ending α) : Waits t s₀ ms s → s.mutex.holder = none → s.items = top :: rest →
      (∀ m ∈ during, m.isIdle = true) → Held t (e.items (top :: rest)) after s' →
      s'.calls.of t = [.leaving e.isPanic e.answer] →
      Waits t s₀ (ms ++ during) s₁ → s₁.mutex.holder = none → run? move? (s₁.popBuildPush t e) after = some s' →
      PopWith t s₀ (ms ++ .step t env :: (during ++ .finish t e :: after)) s'
  /-- It has left the stack, and the other threads go on. -/
  | returns {ms later : List (Move α)} {s s₁ s' : Stack α} (env : Environment) {panicking : Bool} {a : Answer α} :
      PopWith t s₀ ms s → s.calls.current? t = some (.leaving panicking a) → s.step? env t = some s₁ →
      s₁.items = s.items → s₁.Ready → run? move? s₁ later = some s' → (∀ m ∈ later, m.thread ≠ t) →
      s'.calls.of t = [.returned a] → PopWith t s₀ (ms ++ .step t env :: later) s'

/-! ## While the mutex is held -/

section
variable {s s' : Stack α} {t : ThreadId} {m : Move α} {p : Phase α}

theorem ready_of_free (hfree : s.mutex.holder = none) : s.Ready := by
  refine ⟨hfree, fun u r env hu => ?_⟩
  have hstep : s.step? env u = some (act env u (s.seize u) r) := by
    simp [step?, hu, Mutex.acquire?, hfree, seize]
  exact ⟨_, hstep, act_turn env u s r⟩

/-- What another thread does while this one has the mutex. -/
theorem Sound.idle_of_held (hs : s.Sound) (hheld : s.mutex.holder = some t) (hc : s.Change m s')
    (hne : m.thread ≠ t) : m.isIdle = true ∧ s'.items = s.items ∧ s'.mutex = s.mutex := by
  have hother {u : ThreadId} {p : Phase α} (hp : s.calls.current? u = some p) (hm : p.hasMutex = true) : u = t := by
    have := hs.holder_of hp hm
    rw [hheld] at this
    exact (Option.some.inj this).symm
  cases hc with
  | starts u r hu => exact ⟨rfl, rfl, rfl⟩
  | takes env hu hfree hturn =>
    rw [hfree] at hheld
    cases hheld
  | leaves env hu => exact absurd (hother hu rfl) hne
  | ends e hu => exact absurd (hother hu rfl) hne
  | collects hu => exact ⟨rfl, rfl, rfl⟩

theorem Held.start {items : List α} (hm : s.mutex.holder = some t) (hi : s.items = items) :
    Held t items [] s := ⟨nofun, hi, hm⟩

theorem Held.next {items : List α} {ms : List (Move α)} (h : Held t items ms s) (hidle : m.isIdle = true)
    (hitems : s'.items = s.items) (hmutex : s'.mutex = s.mutex) : Held t items (ms ++ [m]) s' := by
  refine ⟨fun n hn => ?_, hitems.trans h.items, hmutex ▸ h.holder⟩
  rcases List.mem_append.mp hn with hn | hn
  · exact h.idle n hn
  · rw [List.mem_singleton.mp hn]
    exact hidle

end

/-! ## What the thread itself can do -/

section
variable {s s' : Stack α} {t : ThreadId} {m : Move α} (hc : s.Change m s') (ht : m.thread = t)
include hc ht

theorem Change.of_entering {r : Request α} (hp : s.calls.current? t = some (.entering r)) :
    ∃ env, m = .step t env ∧ s.mutex.holder = none ∧ Turn t s r s' := by
  subst ht
  cases hc with
  | starts u r hu => cases hu _ hp
  | takes env hu hfree hturn =>
    cases hp.symm.trans hu
    exact ⟨env, rfl, hfree, hturn⟩
  | leaves env hu => cases hp.symm.trans hu
  | ends e hu => cases hp.symm.trans hu
  | collects hu => cases hp.symm.trans hu

theorem Change.of_building {top : α} (hp : s.calls.current? t = some (.building top)) :
    (∃ r, m = .start t r ∧ s' = { s with calls := s.calls.start t (.entering r) }) ∨
    ∃ e, m = .finish t e ∧
      s' = { s with items := e.items s.items }.into t (.leaving e.isPanic e.answer) := by
  subst ht
  cases hc with
  | starts u r hu => exact .inl ⟨r, rfl, rfl⟩
  | takes env hu hfree hturn => cases hp.symm.trans hu
  | leaves env hu => cases hp.symm.trans hu
  | ends e hu => exact .inr ⟨e, rfl, rfl⟩
  | collects hu => cases hp.symm.trans hu

theorem Change.of_leaving {panicking : Bool} {a : Answer α}
    (hp : s.calls.current? t = some (.leaving panicking a)) :
    ∃ env, m = .step t env ∧ s' = { s with mutex := s.mutex.release panicking }.into t (.returned a) := by
  subst ht
  cases hc with
  | starts u r hu => cases hu _ hp
  | takes env hu hfree hturn => cases hp.symm.trans hu
  | leaves env hu =>
    cases hp.symm.trans hu
    exact ⟨env, rfl, rfl⟩
  | ends e hu => cases hp.symm.trans hu
  | collects hu => cases hp.symm.trans hu

theorem Change.of_returned {a : Answer α} (hp : s.calls.current? t = some (.returned a)) : m = .collect t := by
  subst ht
  cases hc with
  | starts u r hu => cases hu _ hp
  | takes env hu hfree hturn => cases hp.symm.trans hu
  | leaves env hu => cases hp.symm.trans hu
  | ends e hu => cases hp.symm.trans hu
  | collects hu => rfl

end

/-! ## One move -/

section
variable {s₀ s s' : Stack α} {t : ThreadId} {m : Move α} {ms : List (Move α)}

theorem snoc_cons (ms during : List (Move α)) (m m' : Move α) :
    ms ++ m :: during ++ [m'] = ms ++ m :: (during ++ [m']) := by simp

theorem forall_mem_snoc {P : Move α → Prop} (h : ∀ n ∈ ms, P n) (hm : P m) : ∀ n ∈ ms ++ [m], P n := by
  intro n hn
  rcases List.mem_append.mp hn with hn | hn
  · exact h n hn
  · rw [List.mem_singleton.mp hn]
    exact hm

theorem current?_others (hc : s.Change m s') (ht : m.thread ≠ t) :
    s'.calls.current? t = s.calls.current? t := by
  rw [← Calls.head?_of, hc.others ht, Calls.head?_of]

theorem Waits.other (h : Waits t s₀ ms s) (hm : s.move? m = some s') (ht : m.thread ≠ t) :
    Waits t s₀ (ms ++ [m]) s' := by
  refine ⟨?_, forall_mem_snoc h.others ht, (current?_others (move_change hm) ht).trans h.waiting⟩
  rw [run?_append, h.run]
  exact hm

theorem Turn.of_popWith (h : Turn t s .popWith s') :
    (s.items = [] ∧ s' = (s.seize t).into t (.leaving false (.notBuilt .empty))) ∨
    ∃ top rest, s.items = top :: rest ∧ s' = (s.seize t).into t (.building top) := by
  generalize hr : (Request.popWith : Request α) = r at h
  cases h with
  | @acts _ a items hacts =>
    left
    obtain ⟨items, mutex, calls⟩ := s
    dsimp only at hacts
    cases hacts with
    | popWithEmpty => exact ⟨rfl, rfl⟩
    | _ => cases hr
  | @shows top rest hitems => exact .inr ⟨top, rest, hitems, rfl⟩

theorem PopWith.leaves {panicking : Bool} {a : Answer α} (h : PopWith t s₀ ms s) (hm : s.move? m = some s')
    (ht : m.thread = t) (hof : s.calls.of t = [.leaving panicking a]) : PopWith t s₀ (ms ++ [m]) s' := by
  have hp := Calls.current?_eq_of_cons hof
  obtain ⟨env, rfl, rfl⟩ := (move_change hm).of_leaving ht hp
  exact .returns env h hp hm rfl (ready_of_free rfl) rfl nofun (by simp [hof])

theorem start?_of_free {r : Request α} (hfree : ∀ p, s.calls.current? t = some p → p.isBuilding = true) :
    s.start? t r = some { s with calls := s.calls.start t (.entering r) } := by
  unfold start?
  cases hp : s.calls.current? t with
  | none => rfl
  | some p =>
    have hbuilding := hfree p hp
    cases p with
    | building top => rfl
    | _ => cases hbuilding

/-- While the builder runs, the others move as they would while the call waits. -/
theorem shown_move {top : α} (hs : (s.shown t top).Sound) (ht : m.thread ≠ t)
    (hm : (s.shown t top).move? m = some s') :
    ∃ s₁, s.move? m = some s₁ ∧ s' = s₁.shown t top ∧ s₁.items = s.items ∧ s₁.mutex = s.mutex := by
  have hc := move_change hm
  obtain ⟨hidle, -, -⟩ := hs.idle_of_held rfl hc ht
  cases hc with
  | starts u r hu =>
    have hne : u ≠ t := ht
    have hstart : s.start? u r = some { s with calls := s.calls.start u (.entering r) } := by
      refine start?_of_free fun p hp => hu p ?_
      simpa [shown, hne.symm] using hp
    exact ⟨_, hstart, by simp [shown, seize, into, Calls.start, Calls.move, Entries.put, hne], rfl, rfl⟩
  | @collects u a hu =>
    have hne : u ≠ t := ht
    have hu' : s.calls.current? u = some (.returned a) := by simpa [shown, hne.symm] using hu
    refine ⟨s.collect u, by simp [move?, answer?, hu'], ?_, rfl, rfl⟩
    exact congrArg (fun es => (⟨s.items, _, ⟨es⟩⟩ : Stack α)) (Entries.eraseP_put_of_ne hne.symm ..)
  | takes env hu hfree hturn => cases hidle
  | leaves env hu => cases hidle
  | ends e hu => cases hidle

/-- The end of the builder, and the call that does everything at once. -/
theorem shown_end {top : α} {rest : List α} (hitems : s.items = top :: rest) (e : Ending α) :
    { s.shown t top with items := e.items (s.shown t top).items }.into t (.leaving e.isPanic e.answer) =
      s.popBuildPush t e := by
  have hput (p : Phase α) : (s.calls.move t (.building top)).move t p = s.calls.move t p :=
    congrArg Calls.mk (Entries.put_put ..)
  cases e <;> simp [shown, popBuildPush, hitems, into, seize, hput, Ending.items, Ending.isPanic, Ending.answer]

variable (hs : s.Sound) (hm : s.move? m = some s')
include hs hm

theorem Waits.next (h : Waits t s₀ ms s) : PopWith t s₀ (ms ++ [m]) s' := by
  have hc := move_change hm
  by_cases ht : m.thread = t
  · obtain ⟨env, rfl, hfree, hturn⟩ := hc.of_entering ht h.waiting
    have hof := hs.of_eq_of_free h.waiting hfree
    rcases hturn.of_popWith with ⟨hitems, rfl⟩ | ⟨top, rest, hitems, rfl⟩
    · refine .misses env h hfree hitems (.start rfl hitems) (by simp [hof]) fun e => ?_
      simp [run?, popBuildPush, hitems]
    · exact .builds env h hfree hitems (.start rfl hitems) (by simpa using h) hfree rfl
  · exact .waits (h.other hm ht)

theorem Held.other {items : List α} (h : Held t items ms s) (ht : m.thread ≠ t) : Held t items (ms ++ [m]) s' := by
  obtain ⟨hidle, hitems, hmutex⟩ := hs.idle_of_held h.holder (move_change hm) ht
  exact h.next hidle hitems hmutex

theorem PopWith.next (h : PopWith t s₀ ms s) (hopen : m ≠ .collect t) : PopWith t s₀ (ms ++ [m]) s' := by
  have hc := move_change hm
  by_cases ht : m.thread = t
  · cases h with
    | waits h => exact h.next hs hm
    | misses env hwaits hfree hitems hheld hof hatomic =>
      exact (PopWith.misses env hwaits hfree hitems hheld hof hatomic).leaves hm ht hof
    | @builds ms during _ s₁ _ env top rest hwaits hfree hitems hheld hwaits₁ hfree₁ heq =>
      have hof := hs.of_eq (p := .building top) (t := t) (by simp [heq, shown]) nofun
      rcases hc.of_building ht (Calls.current?_eq_of_cons hof) with ⟨r, rfl, rfl⟩ | ⟨e, rfl, rfl⟩
      · refine .reenters (.builds env hwaits hfree hitems hheld hwaits₁ hfree₁ heq) hof ?_ (by simp [hof])
        exact .start hheld.holder rfl
      · rw [snoc_cons]
        have hitems₁ : s₁.items = top :: rest := by
          rw [← hheld.items, heq]
          rfl
        refine .ends env e hwaits hfree hitems hheld.idle (.start hheld.holder ?_) (by simp [hof]) hwaits₁ hfree₁ ?_
        · exact congrArg e.items hheld.items
        · rw [heq, shown_end hitems₁]
          rfl
    | reenters h hof₀ hheld hof =>
      obtain ⟨env, -, hfree', -⟩ := hc.of_entering ht (Calls.current?_eq_of_cons hof)
      rw [hheld.holder] at hfree'
      cases hfree'
    | ends env e hwaits hfree hitems hduring hheld hof hwaits₁ hfree₁ hatomic =>
      exact (PopWith.ends env e hwaits hfree hitems hduring hheld hof hwaits₁ hfree₁ hatomic).leaves hm ht hof
    | returns env h hp hstep hitems hready hrun hothers hof =>
      exact absurd (hc.of_returned ht (Calls.current?_eq_of_cons hof)) hopen
  · have hof' := hc.others ht
    cases h with
    | waits h => exact h.next hs hm
    | misses env hwaits hfree hitems hheld hof hatomic =>
      rw [snoc_cons]
      refine .misses env hwaits hfree hitems (hheld.other hs hm ht) (hof'.trans hof) fun e => ?_
      rw [run?_append, hatomic e]
      exact hm
    | builds env hwaits hfree hitems hheld hwaits₁ hfree₁ heq =>
      rw [snoc_cons]
      subst heq
      obtain ⟨s₂, hm₂, rfl, hitems₂, hmutex₂⟩ := shown_move hs ht hm
      refine .builds env hwaits hfree hitems (hheld.other hs hm ht) ?_ (hmutex₂ ▸ hfree₁) rfl
      rw [← List.append_assoc]
      exact hwaits₁.other hm₂ ht
    | reenters h hof₀ hheld hof =>
      rw [snoc_cons]
      exact .reenters h hof₀ (hheld.other hs hm ht) (hof'.trans hof)
    | ends env e hwaits hfree hitems hduring hheld hof hwaits₁ hfree₁ hatomic =>
      rw [snoc_cons, snoc_cons]
      refine .ends env e hwaits hfree hitems hduring (hheld.other hs hm ht) (hof'.trans hof) hwaits₁ hfree₁ ?_
      rw [run?_append, hatomic]
      exact hm
    | returns env h hp hstep hitems hready hrun hothers hof =>
      rw [snoc_cons]
      refine .returns env h hp hstep hitems hready ?_ (forall_mem_snoc hothers ht) (hof'.trans hof)
      rw [run?_append, hrun]
      exact hm

end

/-! ## Whole runs -/

theorem PopWith.run {s₀ s s' : Stack α} {t : ThreadId} {ms ms' : List (Move α)} (h : PopWith t s₀ ms s)
    (hs : s.Sound) (hrun : run? move? s ms' = some s') (hopen : .collect t ∉ ms') :
    PopWith t s₀ (ms ++ ms') s' := by
  induction ms' generalizing ms s with
  | nil =>
    cases hrun
    rwa [List.append_nil]
  | cons m ms' ih =>
    obtain ⟨s₁, hm, hrun⟩ := Option.bind_eq_some_iff.mp hrun
    obtain ⟨hne, hopen⟩ : .collect t ≠ m ∧ .collect t ∉ ms' := by simpa [not_or] using hopen
    have := ih (h.next hs hm hne.symm) (hs.change (move_change hm)) hrun hopen
    rwa [List.append_assoc] at this

/-- **A pop with a builder builds before it removes.** Take any run of any threads from where the call is made to
any time before its answer is picked up. The call gets the mutex at most once. If the stack is empty then, no
builder runs. Else the builder runs once and sees the top of that moment; till the call leaves the stack nobody
else gets the mutex, and calls are only made and answers picked up; the elements are those that the builder began
with, but for the top where something was built; and the state is the one to which the moves of the others lead if
they come first and then the top is popped, built from and pushed back on failure, all at once. The call answers
what the builder came to, and leaves the mutex free to whoever waits. A builder may end in any way; a call that
has done its work can leave, and has its answer then. -/
theorem pop_with_builds_before_removing {init : List α} {s s₀ s' : Stack α} {t : ThreadId} {ms : List (Move α)}
    (hr : s.Reachable init) (hcall : s.start? t .popWith = some s₀) (hrun : run? move? s₀ ms = some s')
    (hopen : .collect t ∉ ms) :
    PopWith t s₀ ms s' ∧
    (∀ top, s'.calls.current? t = some (.building top) → ∀ e, (s'.end? t e).isSome) ∧
    ∀ panicking a, s'.calls.current? t = some (.leaving panicking a) →
      ∀ env, ∃ s₁, s'.step? env t = some s₁ ∧ s₁.answer? t = some a := by
  have hm : s.move? (.start t .popWith) = some s₀ := hcall
  have hs := hr.sound.change (move_change hm)
  have hwaiting : s₀.calls.current? t = some (.entering .popWith) := by
    cases start_change hcall with
    | starts _ _ ht => simp
  have hcourse : PopWith t s₀ [] s₀ := .waits ⟨rfl, nofun, hwaiting⟩
  refine ⟨hcourse.run hs hrun hopen, fun top hp e => ?_, fun panicking a hp env => ?_⟩
  · simp [end?, hp]
  · have hleave : s'.step? env t = some ({ s' with mutex := s'.mutex.release panicking }.into t (.returned a)) := by
      simp only [step?, hp]
    exact ⟨_, hleave, by simp [answer?]⟩

/-- While the builder of the first thread runs, two others make calls. It panics, the second thread takes the
element that the builder saw, and the builder of the third sees the next one. -/
def panicsWhileOthersWait : List (Move Nat) :=
  [.start 2 .pop, .step 1 default, .start 3 .popWith, .finish 1 (.panicked "no"), .start 4 .len, .step 1 default,
    .step 2 default, .step 2 default, .collect 2, .step 3 default]

theorem pop_with_builds_before_removing_panics_while_others_wait : ∃ s₀ s' : Stack Nat,
    (ofList [1, 2]).start? 1 .popWith = some s₀ ∧ run? move? s₀ panicsWhileOthersWait = some s' ∧
    PopWith 1 s₀ panicsWhileOthersWait s' ∧ s'.answer? 1 = some (.panicked "no") ∧ s'.items = [1] ∧
    s'.top? 3 = some 1 ∧ ∀ e, (s'.end? 3 e).isSome := by
  obtain ⟨s₀, s', hcall, hrun, hanswer, hitems, htop⟩ : ∃ s₀ s' : Stack Nat,
      (ofList [1, 2]).start? 1 .popWith = some s₀ ∧ run? move? s₀ panicsWhileOthersWait = some s' ∧
      s'.answer? 1 = some (.panicked "no") ∧ s'.items = [1] ∧ s'.calls.current? 3 = some (.building 1) :=
    ⟨_, _, rfl, rfl, rfl, rfl, rfl⟩
  have hopen (t : ThreadId) (ht : t ≠ 2) : .collect t ∉ panicsWhileOthersWait := by
    simp [panicsWhileOthersWait, ht]
  obtain ⟨hcourse, -⟩ := pop_with_builds_before_removing .refl hcall hrun (hopen 1 (by decide))
  exact ⟨s₀, s', hcall, hrun, hcourse, hanswer, hitems, by simp [top?, htop], fun e => by simp [end?, htop]⟩

end Interlock.Stack
