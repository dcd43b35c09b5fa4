import Interlock.Proofs.Copies.Alone
import Interlock.Proofs.Exhaustion.Queues
import Interlock.Proofs.Exhaustion.Stacks

/-!
# A call that copies

A clone of a queue or a stack and a take of a queue wait for the mutex, read the elements in the step in which they get
it, and then let it go. In this step a take empties the queue. Otherwise the collection `without` the call is the same
before and after each step of the call, and goes on under the moves of other threads as it would alone.
-/

namespace Interlock

variable {α : Type}

namespace Queue

def Request.copies : Request α → Bool
  | .clone => true
  | .take => true
  | _ => false

/-- The elements that a call that copies these leaves in the queue. -/
def Request.leaves : Request α → List α → List α
  | .take, _ => []
  | _, items => items

section
variable {q q' : Queue α} {t u : ThreadId} {p : Phase α} {m : Move α}

/-- What another thread does it can do without the call, too, and to the same effect. -/
theorem move?_without (hs : q.Sound) (h : q.move? m = some q') (hne : m.thread ≠ t)
    (hp : q.calls.current? t = some p) (hawake : ∀ r, p ≠ .asleep r) :
    (q.without t p).move? m = some (q'.without t p) := by
  have hcurrent {u : ThreadId} (hu : u ≠ t) : (q.without t p).calls.current? u = q.calls.current? u :=
    Calls.current?_finish_of_ne hu q.calls
  have inCalls {c c' : Calls (Phase α)} (hc : c = c') :
      some ({ q.without t p with calls := c } : Queue α) = some { q.without t p with calls := c' } := by rw [hc]
  cases m with
  | step u env =>
    have hm := hasMutex_of_step hs h hne hp
    rw [without_eq_collect hm, without_eq_collect hm]
    exact (step?_collect hne hs.single hp hawake env).trans (congrArg (Option.map (·.collect t)) h)
  | start u r =>
    have hut : u ≠ t := hne
    cases move_change h with
    | starts _ _ hu =>
      simp only [move?, start?, hcurrent hut, hu]
      exact inCalls (Calls.finish_start hut ..).symm
  | wake u =>
    have hut : u ≠ t := hne
    cases move_change h with
    | wakes hu =>
      simp only [move?, wake?, hcurrent hut, hu]
      exact inCalls (Calls.finish_move hut ..).symm
  | collect u =>
    have hut : u ≠ t := hne
    cases move_change h with
    | collects hu =>
      simp only [move?, answer?, hcurrent hut, hu, Option.map_some]
      exact inCalls (Calls.finish_finish hut _).symm

theorem answer?_without (hu : u ≠ t) (q : Queue α) (p : Phase α) : (q.without t p).answer? u = q.answer? u := by
  rw [answer?, answer?, show (q.without t p).calls.current? u = _ from Calls.current?_finish_of_ne hu q.calls]

/-- What a thread does that is in a call and not asleep, until it takes the answer. -/
theorem Change.own (hc : q.Change m q') (ht : m.thread = t) (hp : q.calls.current? t = some p)
    (hawake : ∀ r, p ≠ .asleep r) (hopen : m ≠ .collect t) : ∃ env, m = .step t env := by
  subst ht
  cases hc with
  | starts u r hu => cases hp.symm.trans hu
  | acts env _ _ _ => exact ⟨env, rfl⟩
  | leaves env _ => exact ⟨env, rfl⟩
  | @wakes u r hu => exact absurd (Option.some.inj (hp.symm.trans hu)) (hawake r)
  | collects _ => exact absurd rfl hopen

/-- The step in which a call that copies gets the mutex. -/
theorem step?_copies {r : Request α} {env : Environment} (hr : r.copies = true)
    (hp : q.calls.current? t = some (.entering r)) (h : q.step? env t = some q') :
    q.mutex.holder = none ∧ q'.mutex.holder = some t ∧ q'.calls.current? t = some (.leaving (.contents q.items)) ∧
      q'.without t (.leaving (.contents q.items)) = { q.without t (.entering r) with items := r.leaves q.items } := by
  simp only [step?, hp] at h
  obtain ⟨m, hm, rfl⟩ := Option.map_eq_some_iff.mp h
  have hback : m.letGo true = q.mutex := Mutex.letGo_acquired hm
  obtain ⟨hfree, hheld⟩ := Mutex.acquire?_eq_some hm
  let a := Answer.contents q.items
  have hwithout (items : List α) :
      (({ q with items, mutex := m } : Queue α).into t (.leaving a)).without t (.leaving a) =
        { q.without t (.entering r) with items } := by
    rw [without, mutex_into, calls_into, Calls.finish_move_self]
    exact congrArg (Queue.mk items · (q.calls.finish t)) hback
  cases r with
  | clone => exact ⟨hfree, by simp [act, hheld], by simp [act], hwithout q.items⟩
  | take => exact ⟨hfree, by simp [act, hheld], by simp [act], hwithout []⟩
  | _ => cases hr

/-- Letting the mutex go the thread leaves the queue without the call as it is. -/
theorem step?_leaving {a : Answer α} {env : Environment} (hp : q.calls.current? t = some (.leaving a))
    (h : q.step? env t = some q') :
    q'.calls.current? t = some (.returned a) ∧ q'.without t (.returned a) = q.without t (.leaving a) := by
  simp only [step?, hp] at h
  obtain rfl := Option.some.inj h
  refine ⟨by simp, ?_⟩
  rw [without, mutex_into, calls_into, Calls.finish_move_self]
  rfl

end

end Queue

namespace Stack

section
variable {s s' : Stack α} {t u : ThreadId} {p : Phase α} {m : Move α}

theorem move?_without (hs : s.Sound) (h : s.move? m = some s') (hne : m.thread ≠ t)
    (hp : s.calls.current? t = some p) : (s.without t p).move? m = some (s'.without t p) := by
  have hcurrent {u : ThreadId} (hu : u ≠ t) : (s.without t p).calls.current? u = s.calls.current? u :=
    Calls.current?_finish_of_ne hu s.calls
  have inCalls {c c' : Calls (Phase α)} (hc : c = c') :
      some ({ s.without t p with calls := c } : Stack α) = some { s.without t p with calls := c' } := by rw [hc]
  cases m with
  | step u env =>
    have hm := hasMutex_of_others hs (move_change h) hne (.inl ⟨env, rfl⟩) hp
    rw [without_eq_collect hm, without_eq_collect hm]
    exact (step?_collect hne env s).trans (congrArg (Option.map (·.collect t)) h)
  | finish u e =>
    have hm := hasMutex_of_others hs (move_change h) hne (.inr ⟨e, rfl⟩) hp
    rw [without_eq_collect hm, without_eq_collect hm]
    exact (end?_collect hne e s).trans (congrArg (Option.map (·.collect t)) h)
  | start u r =>
    have hut : u ≠ t := hne
    have begun : start? (s.without t p) u r = (start? s u r).map (·.without t p) := by
      simp only [start?, hcurrent hut]
      have := inCalls (Calls.finish_start hut s.calls (.entering r)).symm
      split
      · exact this
      · exact this
      · rfl
    exact begun.trans (congrArg (Option.map (·.without t p)) h)
  | collect u =>
    have hut : u ≠ t := hne
    cases move_change h with
    | collects hu =>
      simp only [move?, answer?, hcurrent hut, hu, Option.map_some]
      exact inCalls (Calls.finish_finish hut _).symm

theorem answer?_without (hu : u ≠ t) (s : Stack α) (p : Phase α) : (s.without t p).answer? u = s.answer? u := by
  rw [answer?, answer?, show (s.without t p).calls.current? u = _ from Calls.current?_finish_of_ne hu s.calls]

theorem top?_without (hu : u ≠ t) (s : Stack α) (p : Phase α) : (s.without t p).top? u = s.top? u := by
  rw [top?, top?, show (s.without t p).calls.current? u = _ from Calls.current?_finish_of_ne hu s.calls]

theorem step?_clone {env : Environment} (hp : s.calls.current? t = some (.entering .clone))
    (h : s.step? env t = some s') :
    s.mutex.holder = none ∧ s'.mutex.holder = some t ∧ s'.calls.current? t = some (.leaving false (.contents s.items)) ∧
      s'.without t (.leaving false (.contents s.items)) = s.without t (.entering .clone) := by
  simp only [step?, hp] at h
  obtain ⟨m, hm, rfl⟩ := Option.map_eq_some_iff.mp h
  have hback : m.letGo true = s.mutex := Mutex.letGo_acquired hm
  obtain ⟨hfree, hheld⟩ := Mutex.acquire?_eq_some hm
  refine ⟨hfree, by simp [act, hheld], by simp [act], ?_⟩
  simp only [act, without, mutex_into, calls_into, Calls.finish_move_self]
  exact congrArg (Stack.mk s.items · (s.calls.finish t)) hback

theorem step?_leaving {a : Answer α} {env : Environment} (hp : s.calls.current? t = some (.leaving false a))
    (h : s.step? env t = some s') :
    s'.calls.current? t = some (.returned a) ∧ s'.without t (.returned a) = s.without t (.leaving false a) := by
  simp only [step?, hp] at h
  obtain rfl := Option.some.inj h
  refine ⟨by simp, ?_⟩
  rw [without, mutex_into, calls_into, Calls.finish_move_self]
  rfl

end

end Stack

namespace World

/-- The calls that copy a queue or a stack. -/
def Call.copies : Call α → Bool
  | .queue _ r => r.copies
  | .stack _ .clone => true
  | _ => false

namespace Collection

/-! ## Phases of a call -/

inductive Phase (α : Type) where
  | queue (p : Queue.Phase α)
  | stack (p : Stack.Phase α)

def current? (c : Collection α) (t : ThreadId) : Option (Phase α) :=
  match c with
  | .queue q => (q.calls.current? t).map .queue
  | .stack s => (s.calls.current? t).map .stack

def holder? : Collection α → Option ThreadId
  | .queue q => q.mutex.holder
  | .stack s => s.mutex.holder

/-- The answer to a call that copies the collection as it is. -/
def contents : Collection α → Answer α
  | .queue q => .queue (.contents q.items)
  | .stack s => .stack (.contents s.items)

/-- The threads that are asleep in the collection, the one that called first in front. -/
def sleepers : Collection α → List ThreadId
  | .queue q => q.sleepers
  | .stack _ => []

/-- What a call that copies leaves of the collection. -/
def leftBy : Collection α → Call α → Collection α
  | .queue q, .queue _ r => .queue { q with items := r.leaves q.items }
  | c, _ => c

/-- The collection without the mutex that a call of the thread in this phase has in hand, and without the call. -/
def without : Collection α → ThreadId → Phase α → Collection α
  | .queue q, t, .queue p => .queue (q.without t p)
  | .stack s, t, .stack p => .stack (s.without t p)
  | c, _, _ => c

def Sound : Collection α → Prop
  | .queue q => q.Sound
  | .stack s => s.Sound

/-- The call waits for the mutex. -/
inductive Phase.Waits : Call α → Phase α → Prop
  | queue (i : Nat) {r : Queue.Request α} : r.copies = true → Waits (.queue i r) (.queue (.entering r))
  | stack (i : Nat) : Waits (.stack i .clone) (.stack (.entering .clone))

/-- The call has this answer. -/
inductive Phase.Has : Answer α → Phase α → Prop
  | queueLeaving (a : Queue.Answer α) : Has (.queue a) (.queue (.leaving a))
  | queueReturned (a : Queue.Answer α) : Has (.queue a) (.queue (.returned a))
  | stackLeaving (a : Stack.Answer α) : Has (.stack a) (.stack (.leaving false a))
  | stackReturned (a : Stack.Answer α) : Has (.stack a) (.stack (.returned a))

/-- The phases in which a call that copies can be. -/
def Phase.Copies (p : Phase α) : Prop := (∃ call, Waits call p) ∨ ∃ a, Has a p

section
variable {c c' : Collection α} {t : ThreadId} {p : Phase α} {m : Move α} {call : Call α} {a : Answer α}

theorem current?_eq_queue {p : Queue.Phase α} (h : c.current? t = some (.queue p)) :
    ∃ q, c = .queue q ∧ q.calls.current? t = some p := by
  cases c with
  | queue q =>
    obtain ⟨_, hp, he⟩ := Option.map_eq_some_iff.mp h
    exact ⟨q, rfl, Phase.queue.inj he ▸ hp⟩
  | stack s =>
    obtain ⟨_, -, he⟩ := Option.map_eq_some_iff.mp h
    cases he

theorem current?_eq_stack {p : Stack.Phase α} (h : c.current? t = some (.stack p)) :
    ∃ s, c = .stack s ∧ s.calls.current? t = some p := by
  cases c with
  | queue q =>
    obtain ⟨_, -, he⟩ := Option.map_eq_some_iff.mp h
    cases he
  | stack s =>
    obtain ⟨_, hp, he⟩ := Option.map_eq_some_iff.mp h
    exact ⟨s, rfl, Phase.stack.inj he ▸ hp⟩

theorem move?_queue {q : Queue α} (h : (Collection.queue q).move? m = some c') :
    ∃ n q', m.onQueue? = some n ∧ q.move? n = some q' ∧ c' = .queue q' := by
  obtain ⟨q', hq', rfl⟩ := Option.map_eq_some_iff.mp h
  obtain ⟨n, hn, hq'⟩ := Option.bind_eq_some_iff.mp hq'
  exact ⟨n, q', hn, hq', rfl⟩

/-- A move of a stack alone, or a look at its top. -/
theorem move?_stack {s : Stack α} (h : (Collection.stack s).move? m = some c') :
    (∃ u v, m = .look u ∧ s.top? u = some v ∧ c' = .stack s) ∨
      ∃ n s', m.onStack? = some n ∧ s.move? n = some s' ∧ c' = .stack s' := by
  cases m with
  | look u =>
    obtain ⟨v, hv, rfl⟩ := Option.map_eq_some_iff.mp h
    exact .inl ⟨u, v, rfl, hv, rfl⟩
  | _ =>
    simp only [move?, Option.map_eq_some_iff, Option.bind_eq_some_iff] at h
    obtain ⟨s', ⟨n, hn, hs'⟩, rfl⟩ := h
    exact .inr ⟨n, s', hn, hs', rfl⟩

theorem move?_of_onStack {s : Stack α} {n : Stack.Move α} (hn : m.onStack? = some n) :
    (Collection.stack s).move? m = (s.move? n).map .stack := by
  cases m with
  | look u => cases hn
  | _ => simp only [move?, hn, Option.bind_some]

theorem Sound.move (hs : c.Sound) (h : c.move? m = some c') : c'.Sound := by
  cases c with
  | queue q =>
    obtain ⟨n, q', -, hq', rfl⟩ := move?_queue h
    exact Queue.Sound.change hs (Queue.move_change hq')
  | stack s =>
    obtain ⟨u, v, rfl, -, rfl⟩ | ⟨n, s', -, hs', rfl⟩ := move?_stack h
    · exact hs
    · exact Stack.Sound.change hs (Stack.move_change hs')

theorem Phase.Copies.awake (hp : p.Copies) (r : Queue.Request α) : p ≠ .queue (.asleep r) := by
  rintro rfl
  obtain ⟨call, h⟩ | ⟨a, h⟩ := hp <;> cases h

/-! ## Other threads -/

/-- What another thread does it can do without the call, too, and to the same effect. -/
theorem others (hs : c.Sound) (h : c.move? m = some c') (hne : m.thread? ≠ some t) (hp : c.current? t = some p)
    (hcopies : p.Copies) :
    (c.without t p).move? m = some (c'.without t p) ∧ (c.without t p).report? m = c.report? m ∧
      c'.current? t = some p := by
  cases p with
  | queue p =>
    obtain ⟨q, rfl, hcur⟩ := current?_eq_queue hp
    obtain ⟨n, q', hn, hq', rfl⟩ := move?_queue h
    have hnt : n.thread ≠ t := fun he => hne ((thread?_onQueue hn).trans (congrArg some he))
    have hawake (r : Queue.Request α) : p ≠ .asleep r := fun he => hcopies.awake r (congrArg Phase.queue he)
    refine ⟨?_, ?_, congrArg (Option.map Phase.queue) (Queue.current?_others hs hq' hnt hcur hawake)⟩
    · simp only [without, move?, hn, Option.bind_some, Queue.move?_without hs hq' hnt hcur hawake, Option.map_some]
    · cases m with
      | collect u => simp only [without, report?, Queue.answer?_without fun he => hne (congrArg some he)]
      | _ => rfl
  | stack p =>
    obtain ⟨s, rfl, hcur⟩ := current?_eq_stack hp
    have hreport : ((Collection.stack s).without t (.stack p)).report? m = (Collection.stack s).report? m := by
      cases m with
      | collect u => simp only [without, report?, Stack.answer?_without fun he => hne (congrArg some he)]
      | look u => simp only [without, report?, Stack.top?_without fun he => hne (congrArg some he)]
      | _ => rfl
    obtain ⟨u, v, rfl, hv, rfl⟩ | ⟨n, s', hn, hs', rfl⟩ := move?_stack h
    · refine ⟨?_, hreport, hp⟩
      simp only [without, move?, Stack.top?_without fun he => hne (congrArg some he), hv, Option.map_some]
    · have hnt : n.thread ≠ t := fun he => hne ((thread?_onStack hn).trans (congrArg some he))
      have hcur' := (Stack.current?_others (Stack.move_change hs') hnt).trans hcur
      refine ⟨?_, hreport, congrArg (Option.map Phase.stack) hcur'⟩
      simp only [without, move?_of_onStack hn, Stack.move?_without hs hs' hnt hcur, Option.map_some]

/-! ## The call itself -/

theorem of_onQueue {n : Queue.Move α} (hn : m.onQueue? = some n) :
    (∀ u env, n = .step u env → m = .step u env) ∧ ∀ u, n = .collect u → m = .collect u := by
  unfold Move.onQueue? at hn
  split at hn <;> cases hn <;> simp

theorem of_onStack {n : Stack.Move α} (hn : m.onStack? = some n) :
    (∀ u env, n = .step u env → m = .step u env) ∧ ∀ u, n = .collect u → m = .collect u := by
  unfold Move.onStack? at hn
  split at hn <;> cases hn <;> simp

section
variable (ht : m.thread? = some t) (hopen : m ≠ .collect t)
include ht hopen

theorem own_queue {q : Queue α} {p : Queue.Phase α} (h : (Collection.queue q).move? m = some c')
    (hcur : q.calls.current? t = some p) (hawake : ∀ r, p ≠ .asleep r) :
    ∃ env q', m = .step t env ∧ q.step? env t = some q' ∧ c' = .queue q' := by
  obtain ⟨n, q', hn, hq', rfl⟩ := move?_queue h
  have hnt : n.thread = t := Option.some.inj ((thread?_onQueue hn).symm.trans ht)
  obtain ⟨env, rfl⟩ := (Queue.move_change hq').own hnt hcur hawake fun he => hopen ((of_onQueue hn).2 t he)
  exact ⟨env, q', (of_onQueue hn).1 t env rfl, hq', rfl⟩

theorem own_stack {s : Stack α} {p : Stack.Phase α} (h : (Collection.stack s).move? m = some c')
    (hcur : s.calls.current? t = some p) (hsilent : ∀ top, p ≠ .building top) :
    ∃ env s', m = .step t env ∧ s.step? env t = some s' ∧ c' = .stack s' := by
  obtain ⟨u, v, rfl, hv, rfl⟩ | ⟨n, s', hn, hs', rfl⟩ := move?_stack h
  · obtain rfl : u = t := Option.some.inj ht
    rw [Stack.top?, hcur] at hv
    cases p with
    | building top => exact absurd rfl (hsilent top)
    | _ => cases hv
  · have hnt : n.thread = t := Option.some.inj ((thread?_onStack hn).symm.trans ht)
    have hstep : ∃ env, n = .step t env := by
      cases p with
      | entering r =>
        obtain ⟨env, he, -⟩ := (Stack.move_change hs').of_entering hnt hcur
        exact ⟨env, he⟩
      | building top => exact absurd rfl (hsilent top)
      | leaving b a =>
        obtain ⟨env, he, -⟩ := (Stack.move_change hs').of_leaving hnt hcur
        exact ⟨env, he⟩
      | returned a => exact absurd ((of_onStack hn).2 t ((Stack.move_change hs').of_returned hnt hcur)) hopen
    obtain ⟨env, rfl⟩ := hstep
    exact ⟨env, s', (of_onStack hn).1 t env rfl, hs', rfl⟩

/-- The step in which a call that copies gets the mutex. -/
theorem own_waits (h : c.move? m = some c') (hp : c.current? t = some p) (hw : Phase.Waits call p) :
    ∃ env p', m = .step t env ∧ c.holder? = none ∧ c'.holder? = some t ∧ c'.current? t = some p' ∧
      Phase.Has c.contents p' ∧ c'.without t p' = (c.without t p).leftBy call := by
  cases hw with
  | @queue i r hr =>
    obtain ⟨q, rfl, hcur⟩ := current?_eq_queue hp
    obtain ⟨env, q', hm, hq', rfl⟩ := own_queue ht hopen h hcur nofun
    obtain ⟨hfree, hheld, hcur', hwithout⟩ := Queue.step?_copies hr hcur hq'
    exact ⟨env, _, hm, hfree, hheld, congrArg (Option.map Phase.queue) hcur', .queueLeaving _, congrArg queue hwithout⟩
  | stack i =>
    obtain ⟨s, rfl, hcur⟩ := current?_eq_stack hp
    obtain ⟨env, s', hm, hs', rfl⟩ := own_stack ht hopen h hcur nofun
    obtain ⟨hfree, hheld, hcur', hwithout⟩ := Stack.step?_clone hcur hs'
    exact ⟨env, _, hm, hfree, hheld, congrArg (Option.map Phase.stack) hcur', .stackLeaving _, congrArg stack hwithout⟩

/-- Nothing is left to do but to take the answer. -/
theorem not_returned_queue {q : Queue α} {a : Queue.Answer α} (h : (Collection.queue q).move? m = some c')
    (hcur : q.calls.current? t = some (.returned a)) : False := by
  obtain ⟨env, q', hm, hq', hc⟩ := own_queue ht hopen h hcur nofun
  simp [Queue.step?, hcur] at hq'

theorem not_returned_stack {s : Stack α} {a : Stack.Answer α} (h : (Collection.stack s).move? m = some c')
    (hcur : s.calls.current? t = some (.returned a)) : False := by
  obtain ⟨env, s', hm, hs', hc⟩ := own_stack ht hopen h hcur nofun
  simp [Stack.step?, hcur] at hs'

theorem own_has (h : c.move? m = some c') (hp : c.current? t = some p) (ha : Phase.Has a p) :
    ∃ env p', m = .step t env ∧ c'.current? t = some p' ∧ Phase.Has a p' ∧ c'.without t p' = c.without t p := by
  cases ha with
  | queueLeaving a =>
    obtain ⟨q, rfl, hcur⟩ := current?_eq_queue hp
    obtain ⟨env, q', hm, hq', rfl⟩ := own_queue ht hopen h hcur nofun
    obtain ⟨hcur', hwithout⟩ := Queue.step?_leaving hcur hq'
    exact ⟨env, _, hm, congrArg (Option.map Phase.queue) hcur', .queueReturned a, congrArg queue hwithout⟩
  | queueReturned a =>
    obtain ⟨q, rfl, hcur⟩ := current?_eq_queue hp
    exact (not_returned_queue ht hopen h hcur).elim
  | stackLeaving a =>
    obtain ⟨s, rfl, hcur⟩ := current?_eq_stack hp
    obtain ⟨env, s', hm, hs', rfl⟩ := own_stack ht hopen h hcur nofun
    obtain ⟨hcur', hwithout⟩ := Stack.step?_leaving hcur hs'
    exact ⟨env, _, hm, congrArg (Option.map Phase.stack) hcur', .stackReturned a, congrArg stack hwithout⟩
  | stackReturned a =>
    obtain ⟨s, rfl, hcur⟩ := current?_eq_stack hp
    exact (not_returned_stack ht hopen h hcur).elim

end

end

/-! ## The whole call -/

/-- What is not of the thread. -/
def besides (t : ThreadId) (log : Log α) : Log α := log.filter fun e => e.1.thread? ≠ some t

/-- The call gets the mutex in this state, when nobody has it, and goes on to the next with it. -/
structure Seizes (t : ThreadId) (env : Environment) (now next : Collection α) : Prop where
  free : now.holder? = none
  step : now.Takes (.step t env, none) next
  held : next.holder? = some t

section
variable {c c' : Collection α} {t : ThreadId} {p : Phase α} {call : Call α} {a : Answer α} {log : Log α}

theorem besides_own {e : Move α × Option (Report α)} (he : e.1.thread? = some t) (log : Log α) :
    besides t (e :: log) = besides t log := by simp [besides, he]

theorem besides_other {e : Move α × Option (Report α)} (he : e.1.thread? ≠ some t) (log : Log α) :
    besides t (e :: log) = e :: besides t log := by simp [besides, he]

theorem report?_step (c : Collection α) (t : ThreadId) (env : Environment) : c.report? (.step t env) = none := by
  cases c <;> rfl

/-- From the step on in which the call got the mutex the others go on as without it. -/
theorem has_run (hs : c.Sound) (h : Trace Takes c log c') (hopen : ∀ e ∈ log, e.1 ≠ .collect t)
    (hp : c.current? t = some p) (ha : Phase.Has a p) :
    ∃ p', c'.current? t = some p' ∧ Phase.Has a p' ∧ Trace Takes (c.without t p) (besides t log) (c'.without t p') := by
  induction log generalizing c p with
  | nil =>
    obtain rfl := h
    exact ⟨p, hp, ha, rfl⟩
  | cons e log ih =>
    obtain ⟨c₁, ⟨hm, hr⟩, h⟩ := h
    have hopen' : ∀ e ∈ log, e.1 ≠ .collect t := fun e he => hopen e (List.mem_cons_of_mem _ he)
    by_cases he : e.1.thread? = some t
    · obtain ⟨env, p₁, -, hp₁, ha₁, hwithout⟩ := own_has he (hopen e List.mem_cons_self) hm hp ha
      rw [besides_own he, ← hwithout]
      exact ih (hs.move hm) h hopen' hp₁ ha₁
    · obtain ⟨hm', hr', hp₁⟩ := others hs hm he hp (.inr ⟨a, ha⟩)
      obtain ⟨p', hp', ha', trace⟩ := ih (hs.move hm) h hopen' hp₁ ha
      rw [besides_other he]
      exact ⟨p', hp', ha', _, ⟨hm', hr'.trans hr⟩, trace⟩

/-- A call that waits for the mutex still does, or has got it in one of its steps, and the others have done what they
could have done without it, before that step and after it. -/
theorem waits_run (hs : c.Sound) (h : Trace Takes c log c') (hopen : ∀ e ∈ log, e.1 ≠ .collect t)
    (hp : c.current? t = some p) (hw : Phase.Waits call p) :
    c'.current? t = some p ∨ ∃ before env after now next p', log = before ++ (.step t env, none) :: after ∧
      Trace Takes c before now ∧ Seizes t env now next ∧ Trace Takes next after c' ∧ now.current? t = some p ∧
      Trace Takes (c.without t p) (besides t before) (now.without t p) ∧ c'.current? t = some p' ∧
      Phase.Has now.contents p' ∧ Trace Takes ((now.without t p).leftBy call) (besides t after) (c'.without t p') := by
  induction log generalizing c with
  | nil =>
    obtain rfl := h
    exact .inl hp
  | cons e log ih =>
    obtain ⟨c₁, ⟨hm, hr⟩, h⟩ := h
    have hopen' : ∀ e ∈ log, e.1 ≠ .collect t := fun e he => hopen e (List.mem_cons_of_mem _ he)
    by_cases he : e.1.thread? = some t
    -- the first move of the thread is the step that gets the mutex, and from there on it has its answer
    · obtain ⟨env, p₁, hstep, hfree, hheld, hp₁, ha₁, hwithout⟩ := own_waits he (hopen e List.mem_cons_self) hm hp hw
      obtain ⟨p', hp', ha', trace⟩ := has_run (hs.move hm) h hopen' hp₁ ha₁
      obtain ⟨m, r⟩ := e
      obtain rfl : m = .step t env := hstep
      obtain rfl : r = none := hr.symm.trans (report?_step c t env)
      exact .inr ⟨[], env, log, c, c₁, p', rfl, rfl, ⟨hfree, ⟨hm, hr⟩, hheld⟩, h, hp, rfl, hp', ha', hwithout ▸ trace⟩
    · obtain ⟨hm', hr', hp₁⟩ := others hs hm he hp (.inl ⟨call, hw⟩)
      obtain hp' | ⟨before, env, after, now, next, p', rfl, until_, seizes, since, hnow, trace, rest⟩ :=
        ih (hs.move hm) h hopen' hp₁
      · exact .inl hp'
      · refine .inr ⟨e :: before, env, after, now, next, p', rfl, ⟨c₁, ⟨hm, hr⟩, until_⟩, seizes, since, hnow, ?_, rest⟩
        rw [besides_other he]
        exact ⟨_, ⟨hm', hr'.trans hr⟩, trace⟩

/-! ## From its start to its end -/

theorem started {c₁ : Collection α} (h : c.move? (.start t call) = some c₁) (hcopies : call.copies = true) :
    ∃ p, Phase.Waits call p ∧ c₁.current? t = some p ∧ c₁.without t p = c := by
  cases call with
  | queue i r =>
    refine ⟨.queue (.entering r), .queue i hcopies, ?_⟩
    cases c with
    | queue q =>
      obtain ⟨n, q', hn, hq', rfl⟩ := move?_queue h
      obtain rfl := Option.some.inj hn
      cases Queue.move_change hq' with
      | starts _ _ _ =>
        refine ⟨congrArg (Option.map Phase.queue) (if_pos rfl), congrArg queue ?_⟩
        rw [Queue.without_eq_collect rfl, Queue.collect, Calls.finish_start_self]
    | stack s => cases h
  | stack i r =>
    cases r with
    | clone =>
      refine ⟨.stack (.entering .clone), .stack i, ?_⟩
      cases c with
      | queue q => cases h
      | stack s =>
        obtain ⟨s', hs', rfl⟩ := Option.map_eq_some_iff.mp h
        cases Stack.start_change hs' with
        | starts _ _ _ =>
          refine ⟨congrArg (Option.map Phase.stack) (if_pos rfl), congrArg stack ?_⟩
          rw [Stack.without_eq_collect rfl, Stack.collect, Calls.finish_start_self]
    | _ => cases hcopies
  | _ => cases hcopies

/-- The answer is what the call has, and when it is taken the collection is as without the call. -/
theorem collected {a' : Answer α} (hp : c.current? t = some p) (ha : Phase.Has a p)
    (h : c.report? (.collect t) = some (.answer a')) : a' = a ∧ c.move? (.collect t) = some (c.without t p) := by
  cases ha with
  | queueLeaving a =>
    obtain ⟨q, rfl, hcur⟩ := current?_eq_queue hp
    simp [report?, Queue.answer?, hcur] at h
  | queueReturned a =>
    obtain ⟨q, rfl, hcur⟩ := current?_eq_queue hp
    have hanswer : q.answer? t = some a := by simp [Queue.answer?, hcur]
    simp only [report?, hanswer, Option.map_some, Option.some.injEq, Report.answer.injEq] at h
    refine ⟨h.symm, ?_⟩
    simp only [move?, Move.onQueue?, Option.bind_some, Queue.move?, hanswer, Option.map_some, without,
      Queue.without_eq_collect (p := .returned a) rfl]
  | stackLeaving a =>
    obtain ⟨s, rfl, hcur⟩ := current?_eq_stack hp
    simp [report?, Stack.answer?, hcur] at h
  | stackReturned a =>
    obtain ⟨s, rfl, hcur⟩ := current?_eq_stack hp
    have hanswer : s.answer? t = some a := by simp [Stack.answer?, hcur]
    simp only [report?, hanswer, Option.map_some, Option.some.injEq, Report.answer.injEq] at h
    refine ⟨h.symm, ?_⟩
    simp only [move?, Move.onStack?, Option.bind_some, Stack.move?, hanswer, Option.map_some, without,
      Stack.without_eq_collect (p := .returned a) rfl]

theorem unanswered (hp : c.current? t = some p) (hw : Phase.Waits call p) : c.report? (.collect t) = none := by
  cases hw with
  | queue i hr =>
    obtain ⟨q, rfl, hcur⟩ := current?_eq_queue hp
    simp [report?, Queue.answer?, hcur]
  | stack i =>
    obtain ⟨s, rfl, hcur⟩ := current?_eq_stack hp
    simp [report?, Stack.answer?, hcur]

theorem contents_without (c : Collection α) (t : ThreadId) (p : Phase α) : (c.without t p).contents = c.contents := by
  cases c <;> cases p <;> rfl

theorem sleepers_without (hp : c.current? t = some p) (hcopies : p.Copies) : (c.without t p).sleepers = c.sleepers := by
  cases p with
  | queue p =>
    obtain ⟨q, rfl, hcur⟩ := current?_eq_queue hp
    refine congrArg List.reverse (Calls.filterMap_finish hcur ?_)
    cases p with
    | asleep r => exact absurd rfl (hcopies.awake r)
    | _ => rfl
  | stack p =>
    obtain ⟨s, rfl, -⟩ := current?_eq_stack hp
    rfl

theorem sleepers_leftBy (c : Collection α) (call : Call α) : (c.leftBy call).sleepers = c.sleepers := by
  cases c <;> cases call <;> rfl

/-- The log is of a collection on which the thread makes the call, up to the answer. Once the thread has the mutex, and
only `rest` is still to come, the collection has the elements and the sleepers of `seen`, to which the moves of the
others alone would have led. -/
def Copied (t : ThreadId) (call : Call α) (c : Collection α) (log : Log α) (seen : Collection α)
    (rest : Log α) : Prop :=
  ∃ c₁ before env now next, c.move? (.start t call) = some c₁ ∧ log = before ++ (.step t env, none) :: rest ∧
    Trace Takes c₁ before now ∧ Seizes t env now next ∧ Trace Takes c (besides t before) seen ∧
    now.contents = seen.contents ∧ now.sleepers = seen.sleepers ∧ next.sleepers = seen.sleepers

theorem copied {c₁ c₂ : Collection α} (hs : c.Sound) (hcopies : call.copies = true)
    (hstart : c.move? (.start t call) = some c₁) (h : Trace Takes c₁ log c₂) (hopen : ∀ e ∈ log, e.1 ≠ .collect t)
    (ha : c₂.report? (.collect t) = some (.answer a)) :
    ∃ seen rest c₃, Copied t call c log seen rest ∧ a = seen.contents ∧ c₂.move? (.collect t) = some c₃ ∧
      Trace Takes (seen.leftBy call) (besides t rest) c₃ := by
  obtain ⟨p, hw, hp, rfl⟩ := started hstart hcopies
  obtain hp' | ⟨before, env, rest, now, next, p', rfl, until_, seizes, since, hnow, alone, hp', ha', trace⟩ :=
    waits_run (hs.move hstart) h hopen hp hw
  · rw [unanswered hp' hw] at ha
    cases ha
  · obtain ⟨rfl, hcollect⟩ := collected hp' ha' ha
    refine ⟨now.without t p, rest, _, ⟨c₁, before, env, now, next, hstart, rfl, until_, seizes, alone, ?_, ?_, ?_⟩,
      (contents_without now t p).symm, hcollect, trace⟩
    · exact (contents_without now t p).symm
    · exact (sleepers_without hnow (.inl ⟨call, hw⟩)).symm
    · obtain ⟨_, p₁, -, -, -, hp₁, ha₁, hwithout⟩ := own_waits (m := .step t env) rfl nofun seizes.step.1 hnow hw
      rw [← sleepers_without hp₁ (.inr ⟨_, ha₁⟩), hwithout, sleepers_leftBy]

end

end Collection

end World

end Interlock
