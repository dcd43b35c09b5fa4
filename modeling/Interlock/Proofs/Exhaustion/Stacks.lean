import Interlock.Proofs.Related
import Interlock.Proofs.Stack.Building

/-!
# A stack without a call that finds no room

As for a queue: the stack `without` a call that asks for room is the same before and after each step of the call, until
it is granted more than room, and goes on under the calls and builders of other threads as they would alone.
-/

namespace Interlock.Stack

variable {α : Type} {only : Bool} {gone : Option ThreadId} {t u : ThreadId} {env : Environment}

def Request.asksRoom (only : Bool) : Request α → Bool
  | .push _ => !only
  | .reserve _ => true
  | _ => false

def Answer.spares (only : Bool) : Answer α → Bool
  | .exhausted _ => true
  | _ => only

/-- The phases of a call that asks for room and has changed nothing so far. -/
def Phase.spares (only : Bool) : Phase α → Bool
  | .entering r => r.asksRoom only
  | .leaving panicking a => !panicking && a.spares only
  | .returned a => a.spares only
  | _ => false

/-- The phases of a call that has an answer of another kind. -/
def Phase.differs (only : Bool) : Phase α → Bool
  | .leaving _ a => !a.spares only
  | .returned a => !a.spares only
  | _ => false

def Differs (only : Bool) (s : Stack α) (t : ThreadId) : Prop :=
  ∃ p, s.calls.current? t = some p ∧ p.differs only = true

/-- The stack without the mutex that a call of the thread in this phase has in hand, and without the call. -/
def without (s : Stack α) (t : ThreadId) (p : Phase α) : Stack α :=
  { s with mutex := s.mutex.letGo p.hasMutex, calls := s.calls.finish t }

/-- The second stack is the first without the call of the thread, which has changed nothing so far. -/
inductive Without (only : Bool) : Option ThreadId → Stack α → Stack α → Prop
  | same (s : Stack α) : Without only none s s
  | but {t : ThreadId} {p : Phase α} {s : Stack α} (hp : s.calls.current? t = some p) (spared : p.spares only = true) :
      Without only (some t) s (s.without t p)

section
variable {s s' s₀ : Stack α} {p : Phase α} {r : Request α}

theorem without_eq_collect (hm : p.hasMutex = false) : s.without t p = s.collect t := by
  rw [without, hm]
  rfl

/-! ## Other threads -/

theorem into_collect (hu : u ≠ t) (s : Stack α) (p : Phase α) : (s.collect t).into u p = (s.into u p).collect t := by
  simp only [into, collect, Calls.finish_move hu]

theorem act_collect (hu : u ≠ t) (env : Environment) (s : Stack α) (r : Request α) :
    act env u (s.collect t) r = (act env u s r).collect t := by
  have hitems : (s.collect t).items = s.items := rfl
  have moved (items : List α) (p : Phase α) : Stack.into ⟨items, s.mutex, s.calls.finish t⟩ u p =
      (Stack.into ⟨items, s.mutex, s.calls⟩ u p).collect t := into_collect hu ⟨items, s.mutex, s.calls⟩ p
  cases r with
  | push v =>
    simp only [act, hitems]
    cases env.array s.items.length 1 <;> exact moved _ _
  | reserve n =>
    simp only [act, hitems]
    cases env.array s.items.length n <;> exact moved _ _
  | pop =>
    simp only [act, hitems]
    cases s.items <;> exact moved _ _
  | popInto out =>
    simp only [act, hitems]
    cases s.items <;> exact moved _ _
  | popWith =>
    simp only [act, hitems]
    cases s.items <;> exact moved _ _
  | _ => exact moved _ _

theorem step?_collect (hu : u ≠ t) (env : Environment) (s : Stack α) :
    (s.collect t).step? env u = (s.step? env u).map (·.collect t) := by
  have hcurrent : (s.collect t).calls.current? u = s.calls.current? u := Calls.current?_finish_of_ne hu s.calls
  unfold step?
  rw [hcurrent]
  cases s.calls.current? u with
  | none => rfl
  | some p =>
    cases p with
    | entering r =>
      show _ = ((s.mutex.acquire? u).map fun m => act env u { s with mutex := m } r).map (·.collect t)
      rw [Option.map_map]
      exact Option.map_congr fun m _ => act_collect hu env { s with mutex := m } r
    | leaving b a => exact congrArg some (into_collect hu { s with mutex := s.mutex.release b } _)
    | building top => rfl
    | returned a => rfl

theorem end?_collect (hu : u ≠ t) (e : Ending α) (s : Stack α) :
    (s.collect t).end? u e = (s.end? u e).map (·.collect t) := by
  have hcurrent : (s.collect t).calls.current? u = s.calls.current? u := Calls.current?_finish_of_ne hu s.calls
  unfold end?
  rw [hcurrent]
  cases s.calls.current? u with
  | none => rfl
  | some p =>
    cases p with
    | building top =>
      cases e with
      | built v => exact congrArg some (into_collect hu { s with items := s.items.tail } _)
      | _ => exact congrArg some (into_collect hu s _)
    | _ => rfl

/-- Where another thread makes a step or ends its builder, this one does not have the mutex. -/
theorem hasMutex_of_others {m : Move α} (hs : s.Sound) (h : s.Change m s') (hne : m.thread ≠ t)
    (hm : (∃ env, m = .step m.thread env) ∨ ∃ e, m = .finish m.thread e) (hp : s.calls.current? t = some p) :
    p.hasMutex = false := by
  have hmem : p ∈ s.calls.of t := by
    rw [Calls.of_eq_cons hp]
    exact List.mem_cons_self
  cases h with
  | takes env hc hfree hturn => exact hs.not_hasMutex hfree hmem
  | leaves env hc => exact hs.not_hasMutex_of_ne (hs.holder_of hc rfl) hne hmem
  | ends e hc => exact hs.not_hasMutex_of_ne (hs.holder_of hc rfl) hne hmem
  | starts u r _ => rcases hm with ⟨_, hm⟩ | ⟨_, hm⟩ <;> cases hm
  | collects _ => rcases hm with ⟨_, hm⟩ | ⟨_, hm⟩ <;> cases hm

namespace Without

/-- A call of another thread is made, goes on or comes to its end. -/
theorem inCalls (hr : Without only gone s s₀) (hu : gone ≠ some u) {f : Calls (Phase α) → Calls (Phase α)}
    (hf : Calls.Within u f) : Without only gone { s with calls := f s.calls } { s₀ with calls := f s₀.calls } := by
  cases hr with
  | same => exact .same _
  | @but t p _ hp spared =>
    have hne : u ≠ t := fun he => hu (he ▸ rfl)
    have kept : Without only (some t) { s with calls := f s.calls } _ := .but ((hf.others hne s.calls).trans hp) spared
    rwa [without, hf.commutes hne] at kept

/-- What another thread can do as long as this one does not have the mutex. -/
theorem beside {m : Move α} (next? : Stack α → Option (Stack α)) (hr : Without only gone s s₀) (hs : s.Sound)
    (hu : gone ≠ some m.thread) (hm : (∃ env, m = .step m.thread env) ∨ ∃ e, m = .finish m.thread e)
    (hmove : ∀ s', next? s = some s' → s.Change m s')
    (hcollect : ∀ t, m.thread ≠ t → next? (s.collect t) = (next? s).map (·.collect t)) :
    Follows (Without only gone) (next? s) (next? s₀) := by
  cases hr with
  | same => exact follows_refl .same _
  | @but t p _ hp spared =>
    have hne : m.thread ≠ t := fun he => hu (he ▸ rfl)
    intro s' hs'
    have hchange := hmove s' hs'
    have hhas := hasMutex_of_others hs hchange hne hm hp
    have hp' := (current?_others hchange hne).trans hp
    refine ⟨s'.without t p, ?_, .but hp' spared⟩
    rw [without_eq_collect hhas, without_eq_collect hhas, hcollect t hne, hs', Option.map_some]

theorem step? (hr : Without only gone s s₀) (hs : s.Sound) (hu : gone ≠ some u) (env : Environment) :
    Follows (Without only gone) (s.step? env u) (s₀.step? env u) :=
  beside (m := .step u env) (·.step? env u) hr hs hu (.inl ⟨env, rfl⟩) (fun _ => step_change)
    fun _ hne => step?_collect hne env s

theorem end? (hr : Without only gone s s₀) (hs : s.Sound) (hu : gone ≠ some u) (e : Ending α) :
    Follows (Without only gone) (s.end? u e) (s₀.end? u e) :=
  beside (m := .finish u e) (·.end? u e) hr hs hu (.inr ⟨e, rfl⟩) (fun _ => end_change)
    fun _ hne => end?_collect hne e s

theorem current? (hr : Without only gone s s₀) (hu : gone ≠ some u) : s₀.calls.current? u = s.calls.current? u := by
  cases hr with
  | same => rfl
  | @but t p _ hp spared =>
    have hne : u ≠ t := fun he => hu (he ▸ rfl)
    exact Calls.current?_finish_of_ne hne s.calls

theorem start? (hr : Without only gone s s₀) (hu : gone ≠ some u) (r : Request α) :
    Follows (Without only gone) (s.start? u r) (s₀.start? u r) := by
  unfold Stack.start?
  rw [hr.current? hu]
  have begun := hr.inCalls hu (.start u (.entering r))
  split
  · exact follows_some begun
  · exact follows_some begun
  · exact follows_none _

theorem collect (hr : Without only gone s s₀) (hu : gone ≠ some u) :
    Without only gone (s.collect u) (s₀.collect u) := hr.inCalls hu (.finish u)

theorem answer? (hr : Without only gone s s₀) (hu : gone ≠ some u) : s₀.answer? u = s.answer? u := by
  rw [Stack.answer?, hr.current? hu, Stack.answer?]

theorem top? (hr : Without only gone s s₀) (hu : gone ≠ some u) : s₀.top? u = s.top? u := by
  rw [Stack.top?, hr.current? hu, Stack.top?]

/-! ## The call itself -/

theorem opened (h : s.start? t r = some s') (hr : r.asksRoom only = true) : Without only (some t) s' s := by
  have hwithout : ({ s with calls := s.calls.start t (.entering r) } : Stack α).without t (.entering r) = s := by
    rw [without_eq_collect rfl, Stack.collect, Calls.finish_start_self]
  have begun : Without only (some t) { s with calls := s.calls.start t (.entering r) } _ :=
    .but (p := .entering r) (by rw [Calls.current?_start, if_pos rfl]) hr
  rw [hwithout] at begun
  cases start_change h with
  | starts _ _ _ => exact begun

/-- The call goes on to a phase in which it has the mutex or not, and still has changed nothing. -/
theorem advance {p' : Phase α} {m : Mutex} (hm : m.letGo p'.hasMutex = s.mutex.letGo p.hasMutex)
    (spared : p'.spares only = true) : Without only (some t) ({ s with mutex := m }.into t p') (s.without t p) := by
  have hwithout : ({ s with mutex := m }.into t p').without t p' = s.without t p := by
    rw [without, without, mutex_into, calls_into, Calls.finish_move_self, hm]
    rfl
  rw [← hwithout]
  exact .but (by rw [calls_into, Calls.current?_move, if_pos rfl]) spared

/-- A step of the call changes nothing without it, or the answer is of another kind. -/
theorem own (hr : Without only (some t) s s₀) (h : s.step? env t = some s') :
    Without only (some t) s' s₀ ∨ s'.Differs only t := by
  cases hr with
  | @but _ p _ hp spared =>
    simp only [Stack.step?, hp] at h
    cases p with
    | leaving panicking a =>
      cases h
      cases panicking with
      | true => cases spared
      | false => exact .inl (advance rfl spared)
    | entering r =>
      obtain ⟨m, hm, rfl⟩ := Option.map_eq_some_iff.mp h
      have hback : m.letGo true = s.mutex := Mutex.letGo_acquired hm
      cases r with
      | push v =>
        simp only [act]
        split
        · exact .inr ⟨.leaving false .done, by simp, spared⟩
        · exact .inl (advance hback rfl)
      | reserve n =>
        simp only [act]
        split
        · cases only with
          | true => exact .inl (advance hback rfl)
          | false => exact .inr ⟨.leaving false .done, by simp, rfl⟩
        · exact .inl (advance hback rfl)
      | _ => cases spared
    | building top => cases spared
    | returned a => cases h

theorem closed (hr : Without only (some t) s s₀) {a : Answer α} (h : s.answer? t = some a) : s₀ = s.collect t := by
  cases hr with
  | @but _ p _ hp spared =>
    simp only [Stack.answer?, hp] at h
    cases p with
    | returned a => exact without_eq_collect rfl
    | _ => cases h

end Without

/-! ## A call with another answer -/

/-- Until it is taken, the answer stays as it is. -/
theorem Differs.move {m : Move α} (hd : s.Differs only t) (h : s.move? m = some s') (hopen : m ≠ .collect t) :
    s'.Differs only t := by
  obtain ⟨p, hp, hdiffers⟩ := hd
  by_cases hne : m.thread = t
  · cases move_change h with
    | starts u r hbuilding =>
      obtain rfl : u = t := hne
      have := hbuilding p hp
      cases p with
      | building top => cases hdiffers
      | _ => cases this
    | @takes u r _ env hc _ _ =>
      obtain rfl : u = t := hne
      obtain rfl := Option.some.inj (hp.symm.trans hc)
      cases hdiffers
    | @leaves u b a env hc =>
      obtain rfl : u = t := hne
      obtain rfl := Option.some.inj (hp.symm.trans hc)
      exact ⟨.returned a, by simp, hdiffers⟩
    | @ends u top e hc =>
      obtain rfl : u = t := hne
      obtain rfl := Option.some.inj (hp.symm.trans hc)
      cases hdiffers
    | collects hc => exact absurd (congrArg Move.collect hne) hopen
  · exact ⟨p, (current?_others (move_change h) hne).trans hp, hdiffers⟩

theorem Differs.answer {a : Answer α} (hd : s.Differs only t) (h : s.answer? t = some a) : a.spares only = false := by
  obtain ⟨p, hp, hdiffers⟩ := hd
  simp only [answer?, hp] at h
  cases p with
  | returned a' =>
    obtain rfl := Option.some.inj h
    simpa [Phase.differs] using hdiffers
  | _ => cases h

end

end Interlock.Stack
