import Interlock.Proofs.Queue.Wakeups
import Interlock.Proofs.Related

/-!
# A queue without a call that finds no room

A call that asks for room and does not find it has the mutex for a while, and changes nothing else. The queue `without`
the call has the mutex free then. It is the same before and after each step of the call itself, and under the steps of
other threads it goes on as they would alone. So it is with a call that only reserves room, also if there is some. Only when a
push is granted the state differs, and then the answer does too.
-/

namespace Interlock.Queue

variable {α : Type} {only : Bool} {gone : Option ThreadId} {t u : ThreadId} {env : Environment}

/-- The calls that ask for room: those that only do so, or others too. -/
def Request.asksRoom (only : Bool) : Request α → Bool
  | .push _ => !only
  | .reserve _ => true
  | _ => false

/-- The answers after which nothing has changed, to a call that only asks for room, or to any. -/
def Answer.spares (only : Bool) : Answer α → Bool
  | .exhausted _ => true
  | _ => only

/-- The phases of a call that asks for room and has changed nothing so far. -/
def Phase.spares (only : Bool) : Phase α → Bool
  | .entering r => r.asksRoom only
  | .leaving a => a.spares only
  | .returned a => a.spares only
  | _ => false

/-- The phases of a call that has an answer of another kind. -/
def Phase.differs (only : Bool) : Phase α → Bool
  | .leaving a => !a.spares only
  | .returned a => !a.spares only
  | _ => false

def Phase.hasMutex : Phase α → Bool
  | .leaving _ => true
  | _ => false

/-- The call of the thread is not one that finds no room, nor one that only asks for it. -/
def Differs (only : Bool) (q : Queue α) (t : ThreadId) : Prop :=
  ∃ p, q.calls.current? t = some p ∧ p.differs only = true

/-- The queue without the mutex that a call of the thread in this phase has in hand, and without the call. -/
def without (q : Queue α) (t : ThreadId) (p : Phase α) : Queue α :=
  { q with mutex := q.mutex.letGo p.hasMutex, calls := q.calls.finish t }

/-- The second queue is the first without the call of the thread, which has changed nothing so far. -/
inductive Without (only : Bool) : Option ThreadId → Queue α → Queue α → Prop
  | same (q : Queue α) : Without only none q q
  | but {t : ThreadId} {p : Phase α} {q : Queue α} (hp : q.calls.current? t = some p) (spared : p.spares only = true) :
      Without only (some t) q (q.without t p)

section
variable {q q' q₀ : Queue α} {p : Phase α} {r : Request α}

theorem without_eq_collect (hm : p.hasMutex = false) : q.without t p = q.collect t := by
  rw [without, hm]
  rfl

/-! ## Other threads -/

theorem into_collect (hu : u ≠ t) (q : Queue α) (p : Phase α) : (q.collect t).into u p = (q.into u p).collect t := by
  simp only [into, collect, Calls.finish_move hu]

theorem notify_collect (hs : q.calls.Single) (hp : q.calls.current? t = some p) (hawake : ∀ r, p ≠ .asleep r)
    (pick : Nat) : (q.collect t).notify pick = (q.notify pick).collect t := by
  have hsleepers : (q.collect t).sleepers = q.sleepers := by
    refine congrArg List.reverse (Calls.filterMap_finish hp ?_)
    cases p with
    | asleep r => exact absurd rfl (hawake r)
    | _ => rfl
  unfold notify
  rw [hsleepers]
  cases hv : q.sleepers[pick % q.sleepers.length]? with
  | none => rfl
  | some v =>
    obtain ⟨r, hr⟩ := mem_sleepers.mp (List.mem_of_getElem? hv)
    have hr := hs.mem_of.mp hr
    have hne : v ≠ t := by
      rintro rfl
      exact hawake r (Option.some.inj (hp.symm.trans hr))
    have hr₀ : (q.collect t).calls.current? v = some (.asleep r) := (Calls.current?_finish_of_ne hne q.calls).trans hr
    simp only [wake?, hr, hr₀, Option.getD_some]
    exact into_collect hne q (.woken r)

theorem act_collect (hu : u ≠ t) (hs : q.calls.Single) (hp : q.calls.current? t = some p)
    (hawake : ∀ r, p ≠ .asleep r) (env : Environment) (r : Request α) :
    act env u (q.collect t) r = (act env u q r).collect t := by
  have hitems : (q.collect t).items = q.items := rfl
  have moved (items : List α) (mutex : Mutex) (p : Phase α) : Queue.into ⟨items, mutex, q.calls.finish t⟩ u p =
      (Queue.into ⟨items, mutex, q.calls⟩ u p).collect t := into_collect hu ⟨items, mutex, q.calls⟩ p
  cases r with
  | push v =>
    simp only [act, hitems]
    cases env.array q.items.length 1 with
    | ok =>
      have announced := notify_collect (q := { q with items := q.items ++ [v] }) hs hp hawake env.pick
      exact (congrArg (·.into u (.leaving .done)) announced).trans (into_collect hu _ _)
    | error f => exact moved _ _ _
  | reserve n =>
    simp only [act, hitems]
    cases env.array q.items.length n <;> exact moved _ _ _
  | tryPop =>
    simp only [act, hitems]
    cases q.items <;> exact moved _ _ _
  | tryPopInto out =>
    simp only [act, hitems]
    cases q.items <;> exact moved _ _ _
  | waitPop =>
    simp only [act, hitems]
    cases q.items <;> exact moved _ _ _
  | waitPopInto out =>
    simp only [act, hitems]
    cases q.items <;> exact moved _ _ _
  | _ => exact moved _ _ _

theorem step?_collect (hu : u ≠ t) (hs : q.calls.Single) (hp : q.calls.current? t = some p)
    (hawake : ∀ r, p ≠ .asleep r) (env : Environment) :
    (q.collect t).step? env u = (q.step? env u).map (·.collect t) := by
  have acts (r : Request α) : ((q.mutex.acquire? u).map fun m => act env u { q.collect t with mutex := m } r) =
      ((q.mutex.acquire? u).map fun m => act env u { q with mutex := m } r).map (·.collect t) := by
    rw [Option.map_map]
    exact Option.map_congr fun m _ => act_collect (q := { q with mutex := m }) hu hs hp hawake env r
  have hcurrent : (q.collect t).calls.current? u = q.calls.current? u := Calls.current?_finish_of_ne hu q.calls
  unfold step?
  rw [hcurrent]
  cases q.calls.current? u with
  | none => rfl
  | some p =>
    cases p with
    | entering r => exact acts r
    | woken r => exact acts r
    | leaving a => exact congrArg some (into_collect hu { q with mutex := q.mutex.release false } _)
    | asleep r => rfl
    | returned a => rfl

/-- Only a thread that is asleep is moved by others. -/
theorem current?_others {m : Move α} (hs : q.Sound) (h : q.move? m = some q') (hne : m.thread ≠ t)
    (hp : q.calls.current? t = some p) (hawake : ∀ r, p ≠ .asleep r) : q'.calls.current? t = some p := by
  have moved {u : ThreadId} (hu : u ≠ t) (q₁ : Queue α) (p' : Phase α) (h₁ : q₁.calls.current? t = some p) :
      (q₁.into u p').calls.current? t = some p := by rw [calls_into, Calls.current?_move, if_neg hu, h₁]
  cases move_change h with
  | starts u r _ => exact (if_neg hne).trans hp
  | leaves env hc => exact moved hne _ _ hp
  | wakes hc => exact moved hne _ _ hp
  | collects hc => exact (Calls.current?_finish_of_ne (Ne.symm hne) q.calls).trans hp
  | @acts u r _ env hw hfree hturn =>
    cases hturn with
    | serves _ _ => exact moved hne _ _ hp
    | sleeps _ _ => exact moved hne _ _ hp
    | announces v pick =>
      refine moved hne _ _ ?_
      have hsingle : ({ q with items := q.items ++ [v] }.seize u).calls.Single := hs.single
      rcases notify_cases hsingle pick with ⟨-, he⟩ | ⟨v, r, hv, he⟩
      · rw [he]
        exact hp
      · have hv' : v ≠ t := by
          rintro rfl
          exact hawake r (Option.some.inj (hp.symm.trans hv))
        rw [he]
        exact moved hv' _ _ hp

/-- Where another thread makes a step, this one does not have the mutex. -/
theorem hasMutex_of_step (hs : q.Sound) (h : q.step? env u = some q') (hu : u ≠ t) (hp : q.calls.current? t = some p) :
    p.hasMutex = false := by
  cases p with
  | leaving a =>
    have hholder := (hs.held t).mpr ⟨a, hp⟩
    cases step_change h with
    | acts env hw hfree hturn => rw [hfree] at hholder; cases hholder
    | leaves env hc =>
      rw [(hs.held u).mpr ⟨_, hc⟩] at hholder
      exact absurd (Option.some.inj hholder) hu
  | _ => rfl

theorem awake_of_spares (spared : p.spares only = true) (r : Request α) : p ≠ .asleep r := by
  rintro rfl
  cases spared

namespace Without

/-- A call of another thread is made, goes on or comes to its end. -/
theorem inCalls (hr : Without only gone q q₀) (hu : gone ≠ some u) {f : Calls (Phase α) → Calls (Phase α)}
    (hf : Calls.Within u f) : Without only gone { q with calls := f q.calls } { q₀ with calls := f q₀.calls } := by
  cases hr with
  | same => exact .same _
  | @but t p _ hp spared =>
    have hne : u ≠ t := fun he => hu (he ▸ rfl)
    have kept : Without only (some t) { q with calls := f q.calls } _ := .but ((hf.others hne q.calls).trans hp) spared
    rwa [without, hf.commutes hne] at kept

theorem step? (hr : Without only gone q q₀) (hs : q.Sound) (hu : gone ≠ some u) (env : Environment) :
    Follows (Without only gone) (q.step? env u) (q₀.step? env u) := by
  cases hr with
  | same => exact follows_refl .same _
  | @but t p _ hp spared =>
    have hne : u ≠ t := fun he => hu (he ▸ rfl)
    have hawake := awake_of_spares spared
    intro q' hq'
    have hm := hasMutex_of_step hs hq' hne hp
    have hp' := current?_others (m := .step u env) hs hq' hne hp hawake
    refine ⟨q'.without t p, ?_, .but hp' spared⟩
    rw [without_eq_collect hm, without_eq_collect hm, step?_collect hne hs.single hp hawake, hq', Option.map_some]

theorem current? (hr : Without only gone q q₀) (hu : gone ≠ some u) : q₀.calls.current? u = q.calls.current? u := by
  cases hr with
  | same => rfl
  | @but t p _ hp spared =>
    have hne : u ≠ t := fun he => hu (he ▸ rfl)
    exact Calls.current?_finish_of_ne hne q.calls

theorem start? (hr : Without only gone q q₀) (hu : gone ≠ some u) (r : Request α) :
    Follows (Without only gone) (q.start? u r) (q₀.start? u r) := by
  unfold Queue.start?
  rw [hr.current? hu]
  split
  · exact follows_some (hr.inCalls hu (.start u _))
  · exact follows_none _

theorem wake? (hr : Without only gone q q₀) (hu : gone ≠ some u) :
    Follows (Without only gone) (q.wake? u) (q₀.wake? u) := by
  unfold Queue.wake?
  rw [hr.current? hu]
  split
  · exact follows_some (hr.inCalls hu (.move u _))
  · exact follows_none _

theorem collect (hr : Without only gone q q₀) (hu : gone ≠ some u) :
    Without only gone (q.collect u) (q₀.collect u) := hr.inCalls hu (.finish u)

theorem answer? (hr : Without only gone q q₀) (hu : gone ≠ some u) : q₀.answer? u = q.answer? u := by
  rw [Queue.answer?, hr.current? hu, Queue.answer?]

/-! ## The call itself -/

theorem opened (h : q.start? t r = some q') (hr : r.asksRoom only = true) : Without only (some t) q' q := by
  have hwithout : ({ q with calls := q.calls.start t (.entering r) } : Queue α).without t (.entering r) = q := by
    rw [without_eq_collect rfl, Queue.collect, Calls.finish_start_self]
  have begun : Without only (some t) { q with calls := q.calls.start t (.entering r) } _ :=
    .but (p := .entering r) (by rw [Calls.current?_start, if_pos rfl]) hr
  rw [hwithout] at begun
  cases move_change (m := .start t r) h with
  | starts _ _ _ => exact begun

/-- The call goes on to a phase in which it has the mutex or not, and still has changed nothing. -/
theorem advance {p' : Phase α} {m : Mutex} (hm : m.letGo p'.hasMutex = q.mutex.letGo p.hasMutex)
    (spared : p'.spares only = true) : Without only (some t) ({ q with mutex := m }.into t p') (q.without t p) := by
  have hwithout : ({ q with mutex := m }.into t p').without t p' = q.without t p := by
    rw [without, without, mutex_into, calls_into, Calls.finish_move_self, hm]
    rfl
  rw [← hwithout]
  exact .but (by rw [calls_into, Calls.current?_move, if_pos rfl]) spared

/-- A step of the call changes nothing without it, or the answer is of another kind. -/
theorem own (hr : Without only (some t) q q₀) (h : q.step? env t = some q') :
    Without only (some t) q' q₀ ∨ q'.Differs only t := by
  cases hr with
  | @but _ p _ hp spared =>
    simp only [Queue.step?, hp] at h
    cases p with
    | leaving a =>
      cases h
      exact .inl (advance rfl spared)
    | entering r =>
      obtain ⟨m, hm, rfl⟩ := Option.map_eq_some_iff.mp h
      have hback : m.letGo true = q.mutex := Mutex.letGo_acquired hm
      cases r with
      | push v =>
        simp only [act]
        split
        · exact .inr ⟨.leaving .done, by simp, spared⟩
        · exact .inl (advance hback rfl)
      | reserve n =>
        simp only [act]
        split
        · cases only with
          | true => exact .inl (advance hback rfl)
          | false => exact .inr ⟨.leaving .done, by simp, rfl⟩
        · exact .inl (advance hback rfl)
      | _ => cases spared
    | woken r => cases spared
    | asleep r => cases spared
    | returned a => cases h

theorem closed (hr : Without only (some t) q q₀) {a : Answer α} (h : q.answer? t = some a) : q₀ = q.collect t := by
  cases hr with
  | @but _ p _ hp spared =>
    simp only [Queue.answer?, hp] at h
    cases p with
    | returned a => exact without_eq_collect rfl
    | _ => cases h

end Without

/-! ## A call with another answer -/

/-- Until it is taken, the answer stays as it is. -/
theorem Differs.move {m : Move α} (hd : q.Differs only t) (hs : q.Sound) (h : q.move? m = some q')
    (hopen : m ≠ .collect t) : q'.Differs only t := by
  obtain ⟨p, hp, hdiffers⟩ := hd
  have hawake (r : Request α) : p ≠ .asleep r := by
    rintro rfl
    cases hdiffers
  by_cases hne : m.thread = t
  · cases move_change h with
    | starts u r hc =>
      obtain rfl : u = t := hne
      cases hp.symm.trans hc
    | @wakes u r hc =>
      obtain rfl : u = t := hne
      exact absurd (Option.some.inj (hp.symm.trans hc)) (hawake r)
    | collects hc => exact absurd (congrArg Move.collect hne) hopen
    | @acts u r _ env hw _ _ =>
      obtain rfl : u = t := hne
      rcases hw with hw | hw <;>
      · obtain rfl := Option.some.inj (hp.symm.trans hw)
        cases hdiffers
    | @leaves u a env hc =>
      obtain rfl : u = t := hne
      obtain rfl := Option.some.inj (hp.symm.trans hc)
      exact ⟨.returned a, by simp, hdiffers⟩
  · exact ⟨p, current?_others hs h hne hp hawake, hdiffers⟩

theorem Differs.answer {a : Answer α} (hd : q.Differs only t) (h : q.answer? t = some a) : a.spares only = false := by
  obtain ⟨p, hp, hdiffers⟩ := hd
  simp only [answer?, hp] at h
  cases p with
  | returned a' =>
    obtain rfl := Option.some.inj h
    simpa [Phase.differs] using hdiffers
  | _ => cases h

end

end Interlock.Queue
