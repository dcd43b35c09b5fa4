import Interlock.Proofs.Hierarchy.Parallel
import Interlock.Proofs.Hierarchy.Stuck

/-!
# A call beside the rest of the state

What locks, guards and slots do does not depend on the calls that are under way (`inCalls`). So a call that has changed
nothing but its own phase can be taken away, and all other threads go on as they would have with it (`move_collect`).
While a call is under way and not in its callback, its thread moves by the steps of the call only (`own_step`).
-/

namespace Interlock.Hierarchy

variable {α : Type}

/-- The same locks and slots, with other calls under way. -/
def inCalls (h : Hierarchy α) (c : Calls (Phase α)) : Hierarchy α := { h with calls := c }

/-- A call of the thread is under way, its innermost, in this phase. -/
def calling (h : Hierarchy α) (t : ThreadId) (p : Phase α) : Hierarchy α := h.inCalls (h.calls.start t p)

section
variable {h h' h₁ : Hierarchy α} {t u : ThreadId} {c : Calls (Phase α)} {l : LockId} {p : Phase α}

/-! ## What does not depend on calls -/

@[simp] theorem checkAcquire_inCalls : (h.inCalls c).checkAcquire t l = h.checkAcquire t l := rfl

@[simp] theorem checkRelease_inCalls (g : Guard) : (h.inCalls c).checkRelease t g = h.checkRelease t g := rfl

@[simp] theorem slot?_inCalls (slot : String) : (h.inCalls c).slot? t slot = h.slot? t slot := rfl

@[simp] theorem accepts_inCalls (aim : Aim) : (h.inCalls c).accepts t l aim = h.accepts t l aim := by
  cases aim <;> rfl

@[simp] theorem admits_inCalls (q : Request α) : (h.inCalls c).admits t q = h.admits t q := by
  cases q with
  | lock l aim => rw [admits, accepts_inCalls, admits]; rfl
  | drop slots panic => rfl
  | registry r i => rfl

theorem admit?_inCalls (previous : Rank) : (h.inCalls c).admit? t l previous =
    (h.admit? t l previous).map fun x => (x.1.inCalls c, x.2) := by
  unfold admit?
  show (h.locks[l]?).bind _ = ((h.locks[l]?).bind _).map _
  cases h.locks[l]? with
  | none => rfl
  | some k => cases hk : k.mutex.acquire? t <;> simp only [Option.bind_some, hk] <;> rfl

theorem deliver_inCalls (g : Guard) (aim : Aim) :
    (h.inCalls c).deliver t g aim = (h.deliver t g aim).inCalls c := by
  cases aim <;> rfl

theorem takeOut_inCalls (t : ThreadId) (c : Calls (Phase α)) : ∀ (slots : List String) (h : Hierarchy α),
    (h.inCalls c).takeOut t slots = ((h.takeOut t slots).1.inCalls c, (h.takeOut t slots).2)
  | [], _ => rfl
  | slot :: slots, h => by
    have hclear : (h.inCalls c).clearSlot t slot = (h.clearSlot t slot).inCalls c := rfl
    simp only [takeOut, hclear, takeOut_inCalls t c slots, slot?_inCalls]

theorem tryLock_inCalls (aim : Aim) : (h.inCalls c).tryLock t l aim =
    ((h.tryLock t l aim).1.inCalls c, (h.tryLock t l aim).2) := by
  unfold tryLock
  rw [checkAcquire_inCalls]
  split
  · rfl
  · rw [admit?_inCalls]
    cases h.admit? t l _ with
    | none => rfl
    | some x => simp [deliver_inCalls]

theorem attempt?_inCalls (d : Deed) : (h.inCalls c).attempt? t d =
    (h.attempt? t d).map fun x => (x.1.inCalls c, x.2) := by
  cases d with
  | tryLock l aim =>
    simp only [attempt?, accepts_inCalls, tryLock_inCalls]
    split <;> rfl
  | unlock slot =>
    simp only [attempt?, slot?_inCalls]
    split
    · simp only [unlock, checkRelease_inCalls]
      split <;> rfl
    · rfl
  | unlockHandle slot =>
    simp only [attempt?, slot?_inCalls]
    split
    · simp only [unlockHandle, checkRelease_inCalls]
      split
      · rfl
      · split <;> rfl
    · rfl
  | recover slot =>
    simp only [attempt?, slot?_inCalls]
    split <;> rfl
  | defer l slot =>
    simp only [attempt?, slot?_inCalls]
    split <;> rfl
  | adopt source target =>
    simp only [attempt?, slot?_inCalls, canMove]
    split <;> rfl
  | detach source target =>
    simp only [attempt?, slot?_inCalls, canMove]
    split
    · simp only [detach]
      split <;> rfl
    · rfl

theorem checkAcquire_error {v : Violation} (hc : h.checkAcquire t l = .error v) :
    v = ⟨.acquire, h.rank l, h.ceiling t⟩ ∧ h.ceiling t ≤ h.rank l := by
  unfold checkAcquire at hc
  split at hc
  · rename_i hle
    exact ⟨(Except.error.inj hc).symm, hle⟩
  · cases hc

theorem checkRelease_error {g : Guard} {v : Violation} (hc : h.checkRelease t g = .error v) :
    v = ⟨.release, h.rank g.lock, h.ceiling t⟩ ∧ h.ceiling t ≠ h.rank g.lock := by
  unfold checkRelease at hc
  split at hc
  · cases hc
  · rename_i hne
    exact ⟨(Except.error.inj hc).symm, hne⟩

/-! ## Ranks -/

theorem rank_of_locks (hl : h'.locks = h.locks) : h'.rank l = h.rank l := by rw [rank, hl, rank]

theorem rank_inquire (env : Environment) (g : Guard) (r : RegistryId) (i : Inquiry α) (hl : l < h.locks.length) :
    (inquire env t h g r i).rank l = h.rank l := by
  cases i with
  | insert name v =>
    simp only [inquire]
    split
    · simp only [bind]
      show (setContent (h.addLock _ _).1 g.lock _).rank l = _
      rw [rank_setContent, rank_addLock_of_ne _ _ _ (Nat.ne_of_lt hl)]
    · rfl
  | remove name => exact rank_setContent ..
  | get name => exact rank_of_locks (locks_openEntry ..)
  | update name => exact rank_of_locks (locks_openEntry ..)
  | _ => rfl

theorem rank_proceed (env : Environment) (g : Guard) (p : Purpose α) (hl : l < h.locks.length) :
    (proceed env t h g p).rank l = h.rank l := by
  cases p with
  | hold aim => exact rank_of_locks (locks_deliver ..)
  | inquire r i => exact rank_inquire env g r i hl
  | visit directory callback => cases callback <;> rfl

theorem rank_step {env : Environment} (hs : h.step? env t = some h') (hl : l < h.locks.length) :
    h'.rank l = h.rank l := by
  cases stepped hs with
  | @enters q _ => exact rank_of_locks (locks_enter h t q)
  | @admitted k previous q h₁ g _ ha =>
    have hlength := (admit?_contents ha).1
    rw [rank_proceed env g q (hlength ▸ hl), (admit?_eq ha).2.2.1]
  | @drops gs a _ =>
    cases gs with
    | nil => rfl
    | cons g gs =>
      simp only [dropNext]
      split
      · exact rank_release h t g _ l
      · rfl

theorem rank_attempt {d : Deed} {x : Hierarchy α × Outcome} (hd : h.attempt? t d = some x) :
    x.1.rank l = h.rank l := by
  cases attempted hd with
  | tryLock _ =>
    unfold tryLock
    split
    · rfl
    · split
      · rfl
      · rename_i ha
        exact (rank_of_locks (locks_deliver ..)).trans ((admit?_eq ha).2.2.1 l)
  | unlock _ =>
    unfold unlock
    split
    · exact rank_release h t _ false l
    · rfl
  | unlockHandle _ =>
    unfold unlockHandle
    split
    · rfl
    · split
      · exact rank_release h t _ false l
      · rfl
  | detach _ _ => exact rank_of_locks (locks_detach ..)
  | _ => rfl

/-- A lock keeps its rank. -/
theorem rank_move {m : Move α} (hm : h.move? m = some h') (hl : l < h.locks.length) : h'.rank l = h.rank l := by
  cases moved hm with
  | addLock rank v => exact rank_addLock_of_ne _ _ _ (Nat.ne_of_lt hl)
  | addRegistry d e => exact rank_addLock_of_ne h d (.directory {}) (Nat.ne_of_lt hl)
  | step hs => exact rank_step hs hl
  | perform _ hd => exact rank_attempt hd
  | write _ _ => exact rank_setContent ..
  | borrow _ _ => exact rank_setContent ..
  | _ => rfl

theorem known_move {m : Move α} (hm : h.move? m = some h') (hl : l < h.locks.length) : l < h'.locks.length := by
  obtain ⟨k, hk⟩ : ∃ k, h.content? l = some k := by simp [content?, hl]
  exact lt_of_content? (content_move hm hk)

theorem rank_run {ms : List (Move α)} (hms : run? move? h ms = some h') (hl : l < h.locks.length) :
    h'.rank l = h.rank l := by
  induction ms generalizing h with
  | nil => rw [Option.some.inj hms]
  | cons m ms ih =>
    obtain ⟨h₁, hm, hms⟩ := Option.bind_eq_some_iff.mp hms
    rw [ih hms (known_move hm hl), rank_move hm hl]

/-! ## A call taken away -/

theorem into_collect (hu : u ≠ t) (p : Phase α) : (h.into u p).collect t = (h.collect t).into u p :=
  congrArg h.inCalls (Calls.finish_move hu h.calls p)

theorem collect_into (p : Phase α) : (h.into t p).collect t = h.collect t :=
  congrArg h.inCalls (Calls.finish_move_self h.calls t p)

theorem collect_calling : (h.calling t p).collect t = h := congrArg h.inCalls (Calls.finish_start_self h.calls t p)

theorem into_calling (p' : Phase α) : (h.calling t p).into t p' = h.calling t p' :=
  congrArg h.inCalls (Calls.move_start h.calls t p p')

theorem current?_calling : (h.calling t p).calls.current? t = some p := by
  simp [calling, inCalls]

theorem current?_collect (hu : u ≠ t) : (h.collect t).calls.current? u = h.calls.current? u :=
  Calls.current?_finish_of_ne hu h.calls

theorem isFree_collect (hu : u ≠ t) : (h.collect t).isFree u = h.isFree u := by
  rw [isFree, current?_collect hu, isFree]

theorem parallel_collect (hu : u ≠ t) : Parallel u fun h h' : Hierarchy α => h' = h.collect t where
  contents hr := by
    subst hr
    exact ⟨fun _ => rfl, fun _ => rfl, rfl⟩
  ceiling hr := by
    subst hr
    rfl
  into hr p := by
    subst hr
    exact (into_collect hu p).symm
  setContent hr l c := by
    subst hr
    rfl
  addLock hr r c := by
    subst hr
    rfl
  release hr g b := by
    subst hr
    rfl

theorem collect_of_calls (hc : h'.calls = h.calls) : h'.inCalls (h.calls.finish t) = h'.collect t := by
  rw [← hc]
  rfl

theorem enter_collect (hu : u ≠ t) (q : Request α) : (h.collect t).enter u q = (h.enter u q).collect t := by
  have parallel := parallel_collect (α := α) hu
  cases q with
  | lock l aim => exact parallel.approach rfl l _ _
  | drop slots panic =>
    have hcalls := (arranges_takeOut u slots h).calls
    simp only [enter]
    rw [show h.collect t = h.inCalls (h.calls.finish t) from rfl, takeOut_inCalls, collect_of_calls hcalls,
      into_collect hu]
  | registry r i =>
    have hregs : (h.collect t).registries = h.registries := rfl
    simp only [enter, hregs]
    cases h.registries[r]? with
    | some k => exact parallel.approach rfl _ _ _
    | none => exact (into_collect hu _).symm

theorem step?_collect (hu : u ≠ t) (env : Environment) :
    (h.collect t).step? env u = (h.step? env u).map (·.collect t) := by
  have parallel := parallel_collect (α := α) hu
  unfold step?
  rw [current?_collect hu]
  cases h.calls.current? u with
  | none => rfl
  | some p =>
    cases p with
    | entering q => exact congrArg some (enter_collect hu q)
    | waiting l previous q =>
      simp only
      rw [show h.collect t = h.inCalls (h.calls.finish t) from rfl, admit?_inCalls, Option.map_map, Option.map_map]
      refine Option.map_congr fun x hx => ?_
      obtain ⟨h₁, g⟩ := x
      have hcalls : h₁.calls = h.calls := (arranges_admitted hx).calls
      simp only [Function.comp_apply, collect_of_calls hcalls]
      cases q with
      | hold aim =>
        rw [proceed, proceed, into_collect hu]
        cases aim <;> rfl
      | inquire r i => exact parallel.inquire rfl env g r i
      | visit directory callback => exact parallel.visit rfl env g directory callback
    | visiting e d => rfl
    | releasing gs a => exact congrArg some (parallel.dropNext rfl gs a)
    | returned a => rfl

theorem isUsed_collect (hl : h.isUsed l = false) : (h.collect t).isUsed l = false := by
  rw [isUsed, Bool.or_eq_false_iff, List.any_eq_false] at hl ⊢
  exact ⟨hl.1, fun x hx => hl.2 x (List.mem_of_mem_eraseP hx)⟩

/-- All threads but that of the call move as they would without the call. -/
theorem move_collect {m : Move α} (hm : h.move? m = some h') (ht : m.thread? ≠ some t) :
    (h.collect t).move? m = some (h'.collect t) := by
  have hne {u : ThreadId} (hu : m.thread? = some u) : u ≠ t := by
    intro he
    exact ht (he ▸ hu)
  cases m with
  | addLock rank v =>
    cases hm
    rfl
  | addRegistry d e =>
    cases hm
    rfl
  | start u q =>
    have hu := hne rfl
    have hstart : (h.calls.start u (.entering q)).finish t = (h.calls.finish t).start u (.entering q) := by
      simp [Calls.start, Calls.finish, hu]
    simp only [move?, start?, isFree_collect hu] at hm ⊢
    rw [show h.collect t = h.inCalls (h.calls.finish t) from rfl, admits_inCalls]
    split at hm
    · rename_i hmay
      cases hm
      rw [if_pos hmay]
      exact congrArg (fun c => some (h.inCalls c)) hstart.symm
    · cases hm
  | step u env =>
    have hs : h.step? env u = some h' := hm
    rw [move?, step?_collect (hne rfl), hs, Option.map_some]
  | finish u e =>
    have hu := hne rfl
    simp only [move?, end?, current?_collect hu] at hm ⊢
    split at hm
    · cases hm
      rw [into_collect hu]
    · cases hm
  | collect u =>
    have hu := hne rfl
    have hfinish : (h.calls.finish u).finish t = (h.calls.finish t).finish u := by
      refine congrArg Calls.mk (List.eraseP_comm fun e _ => ?_)
      by_cases he : e.1 = u
      · exact .inr (by simp [he, hu])
      · exact .inl (by simp [he])
    simp only [move?, answer?, current?_collect hu] at hm ⊢
    split at hm
    · cases hm
      exact congrArg (fun c => some (h.inCalls c)) hfinish.symm
    · cases hm
  | perform u d =>
    have hu := hne rfl
    simp only [move?, perform?, isFree_collect hu] at hm ⊢
    split at hm
    · rename_i hfree
      obtain ⟨x, hd, rfl⟩ := Option.map_eq_some_iff.mp hm
      rw [if_pos hfree, show h.collect t = h.inCalls (h.calls.finish t) from rfl, attempt?_inCalls, hd]
      exact congrArg some (collect_of_calls (arranges_attempt hd).calls)
    · cases hm
  | leak u slot =>
    have hu := hne rfl
    simp only [move?, isFree_collect hu] at hm ⊢
    split at hm
    · rename_i hfree
      cases hm
      rw [if_pos hfree]
      rfl
    · cases hm
  | write u k v =>
    have hu := hne rfl
    have howned : (h.collect t).owned u = h.owned u :=
      owned_congr rfl (by simp [phases, collect, Ne.symm hu])
    simp only [move?, isFree_collect hu, howned] at hm ⊢
    split at hm
    · rename_i hmay
      obtain ⟨w, hw, rfl⟩ := Option.map_eq_some_iff.mp hm
      have hw : (h.collect t).element? k = some w := hw
      rw [if_pos hmay, setElement?, hw]
      rfl
    · cases hm
  | borrow k v =>
    simp only [move?] at hm ⊢
    split at hm
    · cases hm
    · rename_i hunused
      obtain ⟨w, hw, rfl⟩ := Option.map_eq_some_iff.mp hm
      have hw : (h.collect t).element? k = some w := hw
      have hunused := isUsed_collect (t := t) (by simpa using hunused)
      rw [hunused, setElement?, hw]
      rfl

/-! ## A call among moves of others -/

/-- Until its answer is taken, and but for its callback, a call does not leave its thread anything else to do. -/
theorem own_step {m : Move α} (hm : h.move? m = some h') (hbusy : h.isFree t = false) (ht : m.thread? = some t)
    (hne : m ≠ .collect t) : ∃ env, m = .step t env := by
  cases m with
  | step u env => exact ⟨env, by rw [Option.some.inj ht]⟩
  | start u q =>
    obtain rfl := Option.some.inj ht
    simp [move?, start?, hbusy] at hm
  | finish u e =>
    obtain rfl := Option.some.inj ht
    simp only [move?, end?] at hm
    split at hm
    · rename_i hc
      simp [isFree, hc] at hbusy
    · cases hm
  | collect u =>
    obtain rfl := Option.some.inj ht
    exact absurd rfl hne
  | perform u d =>
    obtain rfl := Option.some.inj ht
    simp [move?, perform?, hbusy] at hm
  | leak u slot =>
    obtain rfl := Option.some.inj ht
    simp [move?, hbusy] at hm
  | write u k v =>
    obtain rfl := Option.some.inj ht
    simp [move?, hbusy] at hm
  | _ => cases ht

end

/-! ## A call by itself -/

/-- When nobody else moves, the innermost call of the thread comes to this answer, and to this state once the answer is
taken. -/
def Answers (h : Hierarchy α) (t : ThreadId) (a : Answer α) (h' : Hierarchy α) : Prop :=
  ∃ (envs : List Environment) (h₁ : Hierarchy α),
    run? move? h (envs.map (.step t)) = some h₁ ∧ h₁.answer? t = some a ∧ h₁.collect t = h'

/-- The same, of a call that is made now. -/
def Completes (h : Hierarchy α) (t : ThreadId) (q : Request α) (a : Answer α) (h' : Hierarchy α) : Prop :=
  ∃ h₁, h.move? (.start t q) = some h₁ ∧ h₁.Answers t a h'

section
variable {h h' h₁ : Hierarchy α} {t : ThreadId} {q : Request α} {a b : Answer α}

theorem answers_of_step (hnone : h.answer? t = none) (hs : ∀ env, h.step? env t = some h₁) :
    h.Answers t a h' ↔ h₁.Answers t a h' := by
  constructor
  · rintro ⟨envs, h₂, hrun, ha, hcollect⟩
    cases envs with
    | nil =>
      cases hrun
      rw [hnone] at ha
      cases ha
    | cons env envs =>
      rw [List.map_cons, run?, move?, hs, Option.bind_some] at hrun
      exact ⟨envs, h₂, hrun, ha, hcollect⟩
  · rintro ⟨envs, h₂, hrun, ha, hcollect⟩
    refine ⟨default :: envs, h₂, ?_, ha, hcollect⟩
    rw [List.map_cons, run?, move?, hs, Option.bind_some]
    exact hrun

/-- A call that cannot go on has answered, or never will. -/
theorem answers_of_stop (hs : ∀ env, h.step? env t = none) :
    h.Answers t a h' ↔ h.answer? t = some a ∧ h.collect t = h' := by
  constructor
  · rintro ⟨envs, h₂, hrun, ha, hcollect⟩
    cases envs with
    | nil =>
      cases hrun
      exact ⟨ha, hcollect⟩
    | cons env envs =>
      rw [List.map_cons, run?, move?, hs] at hrun
      cases hrun
  · rintro ⟨ha, hcollect⟩
    exact ⟨[], h, rfl, ha, hcollect⟩

theorem answer?_calling (p : Phase α) : (h.calling t p).answer? t = match p with
    | .returned a => some a
    | _ => none := by
  rw [answer?, current?_calling]
  cases p <;> rfl

theorem answers_returned : (h.calling t (.returned b)).Answers t a h' ↔ a = b ∧ h' = h := by
  rw [answers_of_stop fun env => by simp only [step?, current?_calling], answer?_calling, collect_calling]
  simp only [Option.some.injEq, eq_comm]

theorem answers_refused : (h.calling t (.releasing [] b)).Answers t a h' ↔ a = b ∧ h' = h := by
  rw [answers_of_step (answer?_calling _) fun env => ?_, answers_returned]
  simp only [step?, current?_calling, dropNext, into_calling]

theorem start_calling (hfree : h.isFree t = true) (hadmits : h.admits t q = true) :
    h.move? (.start t q) = some (h.calling t (.entering q)) := by
  simp only [move?, start?, hfree, hadmits, Bool.and_self, if_true]
  rfl

theorem phases_calling (h : Hierarchy α) (t : ThreadId) (p : Phase α) : (h.calling t p).phases t = p :: h.phases t :=
  phases_start h t p

theorem started {ms : List (Move α)} (hms : run? move? h (.start t q :: ms) = some h') :
    h.isFree t = true ∧ h.admits t q = true ∧ run? move? (h.calling t (.entering q)) ms = some h' := by
  obtain ⟨h₁, hm, hms⟩ := Option.bind_eq_some_iff.mp hms
  cases moved hm with
  | start hfree hadmits => exact ⟨hfree, hadmits, hms⟩

theorem completes_iff (hfree : h.isFree t = true) (hadmits : h.admits t q = true) :
    h.Completes t q a h' ↔ (h.calling t (.entering q)).Answers t a h' := by
  rw [Completes, start_calling hfree hadmits]
  simp

end

end Interlock.Hierarchy
