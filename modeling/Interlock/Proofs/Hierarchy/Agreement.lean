import Interlock.Proofs.Hierarchy.Beside

/-!
# Trying a lock and waiting for it

`Answers` follows a call while nobody else moves. With it `tryLock` can be compared with the call that waits:
they refuse alike, they grant alike and leave the same state, and `tryLock` gives up just where the call would wait.
Then another thread has the lock, since a thread never gets past the check of the order for a lock of its own.
-/

namespace Interlock.Hierarchy

variable {α : Type}

section
variable {h h' h₁ : Hierarchy α} {t : ThreadId} {l : LockId} {aim : Aim} {a : Answer α}

/-! ## A call that takes a lock -/

theorem step_entering_lock (env : Environment) : (h.calling t (.entering (.lock l aim))).step? env t =
    some (h.calling t (match h.checkAcquire t l with
      | .ok previous => .waiting l previous (.hold aim)
      | .error v => .releasing [] (.violated v))) := by
  simp only [step?, current?_calling, enter, approach]
  rw [calling, checkAcquire_inCalls, ← calling]
  cases h.checkAcquire t l with
  | ok previous => exact congrArg some (into_calling _)
  | error v => exact congrArg some (into_calling _)

theorem step_waiting_lock (env : Environment) (previous : Rank) :
    (h.calling t (.waiting l previous (.hold aim))).step? env t =
      (h.admit? t l previous).map fun x => (x.1.deliver t x.2 aim).calling t (.returned .done) := by
  simp only [step?, current?_calling]
  rw [calling, admit?_inCalls, Option.map_map]
  refine Option.map_congr fun x hx => ?_
  obtain ⟨h₁, g⟩ := x
  have hcalls := (arranges_deliver h₁ t g aim).calls.trans (arranges_admitted hx).calls
  simp only [Function.comp_apply, proceed, deliver_inCalls]
  rw [← hcalls]
  exact into_calling _

/-- A call that takes a lock is refused by the check, or it has the lock as soon as that is free. -/
theorem completes_lock_iff (hfree : h.isFree t = true) (hadmits : h.admits t (.lock l aim) = true) :
    h.Completes t (.lock l aim) a h' ↔
      (∃ v, h.checkAcquire t l = .error v ∧ a = .violated v ∧ h' = h) ∨
      ∃ previous h₁ g, h.checkAcquire t l = .ok previous ∧ h.admit? t l previous = some (h₁, g) ∧
        a = .done ∧ h' = h₁.deliver t g aim := by
  rw [completes_iff hfree hadmits, answers_of_step (answer?_calling _) step_entering_lock]
  cases hc : h.checkAcquire t l with
  | error v =>
    rw [answers_refused]
    simp
  | ok previous =>
    cases ha : h.admit? t l previous with
    | none =>
      rw [answers_of_stop fun env => by rw [step_waiting_lock, ha, Option.map_none], answer?_calling]
      simp [ha]
    | some x =>
      obtain ⟨h₁, g⟩ := x
      rw [answers_of_step (answer?_calling _) fun env => by rw [step_waiting_lock, ha, Option.map_some],
        answers_returned]
      simp [ha]

end

/-! ## The comparison -/

/-- The guard in the slot, by itself or in a handle. -/
def delivered? (h : Hierarchy α) (t : ThreadId) (aim : Aim) : Option Guard :=
  (h.slot? t aim.slot).bind Holding.guard?

/-- Trying a lock and the call that waits for it, both from the same state. -/
structure Agreement (h : Hierarchy α) (t : ThreadId) (l : LockId) (aim : Aim) : Prop where
  violated : ∀ v h', h.perform? t (.tryLock l aim) = some (h', .violated v) ↔
    h.Completes t (.lock l aim) (.violated v) h'
  violation : ∀ v h', h.perform? t (.tryLock l aim) = some (h', .violated v) →
    v = ⟨.acquire, h.rank l, h.ceiling t⟩ ∧ h' = h
  granted : ∀ h', h.perform? t (.tryLock l aim) = some (h', .flag true) ↔ h.Completes t (.lock l aim) .done h'
  guard : ∀ h', h.perform? t (.tryLock l aim) = some (h', .flag true) →
    h'.delivered? t aim = some ⟨l, h.ceiling t⟩ ∧ h'.ceiling t = h.rank l ∧ h'.holder? l = some t ∧
      ∀ k, h'.content? k = h.content? k
  /-- The lock is busy exactly if the order admits the thread, and another one has the lock or is stuck with it. -/
  busy : ∀ h', h.perform? t (.tryLock l aim) = some (h', .flag false) ↔
    h' = h ∧ h.checkAcquire t l = .ok (h.ceiling t) ∧
      ∃ u, u ≠ t ∧ (h.tenancy l = .held u ∨ h.tenancy l = .stuck u)
  /-- Then the call would wait. -/
  waits : h.perform? t (.tryLock l aim) = some (h, .flag false) → ∀ env,
    ∃ h₁, run? move? h [.start t (.lock l aim), .step t env] = some h₁ ∧ h₁.WaitsAt t l ∧
      ∀ env, h₁.step? env t = none
  tried : ∃ h' o, h.perform? t (.tryLock l aim) = some (h', o) ∧ (o = .flag true ∨ o = .flag false ∨ ∃ v, o = .violated v)

section
variable {h h' : Hierarchy α} {t : ThreadId} {l : LockId} {aim : Aim}

theorem tenancy_of_holder? (hl : h.holder? l = some t) : h.tenancy l = .held t ∨ h.tenancy l = .stuck t := by
  by_cases ho : l ∈ (h.owned t).map Guard.lock
  · exact .inl (tenancy_held hl ho)
  · exact .inr (tenancy_stuck hl ho)

theorem holder?_of_tenancy (ht : h.tenancy l = .held t ∨ h.tenancy l = .stuck t) : h.holder? l = some t := by
  rcases ht with ht | ht
  · unfold tenancy at ht
    split at ht
    · cases ht
    · split at ht
      · cases ht
        assumption
      · cases ht
  · exact (of_tenancy_stuck ht).1

/-- What the check admits a thread to it does not have. -/
theorem Reachable.not_own (hr : h.Reachable) {previous : Rank} (hc : h.checkAcquire t l = .ok previous) :
    h.holder? l ≠ some t := by
  intro hl
  obtain ⟨rfl, hlt⟩ := checkAcquire_ok hc
  exact absurd hlt (Nat.not_lt.mpr (hr.ceiling_le_rank hl).1)

theorem delivered?_deliver (h : Hierarchy α) (t : ThreadId) (g : Guard) (aim : Aim) :
    (h.deliver t g aim).delivered? t aim = some g := by
  cases aim <;> simp [delivered?, deliver, Aim.slot, slot?_setSlot, Holding.guard?]

theorem ceiling_deliver (h : Hierarchy α) (t u : ThreadId) (g : Guard) (aim : Aim) :
    (h.deliver t g aim).ceiling u = h.ceiling u := by
  cases aim <;> exact ceiling_setSlot ..

/-- How it goes when the thread asks for the lock, one way or the other. -/
inductive Trial (h : Hierarchy α) (t : ThreadId) (l : LockId) (aim : Aim) : Prop
  | refused (v : Violation) (check : h.checkAcquire t l = .error v)
      (tried : h.perform? t (.tryLock l aim) = some (h, .violated v))
      (called : ∀ a h', h.Completes t (.lock l aim) a h' ↔ a = .violated v ∧ h' = h)
  | busy (check : h.checkAcquire t l = .ok (h.ceiling t)) (full : h.admit? t l (h.ceiling t) = none)
      (tried : h.perform? t (.tryLock l aim) = some (h, .flag false))
      (called : ∀ a h', ¬ h.Completes t (.lock l aim) a h')
  | granted (h₁ : Hierarchy α) (g : Guard) (check : h.checkAcquire t l = .ok (h.ceiling t))
      (admitted : h.admit? t l (h.ceiling t) = some (h₁, g))
      (tried : h.perform? t (.tryLock l aim) = some (h₁.deliver t g aim, .flag true))
      (called : ∀ a h', h.Completes t (.lock l aim) a h' ↔ a = .done ∧ h' = h₁.deliver t g aim)

theorem trial (hfree : h.isFree t = true) (hadmits : h.admits t (.lock l aim) = true) : h.Trial t l aim := by
  have hacc : h.accepts t l aim = true := (Bool.and_eq_true_iff.mp hadmits).2
  have tried : h.perform? t (.tryLock l aim) = some (h.tryLock t l aim) := by
    simp only [perform?, hfree, if_true, attempt?, hacc]
  cases hc : h.checkAcquire t l with
  | error v =>
    refine .refused v hc (by rw [tried, tryLock, hc]) fun a h' => ?_
    rw [completes_lock_iff hfree hadmits]
    simp [hc]
  | ok previous =>
    obtain rfl := (checkAcquire_ok hc).1
    cases ha : h.admit? t l (h.ceiling t) with
    | none =>
      refine .busy hc ha (by simp only [tried, tryLock, hc, ha]) fun a h' => ?_
      rw [completes_lock_iff hfree hadmits]
      simp [hc, ha]
    | some x =>
      obtain ⟨h₁, g⟩ := x
      refine .granted h₁ g hc ha (by simp only [tried, tryLock, hc, ha]) fun a h' => ?_
      rw [completes_lock_iff hfree hadmits]
      simp [hc, ha]

/-- The lock is busy for a thread that the order admits, exactly if another one has it. -/
theorem Reachable.full_iff (hr : h.Reachable) (hl : l < h.locks.length) {previous : Rank}
    (hc : h.checkAcquire t l = .ok previous) : h.admit? t l previous = none ↔
      ∃ u, u ≠ t ∧ (h.tenancy l = .held u ∨ h.tenancy l = .stuck u) := by
  constructor
  · intro ha
    cases hu : h.holder? l with
    | none =>
      obtain ⟨h₁, hsome⟩ := admit?_of_free t previous hl hu
      rw [ha] at hsome
      cases hsome
    | some u =>
      refine ⟨u, ?_, tenancy_of_holder? hu⟩
      rintro rfl
      exact hr.not_own hc hu
  · rintro ⟨u, -, hu⟩
    exact admit?_of_held (holder?_of_tenancy hu) t previous

/-- The call of a thread that the order admits asks for a lock that is not free. -/
theorem comes_to_wait (hfree : h.isFree t = true) (hadmits : h.admits t (.lock l aim) = true) {previous : Rank}
    (hc : h.checkAcquire t l = .ok previous) (ha : h.admit? t l previous = none) (env : Environment) :
    ∃ h₁, run? move? h [.start t (.lock l aim), .step t env] = some h₁ ∧ h₁.WaitsAt t l ∧
      ∀ env, h₁.step? env t = none := by
  refine ⟨h.calling t (.waiting l previous (.hold aim)), ?_, ⟨previous, _, current?_calling⟩, fun env => ?_⟩
  · rw [run?, start_calling hfree hadmits, Option.bind_some, run?, move?, step_entering_lock, hc]
    rfl
  · rw [step_waiting_lock, ha, Option.map_none]

/-- What a thread has that was admitted to a lock. -/
theorem granted_guard {h₁ : Hierarchy α} {g : Guard} (ha : h.admit? t l (h.ceiling t) = some (h₁, g)) :
    (h₁.deliver t g aim).delivered? t aim = some ⟨l, h.ceiling t⟩ ∧ (h₁.deliver t g aim).ceiling t = h.rank l ∧
      (h₁.deliver t g aim).holder? l = some t ∧ ∀ k, (h₁.deliver t g aim).content? k = h.content? k := by
  have hlocks := locks_deliver h₁ t g aim
  have hcontent := (admit?_contents ha).2.2.2
  obtain ⟨rfl, -, -, hholder, hceiling, -, -⟩ := admit?_eq ha
  refine ⟨delivered?_deliver .., ?_, ?_, fun k => ?_⟩
  · rw [ceiling_deliver, hceiling, if_pos rfl]
  · rw [holder?_congr hlocks, hholder, if_pos rfl]
  · rw [content?_congr hlocks, hcontent]

theorem Trial.violated_iff (ht : h.Trial t l aim) (v : Violation) :
    h.perform? t (.tryLock l aim) = some (h', .violated v) ↔ h.Completes t (.lock l aim) (.violated v) h' := by
  cases ht with
  | refused w _ tried called => simp [tried, called, eq_comm, and_comm]
  | busy _ _ tried called => simp [tried, called]
  | granted _ _ _ _ tried called => simp [tried, called]

theorem Trial.granted_iff (ht : h.Trial t l aim) :
    h.perform? t (.tryLock l aim) = some (h', .flag true) ↔ h.Completes t (.lock l aim) .done h' := by
  cases ht with
  | refused w _ tried called => simp [tried, called]
  | busy _ _ tried called => simp [tried, called]
  | granted _ _ _ _ tried called => simp [tried, called, eq_comm]

theorem Trial.violation (ht : h.Trial t l aim) {v : Violation}
    (hv : h.perform? t (.tryLock l aim) = some (h', .violated v)) :
    v = ⟨.acquire, h.rank l, h.ceiling t⟩ ∧ h' = h := by
  cases ht with
  | refused w check tried _ =>
    cases tried.symm.trans hv
    exact ⟨(checkAcquire_error check).1, rfl⟩
  | busy _ _ tried _ => cases tried.symm.trans hv
  | granted _ _ _ _ tried _ => cases tried.symm.trans hv

theorem Trial.guard (ht : h.Trial t l aim) (hv : h.perform? t (.tryLock l aim) = some (h', .flag true)) :
    h'.delivered? t aim = some ⟨l, h.ceiling t⟩ ∧ h'.ceiling t = h.rank l ∧ h'.holder? l = some t ∧
      ∀ k, h'.content? k = h.content? k := by
  cases ht with
  | refused _ _ tried _ => cases tried.symm.trans hv
  | busy _ _ tried _ => cases tried.symm.trans hv
  | granted _ _ _ admitted tried _ =>
    cases tried.symm.trans hv
    exact granted_guard admitted

theorem Trial.busy_iff (ht : h.Trial t l aim) : h.perform? t (.tryLock l aim) = some (h', .flag false) ↔
    h' = h ∧ h.checkAcquire t l = .ok (h.ceiling t) ∧ h.admit? t l (h.ceiling t) = none := by
  cases ht with
  | refused _ check tried _ => simp [tried, check]
  | busy check full tried _ => simp [tried, check, full, eq_comm]
  | granted _ _ _ admitted tried _ => simp [tried, admitted]

theorem Trial.tried (ht : h.Trial t l aim) : ∃ h' o, h.perform? t (.tryLock l aim) = some (h', o) ∧
    (o = .flag true ∨ o = .flag false ∨ ∃ v, o = .violated v) := by
  cases ht with
  | refused v _ tried _ => exact ⟨_, _, tried, .inr (.inr ⟨v, rfl⟩)⟩
  | busy _ _ tried _ => exact ⟨_, _, tried, .inr (.inl rfl)⟩
  | granted _ _ _ _ tried _ => exact ⟨_, _, tried, .inl rfl⟩

theorem Reachable.agreement (hr : h.Reachable) (hfree : h.isFree t = true)
    (hadmits : h.admits t (.lock l aim) = true) : h.Agreement t l aim := by
  have hlt : l < h.locks.length := of_decide_eq_true (Bool.and_eq_true_iff.mp hadmits).1
  have ht := trial hfree hadmits
  refine ⟨fun v h' => ht.violated_iff v, fun v h' => ht.violation, fun h' => ht.granted_iff, fun h' => ht.guard,
    fun h' => ?_, fun hbusy env => ?_, ht.tried⟩
  · rw [ht.busy_iff]
    exact and_congr_right fun _ => and_congr_right fun hc => hr.full_iff hlt hc
  · obtain ⟨-, hc, hfull⟩ := ht.busy_iff.mp hbusy
    exact comes_to_wait hfree hadmits hc hfull env

/-- **Trying a lock agrees with waiting for it.** In every state of every run they are refused alike and granted alike,
and trying finds the lock busy only because of another thread; so no call ever waits for what its own thread has. -/
theorem tryLock_agrees_with_lock (hr : h.Reachable) :
    (∀ t l aim, h.isFree t = true → h.admits t (.lock l aim) = true → h.Agreement t l aim) ∧
      ∀ t l, h.WaitsAt t l → h.holder? l ≠ some t := by
  refine ⟨fun t l aim => hr.agreement, fun t l hw hl => ?_⟩
  exact Nat.lt_irrefl _ (rank_waited_lt hr hw hl)

end

/-- A thread has dropped a lock in a panic; another is stuck with one, and has a second that a third thread waits for. -/
def poisonedAndStuck : List (Move Nat) :=
  [.addLock 10 7, .addLock 5 0, .addLock 3 0] ++ Move.taking 2 0 "only" ++
    [.start 2 (.drop ["only"] (some "boom")), .step 2 default, .step 2 default, .step 2 default, .collect 2] ++
    Move.taking 3 1 "outer" ++ Move.taking 3 2 "inner" ++ Move.dropping 3 "outer" ++
    [.start 4 (.lock 2 (.guard "inner")), .step 4 default]

theorem tryLock_agrees_with_lock_poisoned_and_stuck : ∃ h : Hierarchy Nat, h.Reachable ∧
    (h.locks[0]?).map (·.mutex) = some ⟨none, true⟩ ∧ (∃ h', h.Completes 1 (.lock 0 (.guard "poisoned")) .done h') ∧
      h.tenancy 1 = .stuck 3 ∧ h.perform? 1 (.tryLock 1 (.newHandle "stuck")) = some (h, .flag false) ∧
        h.Agreement 1 0 (.guard "poisoned") ∧ h.Agreement 1 1 (.newHandle "stuck") ∧
          h.WaitsAt 4 2 ∧ h.holder? 2 ≠ some 4 := by
  let sees (h : Hierarchy Nat) := ((h.locks[0]?).map (·.mutex), h.tenancy 1, h.isFree 1, h.checkAcquire 1 1,
    h.admits 1 (.lock 0 (.guard "poisoned")), h.admits 1 (.lock 1 (.newHandle "stuck")),
    (h.perform? 1 (.tryLock 0 (.guard "poisoned"))).map Prod.snd, h.calls.current? 4)
  have hrun : (run? move? {} poisonedAndStuck).map sees = some (some ⟨none, true⟩, .stuck 3, true,
      .ok Rank.unbounded, true, true, some (.flag true), some (.waiting 2 Rank.unbounded (.hold (.guard "inner")))) := by
    rfl
  obtain ⟨h, hr, he⟩ := Option.map_eq_some_iff.mp hrun
  have hr : h.Reachable := Leads.refl.run _ hr
  simp only [sees, Prod.mk.injEq] at he
  obtain ⟨hpoisoned, hstuck, hfree, hcheck, hfirst, hsecond, htried, hcall⟩ := he
  obtain ⟨hagree, hwait⟩ := tryLock_agrees_with_lock hr
  have poisoned := hagree 1 0 (.guard "poisoned") hfree hfirst
  have stuck := hagree 1 1 (.newHandle "stuck") hfree hsecond
  obtain ⟨⟨h', o⟩, hgranted, rfl⟩ := Option.map_eq_some_iff.mp htried
  rw [(checkAcquire_ok hcheck).1] at hcheck
  have hbusy := (stuck.busy h).mpr ⟨rfl, hcheck, 3, by decide, .inr hstuck⟩
  have hwaits : h.WaitsAt 4 2 := ⟨_, _, hcall⟩
  exact ⟨h, hr, hpoisoned, ⟨h', (poisoned.granted h').mp hgranted⟩, hstuck, hbusy, poisoned, stuck, hwaits, hwait 4 2 hwaits⟩

end Interlock.Hierarchy
