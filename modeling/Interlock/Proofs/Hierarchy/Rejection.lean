import Interlock.Proofs.Hierarchy.Agreement
import Interlock.Proofs.Hierarchy.Recovery

/-!
# Rejected operations

An operation that is refused for the order of locks changes nothing. A call comes to its violation whatever the others
do, and they do not notice it. A guard or a handle that could not be released can be taken back and tried again, as often
as one likes; in its turn it is released, and then the ceiling is the one that it displaced.
-/

namespace Interlock.Hierarchy

variable {α : Type}

/-! ## Calls that are refused -/

/-- How far a call for a lock has come, by the answer of the check when it was made. -/
inductive Asks (h : Hierarchy α) (t : ThreadId) (l : LockId) (aim : Aim) : Except Violation Rank → Phase α → Prop
  | entering {c : Except Violation Rank} (known : l < h.locks.length) (check : h.checkAcquire t l = c) :
      Asks h t l aim c (.entering (.lock l aim))
  | refused (v : Violation) : Asks h t l aim (.error v) (.releasing [] (.violated v))
  | turnedAway (v : Violation) : Asks h t l aim (.error v) (.returned (.violated v))
  | waiting (previous : Rank) : Asks h t l aim (.ok previous) (.waiting l previous (.hold aim))
  | granted (previous : Rank) : Asks h t l aim (.ok previous) (.returned .done)

/-- How many steps a call has still to take that is refused. -/
def Phase.left : Phase α → Nat
  | .entering _ => 2
  | .releasing _ _ => 1
  | _ => 0

section
variable {h h' : Hierarchy α} {t u : ThreadId} {l : LockId} {aim : Aim} {c : Except Violation Rank} {v : Violation}
variable {p p' : Phase α} {rest : List (Phase α)} {m : Move α} {env : Environment}

theorem Asks.not_free (ha : h.Asks t l aim c p) (hp : h.calls.current? t = some p) : h.isFree t = false := by
  rw [isFree, hp]
  cases ha <;> rfl

/-- What others do is nothing to a call for a lock, but that it may have to wait. -/
theorem Asks.others (ha : h.Asks t l aim c p) (hr : h.Reachable) (hm : h.move? m = some h')
    (ht : m.thread? ≠ some t) : h'.Asks t l aim c p := by
  cases ha with
  | entering known check =>
    refine .entering (known_move hm known) ?_
    rw [checkAcquire, rank_move hm known, (hr.others hm ht).1]
    exact check
  | refused v => exact .refused v
  | turnedAway v => exact .turnedAway v
  | waiting previous => exact .waiting previous
  | granted previous => exact .granted previous

theorem Asks.step (ha : h.Asks t l aim c p) (hp : h.phases t = p :: rest) (hs : h.step? env t = some h') :
    ∃ p', h'.phases t = p' :: rest ∧ h'.Asks t l aim c p' := by
  have hcurrent : h.calls.current? t = some p := Calls.current?_eq_of_cons hp
  cases ha with
  | entering known check =>
    simp only [step?, hcurrent, enter, approach, check, Option.some.injEq] at hs
    subst hs
    cases c with
    | ok previous => exact ⟨_, phases_into hp _, .waiting previous⟩
    | error v => exact ⟨_, phases_into hp _, .refused v⟩
  | refused v =>
    simp only [step?, hcurrent, dropNext, Option.some.injEq] at hs
    subst hs
    exact ⟨_, phases_into hp _, .turnedAway v⟩
  | turnedAway v => simp [step?, hcurrent] at hs
  | waiting previous =>
    simp only [step?, hcurrent] at hs
    obtain ⟨⟨h₁, g⟩, ha, rfl⟩ := Option.map_eq_some_iff.mp hs
    have hp₁ := (phases_deliver h₁ t t g aim).trans ((admit?_keeps ha t).2.trans hp)
    exact ⟨_, phases_into hp₁ _, .granted previous⟩
  | granted previous => simp [step?, hcurrent] at hs

/-- A call that is refused always goes on, until it has answered, and changes nothing but its phase. -/
theorem Asks.refused_step (ha : h.Asks t l aim (.error v) p) (hp : h.calls.current? t = some p) (env : Environment) :
    (∃ p', h.step? env t = some (h.into t p') ∧ p'.left + 1 = p.left) ∨
      p = .returned (.violated v) ∧ h.step? env t = none := by
  cases ha with
  | entering known check =>
    refine .inl ⟨.releasing [] (.violated v), ?_, rfl⟩
    simp only [step?, hp, enter, approach, check]
  | refused v =>
    refine .inl ⟨.returned (.violated v), ?_, rfl⟩
    simp only [step?, hp, dropNext]
  | turnedAway v => exact .inr ⟨rfl, by simp only [step?, hp]⟩

theorem Asks.run (hr : h.Reachable) (hp : h.phases t = p :: rest) (ha : h.Asks t l aim c p) {ms : List (Move α)}
    (hms : run? move? h ms = some h') (hopen : .collect t ∉ ms) :
    ∃ p', h'.phases t = p' :: rest ∧ h'.Asks t l aim c p' ∧ ∀ v, c = .error v →
      run? move? (h.collect t) (ms.filter fun m => m.thread? ≠ some t) = some (h'.collect t) ∧
        (ms.filter fun m => m.thread? = some t).length + p'.left = p.left := by
  induction ms generalizing h p with
  | nil =>
    cases hms
    exact ⟨p, hp, ha, fun v _ => ⟨rfl, Nat.zero_add _⟩⟩
  | cons m ms ih =>
    obtain ⟨h₁, hm, hnext⟩ := Option.bind_eq_some_iff.mp hms
    rw [List.mem_cons, not_or] at hopen
    have hcurrent : h.calls.current? t = some p := Calls.current?_eq_of_cons hp
    by_cases ht : m.thread? = some t
    · obtain ⟨env, rfl⟩ := own_step hm (ha.not_free hcurrent) ht (Ne.symm hopen.1)
      obtain ⟨p₁, hp₁, ha₁⟩ := ha.step hp hm
      obtain ⟨p', hp', ha', hrefused⟩ := ih (hr.tail _ hm) hp₁ ha₁ hnext hopen.2
      refine ⟨p', hp', ha', fun v hv => ?_⟩
      obtain ⟨hrun, hleft⟩ := hrefused v hv
      subst hv
      rw [List.filter_cons_of_neg (by simp [ht]), List.filter_cons_of_pos (by simp [ht]), List.length_cons]
      rcases ha.refused_step hcurrent env with ⟨q, hq, hless⟩ | ⟨-, hnone⟩
      · obtain rfl := Option.some.inj ((show h.step? env t = some h₁ from hm).symm.trans hq)
        rw [phases_into hp] at hp₁
        cases hp₁
        rw [collect_into] at hrun
        exact ⟨hrun, by omega⟩
      · rw [move?, hnone] at hm
        cases hm
    · have hp₁ := (hr.others hm ht).2.2.trans hp
      obtain ⟨p', hp', ha', hrefused⟩ := ih (hr.tail m hm) hp₁ (ha.others hr hm ht) hnext hopen.2
      refine ⟨p', hp', ha', fun v hv => ?_⟩
      obtain ⟨hrun, hleft⟩ := hrefused v hv
      rw [List.filter_cons_of_pos (by simp [ht]), List.filter_cons_of_neg (by simp [ht]), run?,
        move_collect hm ht, Option.bind_some]
      exact ⟨hrun, hleft⟩

end

/-- A call for the lock that is made now ends in this violation, and is not there as far as others can tell. -/
structure TurnedAway (h : Hierarchy α) (t : ThreadId) (l : LockId) (aim : Aim) (v : Violation) : Prop where
  check : v = ⟨.acquire, h.rank l, h.ceiling t⟩ ∧ h.ceiling t ≤ h.rank l
  alone : h.Completes t (.lock l aim) (.violated v) h
  /-- Whatever others do meanwhile, it never waits, it is over after two steps of its own, and once its answer is taken
  all is as if it had not been made. -/
  among : ∀ ms h', run? move? h (.start t (.lock l aim) :: ms) = some h' → .collect t ∉ ms →
    run? move? h (ms.filter fun m => m.thread? ≠ some t) = some (h'.collect t) ∧
      ((ms.filter fun m => m.thread? = some t).length = 2 ∧ h'.answer? t = some (.violated v) ∨
        (ms.filter fun m => m.thread? = some t).length < 2 ∧ ∀ env, ∃ p, h'.step? env t = some (h'.into t p))

section
variable {h h' : Hierarchy α} {t : ThreadId} {l : LockId} {aim : Aim} {v : Violation} {ms : List (Move α)}

/-- A call for a lock among moves of others. -/
theorem Reachable.asks (hr : h.Reachable) (hms : run? move? h (.start t (.lock l aim) :: ms) = some h')
    (hopen : .collect t ∉ ms) : ∃ p', h'.calls.current? t = some p' ∧ h'.Asks t l aim (h.checkAcquire t l) p' ∧
      ∀ v, h.checkAcquire t l = .error v →
        run? move? h (ms.filter fun m => m.thread? ≠ some t) = some (h'.collect t) ∧
          (ms.filter fun m => m.thread? = some t).length + p'.left = 2 := by
  obtain ⟨hfree, hadmits, hms⟩ := started hms
  have hlt : l < h.locks.length := of_decide_eq_true (Bool.and_eq_true_iff.mp hadmits).1
  have hr₁ : (h.calling t (.entering (.lock l aim))).Reachable := hr.tail _ (start_calling hfree hadmits)
  obtain ⟨p', hp', ha', hrefused⟩ := Asks.run hr₁ (phases_calling ..) (.entering hlt checkAcquire_inCalls) hms hopen
  rw [collect_calling] at hrefused
  exact ⟨p', Calls.current?_eq_of_cons hp', ha', hrefused⟩

theorem Reachable.turnedAway (hr : h.Reachable) (hfree : h.isFree t = true)
    (hadmits : h.admits t (.lock l aim) = true) (hc : h.checkAcquire t l = .error v) : h.TurnedAway t l aim v where
  check := checkAcquire_error hc
  alone := (completes_lock_iff hfree hadmits).mpr (.inl ⟨v, hc, rfl, rfl⟩)
  among ms h' hms hopen := by
    obtain ⟨p', hp', ha', hrefused⟩ := hr.asks hms hopen
    obtain ⟨hrun, hleft⟩ := hrefused v hc
    refine ⟨hrun, ?_⟩
    rw [hc] at ha'
    cases ha' with
    | entering _ check =>
      refine .inr ⟨by rw [Phase.left] at hleft; omega, fun env => ⟨.releasing [] (.violated v), ?_⟩⟩
      simp only [step?, hp', enter, approach, check]
    | refused v =>
      refine .inr ⟨by rw [Phase.left] at hleft; omega, fun env => ⟨.returned (.violated v), ?_⟩⟩
      simp only [step?, hp', dropNext]
    | turnedAway v => exact .inl ⟨hleft, by rw [answer?, hp']⟩

theorem Reachable.turnedAway_of_answer (hr : h.Reachable)
    (hms : run? move? h (.start t (.lock l aim) :: ms) = some h') (hopen : .collect t ∉ ms)
    (hanswer : h'.answer? t = some (.violated v)) : h.TurnedAway t l aim v := by
  obtain ⟨hfree, hadmits, -⟩ := started hms
  obtain ⟨p', hp', ha', -⟩ := hr.asks hms hopen
  rw [answer?, hp'] at hanswer
  generalize hc : h.checkAcquire t l = c at ha'
  cases ha' with
  | turnedAway w =>
    obtain rfl : w = v := by simpa using hanswer
    exact hr.turnedAway hfree hadmits hc
  | granted previous => simp at hanswer
  | _ => cases hanswer

end

/-! ## Trying again -/

/-- What takes the guard back after the deed was refused. -/
def Deed.takesBack : Deed → List Deed
  | .unlock slot => [.recover slot]
  | _ => []

section
variable {h h' h₁ : Hierarchy α} {t : ThreadId} {d : Deed} {v : Violation} {x : Guard} {os : List Outcome}

theorem performAll?_append {ds ds' : List Deed} (hds : h.performAll? t ds = some (h₁, os)) :
    h.performAll? t (ds ++ ds') = (h₁.performAll? t ds').map fun y => (y.1, os ++ y.2) := by
  induction ds generalizing h os with
  | nil =>
    cases hds
    simp
  | cons d ds ih =>
    obtain ⟨⟨h₂, o⟩, hd, hds⟩ := Option.bind_eq_some_iff.mp hds
    obtain ⟨⟨h₃, os'⟩, hrest, hlast⟩ := Option.bind_eq_some_iff.mp hds
    cases hlast
    simp only [List.cons_append, performAll?, hd, Option.bind_eq_bind, Option.bind_some, ih hrest]
    cases h₁.performAll? t ds' <;> rfl

theorem RefusedDeed.perform_takesBack (hd : h.RefusedDeed t d v h') (hfree : h.isFree t = true) :
    h'.performAll? t d.takesBack = some (h, d.takesBack.map fun _ => .done) := by
  cases hd with
  | tryLock _ _ => rfl
  | unlockHandle _ _ _ => rfl
  | @unlock slot g hs _ =>
    have hslot := slot?_setSlot h t slot slot (.refused ⟨.release, h.rank g.lock, h.ceiling t⟩ g)
    rw [if_pos rfl] at hslot
    have hfree' : (h.setSlot t slot (.refused ⟨.release, h.rank g.lock, h.ceiling t⟩ g)).isFree t = true := hfree
    simp only [Deed.takesBack, performAll?, perform?, hfree', if_true, attempt?, hslot]
    rw [setSlot_setSlot, setSlot_self hs]
    rfl

/-- Refused and taken back, as often as one likes. -/
theorem RefusedDeed.retry (hd : h.RefusedDeed t d v h') (hp : h.perform? t d = some (h', .violated v)) (n : Nat) :
    h.performAll? t (List.replicate n (d :: d.takesBack)).flatten =
      some (h, (List.replicate n (.violated v :: d.takesBack.map fun _ => .done)).flatten) := by
  have hfree : h.isFree t = true := by
    unfold perform? at hp
    split at hp
    · assumption
    · cases hp
  have once : h.performAll? t (d :: d.takesBack) = some (h, .violated v :: d.takesBack.map fun _ => .done) := by
    simp only [performAll?, hp, Option.bind_eq_bind, Option.bind_some, hd.perform_takesBack hfree]
  induction n with
  | zero => rfl
  | succ n ih =>
    rw [List.replicate_succ, List.flatten_cons, performAll?_append once, ih]
    rfl

/-- The slot of a deed that gives up a guard. -/
def Deed.slot? : Deed → Option String
  | .unlock slot => some slot
  | .unlockHandle slot => some slot
  | _ => none

theorem ReleasedBy.slot (hd : h.ReleasedBy t x d) :
    ∃ slot y, d.slot? = some slot ∧ h.slot? t slot = some y ∧ y.guard? = some x := by
  cases d with
  | unlock slot => exact ⟨slot, _, rfl, hd, rfl⟩
  | unlockHandle slot =>
    obtain ⟨k, hs, hk⟩ := hd
    exact ⟨slot, _, rfl, hs, hk⟩
  | _ => exact hd.elim

/-- A deed that gives up a guard leaves other slots as they are. -/
theorem slot?_perform_of_ne {slot target : String} {o : Outcome} (hd : d.slot? = some slot) (hne : slot ≠ target)
    (hp : h.perform? t d = some (h', o)) : h'.slot? t target = h.slot? t target := by
  have hrelease (h : Hierarchy α) (g : Guard) : (h.release t g false).slot? t target = h.slot? t target := by
    rw [slot?, slots_release, slot?]
  unfold perform? at hp
  split at hp
  · generalize hx : (h', o) = y at hp
    cases attempted hp with
    | unlock _ =>
      cases hd
      unfold unlock at hx
      split at hx
      · cases hx
        rw [slot?_clearSlot, if_neg hne, hrelease]
      · cases hx
        rw [slot?_setSlot, if_neg hne]
    | unlockHandle _ =>
      cases hd
      unfold unlockHandle at hx
      split at hx
      · cases hx
        rfl
      · split at hx
        · cases hx
          rw [slot?_setSlot, if_neg hne, hrelease]
        · cases hx
          rfl
    | _ => cases hd
  · cases hp

theorem isFree_perform {o : Outcome} (hp : h.perform? t d = some (h', o)) : h'.isFree t = h.isFree t := by
  unfold perform? at hp
  split at hp
  · exact isFree_congr (arranges_attempt hp).calls t
  · cases hp

theorem rank_perform {o : Outcome} (hp : h.perform? t d = some (h', o)) (l : LockId) : h'.rank l = h.rank l := by
  unfold perform? at hp
  split at hp
  · exact rank_attempt hp
  · cases hp

theorem performAll_of_ne {target : String} {ds : List Deed}
    (hds : ∀ d ∈ ds, ∃ slot, d.slot? = some slot ∧ slot ≠ target) (hall : h.performAll? t ds = some (h', os)) :
    h'.slot? t target = h.slot? t target ∧ h'.isFree t = h.isFree t ∧ ∀ l, h'.rank l = h.rank l := by
  induction ds generalizing h os with
  | nil =>
    cases hall
    exact ⟨rfl, rfl, fun _ => rfl⟩
  | cons d ds ih =>
    obtain ⟨⟨h₁, o⟩, hp, hall⟩ := Option.bind_eq_some_iff.mp hall
    obtain ⟨⟨h₂, os'⟩, hrest, hlast⟩ := Option.bind_eq_some_iff.mp hall
    cases hlast
    obtain ⟨slot, hslot, hne⟩ := hds d List.mem_cons_self
    obtain ⟨hsame, hfree, hrank⟩ := ih (fun d hd => hds d (List.mem_cons_of_mem _ hd)) hrest
    exact ⟨hsame.trans (slot?_perform_of_ne hslot hne hp), hfree.trans (isFree_perform hp),
      fun l => (hrank l).trans (rank_perform hp l)⟩

end

/-- The guard `x`, which lies behind those of `inner`, cannot be released before them, but after them it can. -/
structure Retries (h : Hierarchy α) (t : ThreadId) (inner : List Guard) (x : Guard) (outer : List Guard) (d : Deed) :
    Prop where
  /-- Tried too early, any number of times, it comes back, and all is as before. -/
  again : ∀ n, h.performAll? t (List.replicate n (d :: d.takesBack)).flatten = some (h, (List.replicate n
    (.violated ⟨.release, h.rank x.lock, h.ceiling t⟩ :: d.takesBack.map fun _ => .done)).flatten)
  /-- Tried too early, and again after all those that lie further in. -/
  later : ∀ ds, List.Forall₂ (h.ReleasedBy t) inner ds → ∃ h₁ h₂ h₃,
    h.perform? t d = some (h₁, .violated ⟨.release, h.rank x.lock, h.ceiling t⟩) ∧
    h₁.performAll? t (ds ++ d.takesBack) = some (h₂, (ds ++ d.takesBack).map fun _ => .done) ∧
    h₂.ceiling t = h.rank x.lock ∧ h₂.perform? t d = some (h₃, .done) ∧
    h₃.ceiling t = x.previous ∧ x.previous = h.innermost outer ∧
    ∀ k, h₃.holder? k = if k ∈ (inner ++ [x]).map Guard.lock then none else h.holder? k

section
variable {h h' h₁ h₂ : Hierarchy α} {t : ThreadId} {x y : Guard} {d e : Deed} {v : Violation} {slot : String}

/-- States that differ at most in guards that came back. -/
theorem same_of_recovered (he : h'.recovered = h.recovered) :
    (∀ l, h'.rank l = h.rank l) ∧ (∀ l, h'.holder? l = h.holder? l) ∧ (∀ u, h'.ceiling u = h.ceiling u) ∧
      ∀ u, h'.isFree u = h.isFree u := by
  refine ⟨fun l => ?_, fun l => ?_, fun u => ?_, fun u => ?_⟩
  · show h'.recovered.rank l = h.recovered.rank l
    rw [he]
  · show h'.recovered.holder? l = h.recovered.holder? l
    rw [he]
  · rw [← ceiling_recovered, he, ceiling_recovered]
  · show h'.recovered.isFree u = h.recovered.isFree u
    rw [he]

theorem ReleasedBy.refused (hd : h.ReleasedBy t x d) (hfree : h.isFree t = true) (hne : h.ceiling t ≠ h.rank x.lock) :
    ∃ h₁, h.perform? t d = some (h₁, .violated ⟨.release, h.rank x.lock, h.ceiling t⟩) ∧
      h.RefusedDeed t d ⟨.release, h.rank x.lock, h.ceiling t⟩ h₁ := by
  have hc : h.checkRelease t x = .error ⟨.release, h.rank x.lock, h.ceiling t⟩ := if_neg hne
  cases d with
  | unlock slot =>
    have hs : h.slot? t slot = some (.guard x) := hd
    exact ⟨_, by simp only [perform?, hfree, if_true, attempt?, hs, unlock, hc], .unlock hs hne⟩
  | unlockHandle slot =>
    obtain ⟨k, hs, hk⟩ := hd
    exact ⟨h, by simp only [perform?, hfree, if_true, attempt?, hs, unlockHandle, hk, hc], .unlockHandle hs hk hne⟩
  | _ => exact hd.elim

/-- Two guards are in two slots. -/
theorem ReleasedBy.slot_ne (hd : h.ReleasedBy t x d) (he : h.ReleasedBy t y e) (hne : y ≠ x) (hs : d.slot? = some slot) :
    ∃ target, e.slot? = some target ∧ target ≠ slot := by
  obtain ⟨s, z, hslot, hz, hx⟩ := hd.slot
  obtain ⟨target, z', htarget, hz', hy⟩ := he.slot
  obtain rfl := Option.some.inj (hslot.symm.trans hs)
  refine ⟨target, htarget, ?_⟩
  rintro rfl
  obtain rfl := Option.some.inj (hz.symm.trans hz')
  exact hne (Option.some.inj (hy.symm.trans hx))

/-- What is left in the slot of a refused deed is taken back later. -/
theorem ReleasedBy.takesBack (hd : h.ReleasedBy t x d) (hr : h.RefusedDeed t d v h₁) (hs : d.slot? = some slot)
    (hsame : h₂.slot? t slot = h₁.slot? t slot) (hfree : h₂.isFree t = true) :
    ∃ h₃, h₂.performAll? t d.takesBack = some (h₃, d.takesBack.map fun _ => .done) ∧ h₃.ReleasedBy t x d ∧
      h₃.recovered = h₂.recovered := by
  cases hr with
  | tryLock _ _ => cases hs
  | @unlock s g hg _ =>
    cases hs
    have hx : h.slot? t slot = some (.guard x) := hd
    obtain rfl : g = x := by simpa [hx] using hg.symm
    rw [slot?_setSlot, if_pos rfl] at hsame
    have hperform : h₂.perform? t (.recover slot) = some (h₂.setSlot t slot (.guard g), .done) := by
      simp only [perform?, hfree, if_true, attempt?, hsame]
    refine ⟨h₂.setSlot t slot (.guard g), ?_, ?_, ?_⟩
    · simp only [Deed.takesBack, performAll?, hperform]
      rfl
    · exact (slot?_setSlot ..).trans (if_pos rfl)
    · rw [setSlot_recovered]
      exact setSlot_self (by rw [slot?_recovered, hsame]; rfl)
  | @unlockHandle s k g hk hg _ =>
    cases hs
    obtain ⟨j, hj, hx⟩ := hd
    refine ⟨h₂, rfl, ⟨j, ?_, hx⟩, rfl⟩
    rw [hsame, hj]

end

section
variable {r : Record α} {t : ThreadId} {inner outer : List Guard} {x : Guard} {d : Deed}

theorem Linked.ceiling_lt {h : Hierarchy α} {c : Rank} (hl : h.Linked c (inner ++ x :: outer)) (hinner : inner ≠ []) :
    c < h.rank x.lock := by
  cases inner with
  | nil => exact absurd rfl hinner
  | cons y inner =>
    obtain ⟨-, hlt, hl⟩ := hl
    exact Nat.lt_of_lt_of_le hlt (hl.rank_mem x (by simp)).1

theorem Record.Reachable.retries (hr : r.Reachable) (hheld : r.held t = inner ++ x :: outer) (hinner : inner ≠ [])
    (hfree : r.state.isFree t = true) (hd : r.state.ReleasedBy t x d) : r.state.Retries t inner x outer d := by
  have hlinked := hheld ▸ hr.sound.linked t
  obtain ⟨h₁, hperform, hrefused⟩ := hd.refused hfree (Nat.ne_of_lt (hlinked.ceiling_lt hinner))
  refine ⟨fun n => hrefused.retry hperform n, fun ds hds => ?_⟩
  obtain ⟨slot, -, hslot, -, -⟩ := hd.slot
  obtain ⟨hrank, hholder, hceiling, hfree₁⟩ := same_of_recovered hrefused.recovered
  have hnodup := hlinked.nodup
  have hne : ∀ y ∈ inner, y ≠ x := by
    rintro y hy rfl
    rw [List.map_append, List.map_cons, List.nodup_append] at hnodup
    exact hnodup.2.2 _ (List.mem_map_of_mem hy) _ List.mem_cons_self rfl
  have hpairs := (List.forall₂_and_left _ _).mpr ⟨hne, hds⟩
  -- the guards further in are released as if nothing had been tried
  have hds₁ : List.Forall₂ (h₁.ReleasedBy t) inner ds := by
    refine hpairs.imp fun y e hy => hy.2.congr fun target z hz hguard => ?_
    have hother : slot ≠ target := by
      rintro rfl
      obtain ⟨s, w, hs, hw, hx⟩ := hd.slot
      obtain rfl := Option.some.inj (hs.symm.trans hslot)
      obtain rfl := Option.some.inj (hw.symm.trans hz)
      exact hy.1 (Option.some.inj (hguard.symm.trans hx))
    rw [slot?_perform_of_ne hslot hother hperform, hz]
  have hlinked₁ : h₁.Linked (h₁.ceiling t) (inner ++ x :: outer) := by
    rw [hceiling]
    exact hlinked.congr fun l _ => hrank l
  obtain ⟨h₂, hall, hceiling₂, hholder₂⟩ := hlinked₁.releases ((hfree₁ t).trans hfree) hds₁
  have hothers : ∀ e ∈ ds, ∃ target, e.slot? = some target ∧ target ≠ slot := by
    have hother := hpairs.imp fun y e hy => hd.slot_ne hy.2 hy.1 hslot
    exact ((List.forall₂_and_left _ _).mp (hother.flip.imp fun e y he => ⟨he, trivial⟩)).1
  obtain ⟨hslot₂, hfree₂, hrank₂⟩ := performAll_of_ne hothers hall
  -- then the guard is taken back, and is in order
  obtain ⟨h₃, hback, hd₃, hrecovered⟩ := hd.takesBack hrefused hslot hslot₂ (by rw [hfree₂, hfree₁, hfree])
  obtain ⟨hrank₃, hholder₃, hceiling₃, hfree₃⟩ := same_of_recovered hrecovered
  have hin : h₃.ceiling t = r.state.rank x.lock := by
    rw [hceiling₃, hceiling₂]
    exact hrank x.lock
  have hlast : h₃.rank x.lock = r.state.rank x.lock := by rw [hrank₃, hrank₂, hrank]
  obtain ⟨h₄, hdone, hreleased⟩ := hd₃.perform (by rw [hfree₃, hfree₂, hfree₁, hfree]) (hin.trans hlast.symm)
  refine ⟨h₁, h₃, h₄, hperform, ?_, hin, hdone, hreleased.ceiling, hlinked.previous, fun k => ?_⟩
  · rw [performAll?_append hall, hback, Option.map_some, List.map_append]
  · rw [hreleased.holder, hholder₃, hholder₂, hholder]
    by_cases hx : x.lock = k
    · simp [hx]
    · simp [hx, Ne.symm hx]

end

/-- **Rejected operations change nothing and can be tried again.** In every state of every run: a call for a lock that
ends in a violation is not there for anybody else; a deed that is refused leaves all as it was, but that the guard comes
back with the reason, and it can be taken back; a guard that lies behind others can be tried in vain at any time, and is
released in its turn. So a run with refused deeds ends as it does without them. -/
theorem rejected_changes_nothing {r : Record α} (hr : r.Reachable) :
    (∀ t l aim ms h' v, run? move? r.state (.start t (.lock l aim) :: ms) = some h' → .collect t ∉ ms →
      h'.answer? t = some (.violated v) → r.state.TurnedAway t l aim v) ∧
    (∀ t d h' v, r.state.perform? t d = some (h', .violated v) → r.state.RefusedDeed t d v h' ∧
      h'.recovered = r.state.recovered ∧
        h'.performAll? t d.takesBack = some (r.state, d.takesBack.map fun _ => .done)) ∧
    (∀ t inner x outer d, r.held t = inner ++ x :: outer → inner ≠ [] → r.state.isFree t = true →
      r.state.ReleasedBy t x d → r.state.Retries t inner x outer d) ∧
    ∀ ms h', run? move? r.state ms = some h' →
      run? move? r.state.recovered (r.state.effective ms) = some h'.recovered ∧
        (r.state.isPlain = true → h'.isPlain = true → run? move? r.state (r.state.effective ms) = some h') := by
  refine ⟨fun t l aim ms h' v => hr.state.turnedAway_of_answer, fun t d h' v hd => ?_,
    fun t inner x outer d => hr.retries, fun ms h' hms => ⟨run_recovered hms, fun hp hp' => ?_⟩⟩
  · unfold perform? at hd
    split at hd
    · rename_i hfree
      have hrefused := refusedDeed hd
      exact ⟨hrefused, hrefused.recovered, hrefused.perform_takesBack hfree⟩
    · cases hd
  · have hrun := run_recovered hms
    rwa [recovered_of_isPlain hp, recovered_of_isPlain hp'] at hrun

/-- A thread has three locks, the middle one in a handle. -/
def threeDeep : List (Move Nat) :=
  [.addLock 20 0, .addLock 10 7, .addLock 5 0] ++ Move.taking 1 0 "outer" ++
    [.start 1 (.lock 1 (.newHandle "middle")), .step 1 default, .step 1 default, .collect 1] ++
    Move.taking 1 2 "inner"

/-- The thread tries the locks in the wrong order before it releases them in the right one. -/
def wrongThenRight : List (Move Nat) :=
  [.unlock "outer", .unlockHandle "middle", .recover "outer", .unlock "inner", .unlock "outer", .unlockHandle "middle",
    .recover "outer", .tryLock 0 (.guard "again"), .unlock "outer"].map (.perform 1)

theorem rejected_changes_nothing_three_deep : ∃ r : Record Nat, r.Reachable ∧
    r.held 1 = [⟨2, 10⟩, ⟨1, 20⟩, ⟨0, Rank.unbounded⟩] ∧
    r.state.TurnedAway 1 0 (.guard "again") ⟨.acquire, 20, 5⟩ ∧
    r.state.Retries 1 [⟨2, 10⟩, ⟨1, 20⟩] ⟨0, Rank.unbounded⟩ [] (.unlock "outer") ∧
    r.state.Retries 1 [⟨2, 10⟩] ⟨1, 20⟩ [⟨0, Rank.unbounded⟩] (.unlockHandle "middle") ∧
    ∃ h', run? move? r.state wrongThenRight = some h' ∧ h'.ceiling 1 = Rank.unbounded ∧ h'.holder? 0 = none ∧
      run? move? r.state ([.unlock "inner", .unlockHandle "middle", .unlock "outer"].map (.perform 1)) = some h' := by
  let again : List (Move Nat) := [.step 1 default, .addLock 3 0, .start 2 (.lock 3 (.guard "other")), .step 1 default]
  let sees (r : Record Nat) := (r.held 1, r.state.isFree 1, r.state.slot? 1 "outer", r.state.slot? 1 "middle",
    r.state.isPlain)
  let seesLater (h : Hierarchy Nat) := (h.ceiling 1, h.holder? 0, h.isPlain)
  have hrun : (run? Record.next? {} threeDeep).map sees = some ([⟨2, 10⟩, ⟨1, 20⟩, ⟨0, Rank.unbounded⟩], true,
      some (.guard ⟨0, Rank.unbounded⟩), some (.handle ⟨1, .locked, some ⟨1, 20⟩⟩), true) := by decide +kernel
  have hagain : (run? Record.next? {} threeDeep).bind (fun r =>
      (run? move? r.state (.start 1 (.lock 0 (.guard "again")) :: again)).map fun h => h.answer? 1) =
        some (some (.violated ⟨.acquire, 20, 5⟩)) := by rfl
  have hmixed : (run? Record.next? {} threeDeep).bind (fun r => (run? move? r.state wrongThenRight).map seesLater) =
      some (Rank.unbounded, none, true) := by decide +kernel
  have heffective : (run? Record.next? {} threeDeep).map (fun r => r.state.effective wrongThenRight) =
      some ([.unlock "inner", .unlockHandle "middle", .unlock "outer"].map (.perform 1)) := by rfl
  obtain ⟨r, hr, hsees⟩ := Option.map_eq_some_iff.mp hrun
  rw [hr, Option.bind_some] at hagain hmixed
  rw [hr, Option.map_some] at heffective
  have hr : r.Reachable := Leads.refl.run _ hr
  simp only [sees, Prod.mk.injEq] at hsees
  obtain ⟨hheld, hfree, houter, hmiddle, hplain⟩ := hsees
  obtain ⟨h₁, hcall, hanswer⟩ := Option.map_eq_some_iff.mp hagain
  obtain ⟨h', hms, hlater⟩ := Option.map_eq_some_iff.mp hmixed
  simp only [seesLater, Prod.mk.injEq] at hlater
  obtain ⟨hceiling, hholder, hplain'⟩ := hlater
  obtain ⟨hcalls, -, hretries, hruns⟩ := rejected_changes_nothing hr
  have hsame := (hruns wrongThenRight h' hms).2 hplain hplain'
  rw [Option.some.inj heffective] at hsame
  have houtermost := hretries 1 [⟨2, 10⟩, ⟨1, 20⟩] ⟨0, Rank.unbounded⟩ [] (.unlock "outer") hheld (by simp) hfree houter
  have hmiddlemost := hretries 1 [⟨2, 10⟩] ⟨1, 20⟩ [⟨0, Rank.unbounded⟩] (.unlockHandle "middle") hheld (by simp) hfree
    ⟨_, hmiddle, rfl⟩
  exact ⟨r, hr, hheld, hcalls 1 0 _ again h₁ _ hcall (by simp [again]) hanswer, houtermost, hmiddlemost, h', hms, hceiling,
    hholder, hsame⟩

end Interlock.Hierarchy
