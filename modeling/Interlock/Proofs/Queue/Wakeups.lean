import Mathlib.Data.Set.Card
import Interlock.Proofs.Queue.Moves

/-!
# No lost wakeup

The notice of a push may go to a thread that finds the element gone, and a woken thread may find an element
that no notice announced. What survives every order of steps is a count: while somebody is asleep, there are
at least as many woken consumers, who have yet to take the mutex again, as elements. So when nothing moves
any more, a consumer still waits only for a queue that is empty.
-/

namespace Interlock.Queue

variable {α : Type}

/-- The consumers that were woken and have not taken the mutex again. -/
def woken (q : Queue α) : Set ThreadId := {t | ∃ r, q.calls.current? t = some (.woken r)}

def asleep (q : Queue α) : Set ThreadId := {t | ∃ r, q.calls.current? t = some (.asleep r)}

/-- Every call has returned or can make no step. -/
def Quiescent (q : Queue α) : Prop := ∀ t, (q.answer? t).isSome ∨ ∀ env, q.step? env t = none

/-! ## Counting the woken -/

theorem finite_woken (q : Queue α) : q.woken.Finite := by
  refine (List.finite_toSet (q.calls.pending.map Prod.fst)).subset ?_
  rintro t ⟨r, hr⟩
  exact Entries.find_isSome_iff.mp (Option.isSome_iff_exists.mpr ⟨_, hr⟩)

section
variable {q q' : Queue α} {t : ThreadId} {p : Phase α}

theorem notMem_asleep (ht : q.calls.current? t = some p) (hp : ∀ r, p ≠ .asleep r) : t ∉ q.asleep := by
  rintro ⟨r, hr⟩
  rw [ht] at hr
  exact hp r (Option.some.inj hr)

theorem notMem_woken (ht : q.calls.current? t = some p) (hp : ∀ r, p ≠ .woken r) : t ∉ q.woken := by
  rintro ⟨r, hr⟩
  rw [ht] at hr
  exact hp r (Option.some.inj hr)

theorem woken_into_woken (q : Queue α) (t : ThreadId) (r : Request α) :
    (q.into t (.woken r)).woken = insert t q.woken := by
  ext u
  by_cases h : t = u
  · simp [woken, h]
  · simp [woken, h, Ne.symm h]

theorem woken_into (hp : ∀ r, p ≠ .woken r) : (q.into t p).woken = q.woken \ {t} := by
  ext u
  by_cases h : t = u
  · simp [woken, h, hp]
  · simp [woken, h, Ne.symm h]

variable (hothers : ∀ u, t ≠ u → q'.calls.current? u = q.calls.current? u)
include hothers

theorem asleep_subset (ht : t ∉ q'.asleep) : q'.asleep ⊆ q.asleep := by
  rintro u ⟨r, hr⟩
  by_cases h : t = u
  · exact absurd ⟨r, hr⟩ (h ▸ ht)
  · exact ⟨r, hothers u h ▸ hr⟩

theorem woken_eq (ht : t ∉ q.woken) (ht' : t ∉ q'.woken) : q'.woken = q.woken := by
  ext u
  by_cases h : t = u
  · subst h
    exact iff_of_false ht' ht
  · unfold woken
    rw [Set.mem_ofPred, Set.mem_ofPred, hothers u h]

end

/-! ## The invariant -/

structure Sound (q : Queue α) : Prop where
  single : q.calls.Single
  held : ∀ t, q.mutex.holder = some t ↔ ∃ a, q.calls.current? t = some (.leaving a)
  waits : ∀ t r, q.calls.current? t = some (.asleep r) ∨ q.calls.current? t = some (.woken r) → r.waits
  covered : q.asleep.Nonempty → q.items.length ≤ q.woken.ncard

theorem sound_start (init : List α) : (ofList init).Sound where
  single _ := Nat.zero_le _
  held _ := ⟨nofun, nofun⟩
  waits _ _ := nofun
  covered := nofun

namespace Sound

variable {q q' : Queue α} (hs : q.Sound) {t : ThreadId} {r : Request α} {a : Answer α}
include hs

theorem not_leaving (hfree : q.mutex.holder = none) (u : ThreadId) (a : Answer α) :
    q.calls.current? u ≠ some (.leaving a) := by
  intro hu
  have hheld := (hs.held u).mpr ⟨a, hu⟩
  rw [hfree] at hheld
  cases hheld

section
variable (hothers : ∀ u, t ≠ u → q'.calls.current? u = q.calls.current? u)
include hothers

theorem held_of_others (hmutex : q'.mutex = q.mutex) (ht : ∀ a, q.calls.current? t ≠ some (.leaving a))
    (ht' : ∀ a, q'.calls.current? t ≠ some (.leaving a)) (u : ThreadId) :
    q'.mutex.holder = some u ↔ ∃ a, q'.calls.current? u = some (.leaving a) := by
  rw [hmutex, hs.held u]
  by_cases h : t = u
  · subst h
    exact iff_of_false (fun ⟨a, ha⟩ => ht a ha) fun ⟨a, ha⟩ => ht' a ha
  · rw [hothers u h]

variable (hasleep : t ∉ q'.asleep) (hwoken : t ∉ q'.woken)
include hasleep hwoken

theorem waits_of_others (u : ThreadId) (r : Request α)
    (hu : q'.calls.current? u = some (.asleep r) ∨ q'.calls.current? u = some (.woken r)) : r.waits := by
  by_cases h : t = u
  · subst h
    rcases hu with hu | hu
    · exact absurd ⟨r, hu⟩ hasleep
    · exact absurd ⟨r, hu⟩ hwoken
  · rw [hothers u h] at hu
    exact hs.waits u r hu

theorem covered_of_others (hitems : q'.items = q.items) (ht : t ∉ q.woken) (hne : q'.asleep.Nonempty) :
    q'.items.length ≤ q'.woken.ncard := by
  rw [hitems, woken_eq hothers ht hwoken]
  exact hs.covered (hne.mono (asleep_subset hothers hasleep))

end

theorem starts (ht : q.calls.current? t = none) (r : Request α) :
    ({ q with calls := q.calls.start t (.entering r) }).Sound := by
  have hothers (u : ThreadId) (h : t ≠ u) :
      (q.calls.start t (.entering r)).current? u = q.calls.current? u := by simp [h]
  have hnew : (q.calls.start t (.entering r)).current? t = some (.entering r) := by simp
  have hasleep := notMem_asleep (q := { q with calls := q.calls.start t (.entering r) }) hnew nofun
  have hwoken := notMem_woken (q := { q with calls := q.calls.start t (.entering r) }) hnew nofun
  refine ⟨hs.single.start ht _, hs.held_of_others hothers rfl (by simp [ht]) (by simp),
    hs.waits_of_others hothers hasleep hwoken, hs.covered_of_others hothers hasleep hwoken rfl ?_⟩
  rintro ⟨r', hr'⟩
  rw [ht] at hr'
  cases hr'

theorem wakes (ht : q.calls.current? t = some (.asleep r)) : (q.into t (.woken r)).Sound := by
  have hothers (u : ThreadId) (h : t ≠ u) :
      (q.into t (.woken r)).calls.current? u = q.calls.current? u := by simp [h]
  refine ⟨hs.single.move t _, hs.held_of_others hothers rfl (by simp [ht]) (by simp), ?_, ?_⟩
  · intro u r' hu
    by_cases h : t = u
    · subst h
      have : r = r' := by simpa using hu
      exact this ▸ hs.waits t r (.inl ht)
    · rw [hothers u h] at hu
      exact hs.waits u r' hu
  · intro _
    rw [woken_into_woken]
    calc q.items.length ≤ q.woken.ncard := hs.covered ⟨t, r, ht⟩
      _ ≤ (insert t q.woken).ncard := Set.ncard_le_ncard (Set.subset_insert t _) (q.finite_woken.insert t)

theorem answers (hfree : q.mutex.holder = none) (items : List α)
    (hc : q.asleep.Nonempty → items.length ≤ (q.woken \ {t}).ncard) :
    (({ q with items }.seize t).into t (.leaving a)).Sound := by
  have hothers (u : ThreadId) (h : t ≠ u) :
      (q.into t (.leaving a)).calls.current? u = q.calls.current? u := by simp [h]
  have hnew : (q.into t (.leaving a)).calls.current? t = some (.leaving a) := by simp
  have hasleep := notMem_asleep hnew nofun
  refine ⟨hs.single.move t _, ?_, hs.waits_of_others hothers hasleep (notMem_woken hnew nofun), ?_⟩
  · intro u
    by_cases h : t = u
    · simp [seize, h]
    · simp [seize, h, hs.not_leaving hfree]
  · intro hne
    have hwoken : (({ q with items }.seize t).into t (.leaving a)).woken = q.woken \ {t} := woken_into nofun
    rw [hwoken]
    exact hc (hne.mono (asleep_subset hothers hasleep))

theorem serves (hw : q.Wants t r) (hfree : q.mutex.holder = none) {items : List α}
    (hv : Serves q.items r a items) (hsub : items <:+ q.items) :
    (({ q with items }.seize t).into t (.leaving a)).Sound := by
  refine hs.answers hfree items fun hne => ?_
  have hcov := hs.covered hne
  rcases hw with hw | hw
  · rw [Set.sdiff_singleton_eq_self (notMem_woken hw nofun)]
    exact Nat.le_trans hsub.length_le hcov
  · -- one woken consumer less, and one element less
    have hlen := hv.length_of_waits (hs.waits t r (.inr hw))
    have hcard := Set.ncard_sdiff_singleton_add_one (show t ∈ q.woken from ⟨r, hw⟩) q.finite_woken
    omega

theorem announces {v : α} (hw : q.Wants t (.push v)) (hfree : q.mutex.holder = none) (pick : Nat) :
    ((({ q with items := q.items ++ [v] }.seize t).notify pick).into t (.leaving .done)).Sound := by
  have ht : q.calls.current? t = some (.entering (.push v)) :=
    hw.resolve_right fun h => nomatch hs.waits t _ (.inr h)
  have hsingle : ({ q with items := q.items ++ [v] }.seize t).calls.Single := hs.single
  rcases notify_cases hsingle pick with ⟨hnone, heq⟩ | ⟨u, r, hu, heq⟩
  · rw [heq]
    refine hs.answers hfree _ ?_
    rintro ⟨u, r, hu⟩
    exact absurd hu (hnone u r)
  · -- one woken consumer more, and one element more
    replace hu : q.calls.current? u = some (.asleep r) := hu
    have hne : u ≠ t := by
      rintro rfl
      rw [ht] at hu
      cases hu
    have ht' : (q.into u (.woken r)).calls.current? t = some (.entering (.push v)) := by simpa [hne] using ht
    rw [heq]
    refine (hs.wakes hu).answers hfree (q.items ++ [v]) fun _ => ?_
    have hcov := hs.covered ⟨u, r, hu⟩
    rw [Set.sdiff_singleton_eq_self (notMem_woken ht' nofun), woken_into_woken,
      Set.ncard_insert_of_notMem (notMem_woken hu nofun) q.finite_woken, List.length_append, List.length_singleton]
    omega

theorem sleeps (hfree : q.mutex.holder = none) (hr : r.waits) (hempty : q.items = []) {m : Mutex}
    (hm : m.holder = none) : ({ q with mutex := m }.into t (.asleep r)).Sound := by
  refine ⟨hs.single.move t _, ?_, ?_, ?_⟩
  · intro u
    by_cases h : t = u
    · simp [hm, h]
    · simp [hm, h, hs.not_leaving hfree]
  · intro u r' hu
    by_cases h : t = u
    · have : r = r' := by simpa [h] using hu
      exact this ▸ hr
    · exact hs.waits u r' (by simpa [h] using hu)
  · simp [hempty]

theorem leaves (ht : q.calls.current? t = some (.leaving a)) :
    ({ q with mutex := q.mutex.release false }.into t (.returned a)).Sound := by
  have hothers (u : ThreadId) (h : t ≠ u) :
      (q.into t (.returned a)).calls.current? u = q.calls.current? u := by simp [h]
  have hnew : (q.into t (.returned a)).calls.current? t = some (.returned a) := by simp
  have hasleep := notMem_asleep hnew nofun
  have hwoken := notMem_woken hnew nofun
  refine ⟨hs.single.move t _, ?_, hs.waits_of_others hothers hasleep hwoken,
    hs.covered_of_others hothers hasleep hwoken rfl (notMem_woken ht nofun)⟩
  intro u
  have hheld := (hs.held t).mpr ⟨a, ht⟩
  by_cases h : t = u
  · simp [Mutex.release, h]
  · have hu := hs.held u
    rw [hheld] at hu
    simp only [Option.some.injEq, h, false_iff] at hu
    simpa [Mutex.release, h] using hu

theorem collects (ht : q.calls.current? t = some (.returned a)) : (q.collect t).Sound := by
  have hcurrent := hs.single.current?_finish t
  have hothers (u : ThreadId) (h : t ≠ u) : (q.collect t).calls.current? u = q.calls.current? u := by
    rw [collect, hcurrent, if_neg h]
  have hgone : (q.collect t).calls.current? t = none := by rw [collect, hcurrent, if_pos rfl]
  have hasleep : t ∉ (q.collect t).asleep := fun ⟨r, hr⟩ => by rw [hgone] at hr; cases hr
  have hwoken : t ∉ (q.collect t).woken := fun ⟨r, hr⟩ => by rw [hgone] at hr; cases hr
  exact ⟨hs.single.finish t, hs.held_of_others hothers rfl (by simp [ht]) (by simp [hgone]),
    hs.waits_of_others hothers hasleep hwoken,
    hs.covered_of_others hothers hasleep hwoken rfl (notMem_woken ht nofun)⟩

theorem change {m : Move α} (hc : q.Change m q') : q'.Sound := by
  cases hc with
  | starts t r ht => exact hs.starts ht r
  | acts env hw hfree hturn =>
    cases hturn with
    | announces v pick => exact hs.announces hw hfree pick
    | serves hv hsub => exact hs.serves hw hfree hv hsub
    | sleeps hr hempty => exact hs.sleeps hfree hr hempty rfl
  | leaves env ht => exact hs.leaves ht
  | wakes ht => exact hs.wakes ht
  | collects ht => exact hs.collects ht

end Sound

theorem Reachable.sound {init : List α} {q : Queue α} (hr : q.Reachable init) : q.Sound := by
  induction hr with
  | refl => exact sound_start init
  | tail m _ hm ih => exact ih.change (move_change hm)

/-! ## At rest -/

section
variable {q : Queue α} (hs : q.Sound) (hq : q.Quiescent)
include hs hq

theorem Quiescent.holder : q.mutex.holder = none := by
  cases hm : q.mutex.holder with
  | none => rfl
  | some t =>
    obtain ⟨a, ha⟩ := (hs.held t).mp hm
    rcases hq t with h | h
    · simp [answer?, ha] at h
    · have := h default
      simp [step?, ha] at this

theorem Quiescent.not_wants (t : ThreadId) (r : Request α) : ¬ q.Wants t r := by
  have hfree : q.mutex.acquire? t = some { q.mutex with holder := some t } := by
    simp only [Mutex.acquire?, hq.holder hs]
  rintro (ht | ht)
  · rcases hq t with h | h
    · simp [answer?, ht] at h
    · have := h default
      simp [step?, ht, hfree] at this
  · rcases hq t with h | h
    · simp [answer?, ht] at h
    · have := h default
      simp [step?, ht, hfree] at this

end

/-- **No lost wakeup.** While a consumer is asleep and not notified, the woken consumers that have not taken
the mutex again are at least as many as the elements; so where every call has returned or can make no step,
a consumer that waits in one finds no element in the queue. -/
theorem no_lost_wakeup {init : List α} {q : Queue α} (hr : q.Reachable init) :
    (q.asleep.Nonempty → q.items.length ≤ q.woken.ncard) ∧
    (q.Quiescent → ∀ t r, q.Wants t r ∨ q.calls.current? t = some (.asleep r) → q.items = []) := by
  have hs := hr.sound
  refine ⟨hs.covered, ?_⟩
  rintro hq t r (hw | ht)
  · exact absurd hw (hq.not_wants hs t r)
  · have hnone : q.woken = ∅ := by
      rw [Set.eq_empty_iff_forall_notMem]
      rintro u ⟨r', hu⟩
      exact hq.not_wants hs u r' (.inr hu)
    have hcov := hs.covered ⟨t, r, ht⟩
    rw [hnone, Set.ncard_empty] at hcov
    exact List.length_eq_zero_iff.mp (Nat.le_zero.mp hcov)

def oneNotified : List (Move Nat) :=
  [.start 1 .waitPop, .step 1 default, .start 2 .waitPop, .step 2 default, .start 3 (.push 7), .step 3 default]

/-- A poller takes the element away before the woken consumer looks, and it falls asleep again. -/
def noticeStolen : List (Move Nat) :=
  oneNotified ++ [.step 3 default, .collect 3, .start 4 .tryPop, .step 4 default, .step 4 default, .step 1 default]

theorem no_lost_wakeup_notice_stolen :
    (∃ q : Queue Nat, q.Reachable [] ∧ 2 ∈ q.asleep ∧ q.items = [7] ∧ 1 ≤ q.woken.ncard) ∧
    ∃ q : Queue Nat, q.Reachable [] ∧ q.Quiescent ∧ 1 ∈ q.asleep ∧ 2 ∈ q.asleep ∧ q.items = [] := by
  constructor
  · obtain ⟨q, hrun, hitems, hcalls⟩ : ∃ q, run? move? (ofList []) oneNotified = some q ∧ q.items = [7] ∧
        q.calls.pending = [(3, .leaving .done), (2, .asleep .waitPop), (1, .woken .waitPop)] :=
      ⟨_, rfl, rfl, rfl⟩
    have hr : q.Reachable [] := Leads.refl.run _ hrun
    have hasleep : 2 ∈ q.asleep := ⟨.waitPop, by simp [Calls.current?, hcalls, Entries.find]⟩
    have hcov := (no_lost_wakeup hr).1 ⟨2, hasleep⟩
    rw [hitems] at hcov
    exact ⟨q, hr, hasleep, hitems, hcov⟩
  · obtain ⟨q, hrun, hcalls⟩ : ∃ q, run? move? (ofList []) noticeStolen = some q ∧ q.calls.pending =
        [(4, .returned (.popped (some 7))), (2, .asleep .waitPop), (1, .asleep .waitPop)] := ⟨_, rfl, rfl⟩
    have hr : q.Reachable [] := Leads.refl.run _ hrun
    have hcurrent (t : ThreadId) : q.calls.current? t = if 4 = t then some (.returned (.popped (some 7))) else
        if 2 = t then some (.asleep .waitPop) else if 1 = t then some (.asleep .waitPop) else none := by
      simp only [Calls.current?, hcalls, Entries.find]
    have hquiet : q.Quiescent := by
      intro t
      by_cases h4 : 4 = t
      · exact .inl (by simp [answer?, hcurrent, h4])
      · refine .inr fun env => ?_
        by_cases h2 : 2 = t
        · simp [step?, hcurrent, ← h2]
        · by_cases h1 : 1 = t
          · simp [step?, hcurrent, ← h1]
          · simp [step?, hcurrent, h4, h2, h1]
    exact ⟨q, hr, hquiet, ⟨.waitPop, hcurrent 1⟩, ⟨.waitPop, hcurrent 2⟩,
      (no_lost_wakeup hr).2 hquiet 1 .waitPop (.inr (hcurrent 1))⟩

end Interlock.Queue
