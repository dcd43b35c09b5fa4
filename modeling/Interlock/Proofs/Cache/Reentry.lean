import Interlock.Proofs.Cache.Exclusion

/-!
# The cache deadlocks only by re-entry, and then certainly

If no callback calls back into the cache, some call can always go on: the writer in exclusive mode first, else a
callback or a reader in shared mode, else whoever has the gate, else anybody. A callback that does call back
waits for itself. A change made there needs exclusive mode, which the callback keeps out; a look made there
waits at the gate, which a writer may have that waits for the callback in turn (`Jammed`). Neither wait
ever ends.
-/

namespace Interlock.Cache

variable {κ α : Type} [DecidableEq κ]

/-- A run in which a thread makes no call from inside another. -/
def orderly? (c : Cache κ α) : Move κ α → Option (Cache κ α)
  | .start t r => if (c.calls.current? t).isNone then c.move? (.start t r) else none
  | m => c.move? m

/-- The thread's call can take its next step, or is in its callback, which can end. -/
def CanMove (c : Cache κ α) (t : ThreadId) : Prop :=
  (∀ env, (c.step? env t).isSome) ∨ ∀ e, (c.end? t e).isSome

/-- What keeps a call in this phase from going on. -/
def Blocked (c : Cache κ α) : Phase κ α → Prop
  | .arriving _ => c.gate.holder ≠ none
  | .queueing _ => c.gate.holder ≠ none
  | .admitted _ => c.lock.writer ≠ none
  | .counted _ => c.lock.writer ≠ none ∨ c.lock.readers ≠ 0
  | .returned _ => True
  | _ => False

/-! ## Without re-entry -/

section
variable {c c' : Cache κ α} {t : ThreadId} {p : Phase κ α}

theorem acquire?_isSome {m : Mutex} (h : m.holder = none) (t : ThreadId) : (m.acquire? t).isSome := by
  rw [Mutex.acquire?, h]
  rfl

theorem canMove_of_not_blocked (hp : c.calls.current? t = some p) (hfree : ¬ Blocked c p) : c.CanMove t := by
  cases p with
  | visiting key =>
    right
    intro e
    simp [end?, hp]
  | arriving l =>
    left
    intro env
    simp only [step?, hp, Option.isSome_map]
    exact acquire?_isSome (not_not.mp hfree) t
  | queueing ch =>
    left
    intro env
    simp only [step?, hp, Option.isSome_map]
    exact acquire?_isSome (not_not.mp hfree) t
  | admitted l =>
    left
    intro env
    simp [step?, hp, SharedLock.share?, not_not.mp hfree]
  | counted ch =>
    left
    intro env
    obtain ⟨hw, hr⟩ := not_or.mp hfree
    simp [step?, hp, SharedLock.exclude?, not_not.mp hw, not_not.mp hr]
  | returned a => exact absurd trivial hfree
  | _ =>
    left
    intro env
    simp [step?, hp]

section
variable (hs : c.Sound) (hsingle : c.calls.Single) (hstuck : ∀ u, ¬ c.CanMove u)
include hstuck

theorem blocked_of_stuck (hp : c.calls.current? t = some p) : Blocked c p := by
  by_contra hfree
  exact hstuck t (canMove_of_not_blocked hp hfree)

include hs

theorem writer_of_stuck : c.lock.writer = none := by
  cases hw : c.lock.writer with
  | none => rfl
  | some u =>
    obtain ⟨p, hp, hexcludes⟩ := (hs.writer u).mp hw
    have hblocked := blocked_of_stuck hstuck hp
    cases p with
    | excluding ch => exact hblocked.elim
    | uncounted ch => exact hblocked.elim
    | changing ch => exact hblocked.elim
    | readmitting a => exact hblocked.elim
    | _ => cases hexcludes

include hsingle

theorem readers_of_stuck : c.lock.readers = 0 := by
  rw [hs.readers, Entries.total, List.sum_eq_zero_iff]
  intro n hn
  obtain ⟨⟨u, p⟩, he, rfl⟩ := List.mem_map.mp hn
  have hp := hsingle.mem_of.mp (Calls.mem_of.mpr he)
  have hblocked := blocked_of_stuck hstuck hp
  cases p with
  | visiting key => exact hblocked.elim
  | unsharing a => exact hblocked.elim
  | _ => rfl

theorem gate_of_stuck : c.gate.holder = none := by
  cases hg : c.gate.holder with
  | none => rfl
  | some u =>
    obtain ⟨p, hp, hgate⟩ := (hs.gate u).mp hg
    have hblocked := blocked_of_stuck hstuck hp
    cases p with
    | passing l => exact hblocked.elim
    | gated ch => exact hblocked.elim
    | counted ch =>
      rcases hblocked with hw | hr
      · exact absurd (writer_of_stuck hs hstuck) hw
      · exact absurd (readers_of_stuck hs hsingle hstuck) hr
    | excluding ch => exact hblocked.elim
    | uncounted ch => exact hblocked.elim
    | _ => cases hgate

/-- Where nobody can move, every call has returned. -/
theorem returned_of_stuck (hp : p ∈ c.calls.of t) : ∃ a, p = .returned a := by
  have hblocked := blocked_of_stuck hstuck (hsingle.mem_of.mp hp)
  have hgate := gate_of_stuck hs hsingle hstuck
  have hwriter := writer_of_stuck hs hstuck
  cases p with
  | arriving l => exact absurd hgate hblocked
  | queueing ch => exact absurd hgate hblocked
  | admitted l => exact absurd hwriter hblocked
  | counted ch =>
    rcases hblocked with hw | hr
    · exact absurd hwriter hw
    · exact absurd (readers_of_stuck hs hsingle hstuck) hr
  | returned a => exact ⟨a, rfl⟩
  | _ => exact hblocked.elim

end

theorem orderly?_move {m : Move κ α} (h : c.orderly? m = some c') : c.move? m = some c' := by
  cases m with
  | start t r =>
    simp only [orderly?] at h
    split at h
    · exact h
    · cases h
  | _ => exact h

theorem orderly_single {m : Move κ α} (hc : c.calls.Single) (h : c.orderly? m = some c') : c'.calls.Single := by
  cases move_passage (orderly?_move h) with
  | starts r hfree =>
    simp only [orderly?] at h
    split at h
    · rename_i hnone
      exact hc.start (Option.isNone_iff_eq_none.mp hnone) _
    · cases h
  | turns env hp hturn =>
    rw [into, hturn.calls]
    exact hc.move _ _
  | ends e hp => exact hc.move _ _
  | collects hp => exact hc.finish _

theorem orderly_reachable {init : Table κ α} (h : Leads orderly? { entries := init } c) : Reachable init c :=
  Leads.map id (fun _ _ _ hm => orderly?_move hm) h

theorem orderly_leads_single {init : Table κ α} (h : Leads orderly? { entries := init } c) : c.calls.Single := by
  induction h with
  | refl => exact fun _ => Nat.zero_le _
  | tail m _ hm ih => exact orderly_single ih hm

end

/-! ## Steps that a thread must take -/

section
variable {c c' : Cache κ α} {t : ThreadId} {m : Move κ α} {p : Phase κ α} {outer : List (Phase κ α)}

/-- A thread whose innermost call is neither in its callback nor over can only take a step of that call. -/
theorem Passage.turn_of (h : Passage c m c') (ht : m.thread = t) (hp : c.calls.of t = p :: outer)
    (hv : p.isVisiting = false) (hr : ∀ a, p ≠ .returned a) :
    ∃ p' c₁, Turn t c p p' c₁ ∧ c'.calls.of t = p' :: outer := by
  have hcurrent := Calls.current?_eq_of_cons hp
  cases h with
  | starts r hfree =>
    simp only [Move.thread] at ht
    subst ht
    rw [hfree p hcurrent] at hv
    cases hv
  | turns env hp' hturn =>
    simp only [Move.thread] at ht
    subst ht
    rw [hp'] at hcurrent
    cases hcurrent
    refine ⟨_, _, hturn, ?_⟩
    rw [into, hturn.calls, Calls.of_move, if_pos rfl, hp, List.tail_cons]
  | ends e hp' =>
    simp only [Move.thread] at ht
    subst ht
    rw [hp'] at hcurrent
    cases hcurrent
    cases hv
  | collects hp' =>
    simp only [Move.thread] at ht
    subst ht
    rw [hp'] at hcurrent
    cases hcurrent
    exact absurd rfl (hr _)

end

/-! ## A change made in a callback -/

/-- A call of the thread waits to change the cache, and one of its outer calls keeps it from doing so. -/
structure Trapped (t : ThreadId) (ch : Change κ α) (outer : List (Phase κ α)) (c : Cache κ α) : Prop where
  sound : c.Sound
  visits : ∃ p ∈ outer, p.isVisiting = true
  waits : ∃ p, c.calls.of t = p :: outer ∧ (p = .queueing ch ∨ p.AwaitsMode ch)

section
variable {c c' : Cache κ α} {t u : ThreadId} {ch : Change κ α} {outer : List (Phase κ α)}

omit [DecidableEq κ] in
theorem Sound.readers_ne_zero (hs : c.Sound) {p : Phase κ α} (hp : c.calls.of t = p :: outer)
    (hv : ∃ q ∈ outer, q.isVisiting = true) : c.lock.readers ≠ 0 := by
  obtain ⟨q, hq, hv⟩ := hv
  have hmem : q ∈ c.calls.of t := by
    rw [hp]
    exact List.mem_cons_of_mem p hq
  exact Nat.ne_of_gt (hs.readers_pos hmem hv)

theorem Trapped.passage (h : Trapped t ch outer c) {m : Move κ α} (hm : Passage c m c') :
    Trapped t ch outer c' := by
  obtain ⟨p, hp, hwaits⟩ := h.waits
  refine ⟨h.sound.passage hm, h.visits, ?_⟩
  by_cases ht : m.thread = t
  · have hreaders := h.sound.readers_ne_zero hp h.visits
    rcases hwaits with rfl | rfl | rfl
    · obtain ⟨p', c₁, hturn, hp'⟩ := hm.turn_of ht hp rfl nofun
      cases hturn with
      | queues _ _ => exact ⟨_, hp', .inr (.inl rfl)⟩
    · obtain ⟨p', c₁, hturn, hp'⟩ := hm.turn_of ht hp rfl nofun
      cases hturn with
      | counts _ => exact ⟨_, hp', .inr (.inr rfl)⟩
    · obtain ⟨p', c₁, hturn, hp'⟩ := hm.turn_of ht hp rfl nofun
      cases hturn with
      | excludes _ _ hr => exact absurd hr hreaders
  · exact ⟨p, (hm.others ht).trans hp, hwaits⟩

theorem Trapped.leads (h : Trapped t ch outer c) (hl : Leads move? c c') : Trapped t ch outer c' := by
  induction hl with
  | refl => exact h
  | tail m _ hm ih => exact ih.passage (move_passage hm)

end

/-! ## A look made in a callback while a writer waits -/

/-- A look made in a callback of the one thread waits at the gate, which the other thread has while it waits
for the callback to end. -/
structure Jammed (t : ThreadId) (l : Look κ) (outer : List (Phase κ α)) (w : ThreadId) (ch : Change κ α)
    (outer' : List (Phase κ α)) (c : Cache κ α) : Prop where
  sound : c.Sound
  visits : ∃ p ∈ outer, p.isVisiting = true
  looks : c.calls.of t = .arriving l :: outer
  holds : ∃ p, c.calls.of w = p :: outer' ∧ p.AwaitsMode ch

section
variable {c c' : Cache κ α} {t w u : ThreadId} {l : Look κ} {ch : Change κ α} {outer outer' : List (Phase κ α)}
variable {m : Move κ α}

namespace Jammed

variable (h : Jammed t l outer w ch outer' c)
include h

omit [DecidableEq κ] in
theorem gate : c.gate.holder = some w := by
  obtain ⟨p, hp, hawaits⟩ := h.holds
  exact (h.sound.gate w).mpr ⟨p, Calls.current?_eq_of_cons hp, hawaits.hasGate⟩

/-- Nobody who stands before the gate passes it. -/
theorem stands (r : Request κ α) {above : List (Phase κ α)} (hu : c.calls.of u = r.opening :: above)
    (hm : Passage c m c') : c'.calls.of u = r.opening :: above := by
  by_cases ht : m.thread = u
  · have hgate := h.gate
    cases r with
    | look l =>
      obtain ⟨p', c₁, hturn, -⟩ := hm.turn_of ht hu rfl nofun
      cases hturn with
      | arrives _ hfree =>
        rw [hfree] at hgate
        cases hgate
    | change ch =>
      obtain ⟨p', c₁, hturn, -⟩ := hm.turn_of ht hu rfl nofun
      cases hturn with
      | queues _ hfree =>
        rw [hfree] at hgate
        cases hgate
  · exact (hm.others ht).trans hu

theorem passage (hm : Passage c m c') : Jammed t l outer w ch outer' c' := by
  refine ⟨h.sound.passage hm, h.visits, h.stands (.look l) h.looks hm, ?_⟩
  obtain ⟨p, hp, hawaits⟩ := h.holds
  by_cases ht : m.thread = w
  · have hreaders := h.sound.readers_ne_zero h.looks h.visits
    rcases hawaits with rfl | rfl
    · obtain ⟨p', c₁, hturn, hp'⟩ := hm.turn_of ht hp rfl nofun
      cases hturn with
      | counts _ => exact ⟨_, hp', .inr rfl⟩
    · obtain ⟨p', c₁, hturn, hp'⟩ := hm.turn_of ht hp rfl nofun
      cases hturn with
      | excludes _ _ hr => exact absurd hr hreaders
  · exact ⟨p, (hm.others ht).trans hp, hawaits⟩

theorem leads (hl : Leads move? c c') : Jammed t l outer w ch outer' c' := by
  induction hl with
  | refl => exact h
  | tail m _ hm ih => exact ih.passage (move_passage hm)

theorem stands_leads (r : Request κ α) {above : List (Phase κ α)} (hu : c.calls.of u = r.opening :: above)
    (hl : Leads move? c c') : c'.calls.of u = r.opening :: above := by
  induction hl with
  | refl => exact hu
  | tail m hl hm ih => exact (h.leads hl).stands r ih (move_passage hm)

end Jammed

theorem start?_passage {r : Request κ α} (h : c.start? t r = some c') :
    Passage c (.start t r) c' ∧ c'.calls.of t = r.opening :: c.calls.of t := by
  have hm := move_passage (m := .start t r) h
  refine ⟨hm, ?_⟩
  cases hm with
  | starts _ _ => rw [Calls.of_start, if_pos rfl]

end

/-- **The cache deadlocks only by re-entry, and then certainly.** If no callback calls back into the cache,
then while a call has not returned some call can go on. A change made in a callback never gets exclusive
mode. A look made in a callback while a writer has the gate waits there for ever, that writer never gets
exclusive mode, and no call made later passes the gate. -/
theorem deadlock_only_by_reentry {init : Table κ α} {c : Cache κ α} :
    (Leads orderly? { entries := init } c → ∀ t, ∀ p ∈ c.calls.of t, (∀ a, p ≠ .returned a) →
      ∃ u, c.CanMove u) ∧
    (Reachable init c → ∀ t key, c.calls.current? t = some (.visiting key) →
      (∀ ch c₁ c', c.start? t (.change ch) = some c₁ → Leads move? c₁ c' →
        ∃ p, c'.calls.of t = p :: c.calls.of t ∧ (p = .queueing ch ∨ p.AwaitsMode ch)) ∧
      ∀ w ch p l c₁ c', c.calls.current? w = some p → p.AwaitsMode ch →
        c.start? t (.look l) = some c₁ → Leads move? c₁ c' →
        c'.calls.of t = .arriving l :: c.calls.of t ∧
        (∃ q, c'.calls.of w = q :: (c.calls.of w).tail ∧ q.AwaitsMode ch) ∧
        ∀ u r c₂ c₃, c'.start? u r = some c₂ → Leads move? c₂ c₃ →
          c₃.calls.of u = r.opening :: c'.calls.of u) := by
  constructor
  · intro hl t p hp hunfinished
    by_contra hno
    have hs := (orderly_reachable hl).sound
    obtain ⟨a, ha⟩ := returned_of_stuck hs (orderly_leads_single hl) (not_exists.mp hno) hp
    exact hunfinished a ha
  · intro hr t key ht
    have visits : ∃ q ∈ c.calls.of t, q.isVisiting = true := by
      refine ⟨.visiting key, ?_, rfl⟩
      rw [Calls.of_eq_cons ht]
      exact List.mem_cons_self
    constructor
    · intro ch c₁ c' hstart hl
      obtain ⟨hm, hof⟩ := start?_passage hstart
      have trapped : Trapped t ch (c.calls.of t) c₁ := ⟨hr.sound.passage hm, visits, _, hof, .inl rfl⟩
      exact (trapped.leads hl).waits
    · intro w ch p l c₁ c' hw hawaits hstart hl
      obtain ⟨hm, hof⟩ := start?_passage hstart
      have hne : t ≠ w := by
        rintro rfl
        rw [ht] at hw
        cases hw
        rcases hawaits with h | h <;> cases h
      have hw' : c₁.calls.of w = p :: (c.calls.of w).tail := by
        rw [hm.others hne]
        exact Calls.of_eq_cons hw
      have jammed : Jammed t l (c.calls.of t) w ch (c.calls.of w).tail c₁ :=
        ⟨hr.sound.passage hm, visits, hof, p, hw', hawaits⟩
      have later := jammed.leads hl
      refine ⟨later.looks, later.holds, ?_⟩
      intro u r c₂ c₃ hstart hl
      obtain ⟨hm, hof⟩ := start?_passage hstart
      exact (later.passage hm).stands_leads r hof hl

/-- A thread is in its callback, and a writer has the gate. -/
def writerBehindCallback : List (Move Nat Nat) :=
  [.start 1 (.look (.readWith 0)), .step 1 default, .step 1 default, .step 1 default,
    .start 2 (.change (.write 0 5)), .step 2 default, .step 2 default]

theorem deadlock_only_by_reentry_writer_behind_callback : ∃ c : Cache Nat Nat,
    Leads orderly? { entries := {} } c ∧ Reachable {} c ∧ c.calls.current? 1 = some (.visiting 0) ∧
    c.calls.current? 2 = some (.counted (.write 0 5)) ∧ (∃ u, c.CanMove u) ∧
    (∃ c₁, c.start? 1 (.change (.remove 0)) = some c₁ ∧ ∀ c', Leads move? c₁ c' →
      ∃ p, c'.calls.of 1 = [p, .visiting 0] ∧ (p = .queueing (.remove 0) ∨ p.AwaitsMode (.remove 0))) ∧
    ∃ c₁, c.start? 1 (.look .len) = some c₁ ∧ ∀ c', Leads move? c₁ c' →
      c'.calls.of 1 = [.arriving .len, .visiting 0] ∧ ∃ q, c'.calls.of 2 = [q] ∧ q.AwaitsMode (.write 0 5) := by
  obtain ⟨c, hrun, hone, htwo⟩ : ∃ c, run? orderly? { entries := {} } writerBehindCallback = some c ∧
      c.calls.of 1 = [.visiting 0] ∧ c.calls.of 2 = [.counted (.write 0 5)] := ⟨_, rfl, rfl, rfl⟩
  have hl : Leads orderly? { entries := {} } c := Leads.refl.run _ hrun
  have hr := orderly_reachable hl
  have h₁ := Calls.current?_eq_of_cons hone
  have h₂ := Calls.current?_eq_of_cons htwo
  have hstart (r : Request Nat Nat) : ∃ c₁, c.start? 1 r = some c₁ := by
    unfold start?
    rw [h₁]
    exact ⟨_, rfl⟩
  obtain ⟨moves, stuck⟩ := @deadlock_only_by_reentry Nat Nat _ {} c
  obtain ⟨changing, looking⟩ := stuck hr 1 0 h₁
  refine ⟨c, hl, hr, h₁, h₂, moves hl 1 (.visiting 0) (by rw [hone]; exact List.mem_cons_self) nofun, ?_, ?_⟩
  · obtain ⟨c₁, hc₁⟩ := hstart (.change (.remove 0))
    refine ⟨c₁, hc₁, fun c' hl => ?_⟩
    have := changing _ c₁ c' hc₁ hl
    rwa [hone] at this
  · obtain ⟨c₁, hc₁⟩ := hstart (.look .len)
    refine ⟨c₁, hc₁, fun c' hl => ?_⟩
    obtain ⟨hlooks, hholds, -⟩ := looking 2 _ _ .len c₁ c' h₂ (.inr rfl) hc₁ hl
    rw [hone] at hlooks
    rw [htwo] at hholds
    exact ⟨hlooks, hholds⟩

end Interlock.Cache
