import Interlock.Proofs.Cache.Reentry

/-!
# The count of queued writers

A change raises the count when it has the gate and lowers it when it has reached exclusive mode, still in the
gate. So at most one call is counted at a time, the count says whether there is one (`Tallied`), and it is never
lowered below zero. Where every call has returned, is blocked or is in its callback, the counted call is a
writer kept out by a callback, and without one nothing keeps a look waiting.
-/

namespace Interlock.Cache

variable {κ α : Type}

/-- The call has raised the count of queued writers and not lowered it yet. -/
def Phase.isCounted : Phase κ α → Bool
  | .counted _ => true
  | .excluding _ => true
  | _ => false

/-- The call is one that changes the table, and has not returned. -/
def Phase.isChanging : Phase κ α → Bool
  | .queueing _ => true
  | .gated _ => true
  | .counted _ => true
  | .excluding _ => true
  | .uncounted _ => true
  | .changing _ => true
  | .readmitting _ => true
  | _ => false

/-- The counted call is this thread's, and the count is one; or there is no such call, and it is zero. -/
def Tallied (c : Cache κ α) (w : Option ThreadId) : Prop :=
  c.calls.HeldIn Phase.isCounted w ∧ c.queuedWriters = if w.isSome then 1 else 0

/-! ## Phases -/

@[simp] theorem isCounted_opening (r : Request κ α) : r.opening.isCounted = false := by cases r <;> rfl

section
variable {p : Phase κ α}

theorem Phase.hasGate_of_isCounted (h : p.isCounted = true) : p.hasGate = true := by
  cases p with
  | counted ch => rfl
  | excluding ch => rfl
  | _ => cases h

theorem Phase.isChanging_of_isCounted (h : p.isCounted = true) : p.isChanging = true := by
  cases p with
  | counted ch => rfl
  | excluding ch => rfl
  | _ => cases h

theorem Phase.isCounted_of_isVisiting (h : p.isVisiting = true) : p.isCounted = false := by
  cases p with
  | visiting key => rfl
  | _ => cases h

end

/-! ## One step -/

section
variable {c : Cache κ α} {t : ThreadId} {w : Option ThreadId}

theorem Sound.holder_of_isCounted (hs : c.Sound) {p : Phase κ α} (hp : c.calls.current? t = some p)
    (h : p.isCounted = true) : c.gate.holder = some t :=
  (hs.gate t).mpr ⟨p, hp, Phase.hasGate_of_isCounted h⟩

/-- While a call that has the gate is not counted, no call is. -/
theorem Tallied.eq_none (h : c.Tallied w) (hs : c.Sound) {p : Phase κ α} (hp : c.calls.current? t = some p)
    (hgate : p.hasGate = true) (hnot : p.isCounted = false) : w = none := by
  cases w with
  | none => rfl
  | some u =>
    obtain ⟨q, hq, hcounted⟩ := (h.1 u).mp rfl
    have hu := hs.holder_of_isCounted hq hcounted
    have ht := (hs.gate t).mpr ⟨p, hp, hgate⟩
    rw [hu] at ht
    cases ht
    rw [hp] at hq
    cases hq
    rw [hnot] at hcounted
    cases hcounted

end

variable [DecidableEq κ] {c c' c₁ : Cache κ α} {t : ThreadId} {w : Option ThreadId}

@[simp] theorem isCounted_sight (c : Cache κ α) (l : Look κ) : (c.sight l).isCounted = false := by cases l <;> rfl

theorem Tallied.turn (h : c.Tallied w) (hs : c.Sound) {p p' : Phase κ α} (hp : c.calls.current? t = some p)
    (hturn : Turn t c p p' c₁) : ∃ w', (c₁.into t p').Tallied w' := by
  obtain ⟨held, count⟩ := h
  cases hturn with
  | counts ch =>
    cases Tallied.eq_none ⟨held, count⟩ hs hp rfl rfl
    exact ⟨some t, held.take rfl, congrArg (· + 1) count⟩
  | uncounts ch =>
    have hw : w = some t := (held t).mpr ⟨_, hp, rfl⟩
    subst hw
    have lowered : c.queuedWriters - 1 = 0 := by simp [count]
    exact ⟨none, held.leave hp rfl rfl, lowered⟩
  | sees l hw => exact ⟨w, held.keep hp (isCounted_sight c l), count⟩
  | _ => exact ⟨w, held.keep hp rfl, count⟩

theorem Tallied.passage (h : c.Tallied w) (hs : c.Sound) {m : Move κ α} (hm : Passage c m c') :
    ∃ w', c'.Tallied w' := by
  cases hm with
  | starts r hfree =>
    exact ⟨w, h.1.start (fun q hq => Phase.isCounted_of_isVisiting (hfree q hq)) (isCounted_opening r), h.2⟩
  | turns env hp hturn => exact h.turn hs hp hturn
  | ends e hp => exact ⟨w, h.1.keep hp rfl, h.2⟩
  | @collects t a hp =>
    exact ⟨w, h.1.finish hp rfl fun q hq => Phase.isCounted_of_isVisiting (hs.outer t q hq), h.2⟩

/-! ## All runs -/

section
variable {init : Table κ α}

theorem Reachable.tallied (hr : Reachable init c) : ∃ w, c.Tallied w := by
  induction hr with
  | refl => exact ⟨none, fun _ => ⟨nofun, nofun⟩, rfl⟩
  | tail m hr hm ih =>
    obtain ⟨w, h⟩ := ih
    exact h.passage (Reachable.sound hr) (move_passage hm)

omit [DecidableEq κ] in
theorem Tallied.zero_or_one (h : c.Tallied w) : c.queuedWriters = 0 ∨ c.queuedWriters = 1 := by
  cases w with
  | none => exact .inl h.2
  | some u => exact .inr h.2

omit [DecidableEq κ] in
theorem Tallied.one_iff (h : c.Tallied w) :
    c.queuedWriters = 1 ↔ ∃ t p, c.calls.current? t = some p ∧ p.isCounted = true := by
  cases w with
  | none =>
    rw [h.2]
    refine iff_of_false (by decide) ?_
    rintro ⟨t, hcounted⟩
    cases (h.1 t).mpr hcounted
  | some u =>
    rw [h.2]
    exact iff_of_true rfl ⟨u, (h.1 u).mp rfl⟩

omit [DecidableEq κ] in
theorem Tallied.zero_iff (h : c.Tallied w) :
    c.queuedWriters = 0 ↔ ∀ t p, c.calls.current? t = some p → p.isCounted = false := by
  have hone := h.one_iff
  rcases h.zero_or_one with hq | hq
  · rw [hq] at hone ⊢
    refine iff_of_true rfl fun t p hp => ?_
    by_contra hcounted
    exact absurd (hone.mpr ⟨t, p, hp, by simpa using hcounted⟩) (by decide)
  · rw [hq] at hone ⊢
    obtain ⟨t, p, hp, hcounted⟩ := hone.mp rfl
    refine iff_of_false (by decide) fun hall => ?_
    rw [hall t p hp] at hcounted
    cases hcounted

end

/-! ## Calls that wait -/

/-- No call can take a step: each has returned, is blocked or is in its callback. A look that has passed the
gate may also be kept waiting by the lock, in whatever order the lock lets the threads in. -/
def Resting (c : Cache κ α) : Prop :=
  ∀ t, (∀ env, c.step? env t = none) ∨ ∃ l, c.calls.current? t = some (.admitted l)

/-- A look from the call to its answer, while nobody else moves. -/
def Look.visit (t : ThreadId) (env : Environment) (e : Ending) : Look κ → List (Move κ α)
  | .readWith key =>
    [.start t (.look (.readWith key)), .step t env, .step t env, .step t env, .finish t e, .step t env]
  | l => [.start t (.look l), .step t env, .step t env, .step t env, .step t env]

/-- The look has its answer without having waited for anybody. -/
def Returns (c : Cache κ α) (t : ThreadId) (l : Look κ) (env : Environment) (e : Ending) : Prop :=
  ∃ c', run? move? c (l.visit t env e) = some c' ∧ (c'.answer? t).isSome

namespace Resting

variable (h : c.Resting)
include h

theorem blocked {p : Phase κ α} (hp : c.calls.current? t = some p) :
    Blocked c p ∨ p.isVisiting = true ∨ ∃ l, p = .admitted l := by
  rcases h t with hstep | ⟨l, hl⟩
  · by_contra hno
    obtain ⟨hfree, hv, -⟩ := by simpa only [not_or] using hno
    rcases canMove_of_not_blocked hp hfree with hcan | hend
    · have := hcan default
      rw [hstep] at this
      cases this
    · have := hend .finished
      unfold end? at this
      rw [hp] at this
      cases p with
      | visiting key => exact hv rfl
      | _ => cases this
  · rw [hp] at hl
    cases hl
    exact .inr (.inr ⟨l, rfl⟩)

variable (hs : c.Sound)
include hs

theorem writer_eq_none : c.lock.writer = none := by
  cases hw : c.lock.writer with
  | none => rfl
  | some u =>
    obtain ⟨p, hp, hexcludes⟩ := (hs.writer u).mp hw
    have hblocked := h.blocked hp
    cases p with
    | excluding ch => simp [Blocked, Phase.isVisiting] at hblocked
    | uncounted ch => simp [Blocked, Phase.isVisiting] at hblocked
    | changing ch => simp [Blocked, Phase.isVisiting] at hblocked
    | readmitting a => simp [Blocked, Phase.isVisiting] at hblocked
    | _ => cases hexcludes

/-- Who has the gate waits for exclusive mode. -/
theorem counted_of_hasGate {p : Phase κ α} (hp : c.calls.current? t = some p) (hgate : p.hasGate = true) :
    (∃ ch, p = .counted ch) ∧ c.lock.readers ≠ 0 := by
  have hwriter := h.writer_eq_none hs
  have hblocked := h.blocked hp
  cases p with
  | counted ch => simpa [Blocked, hwriter, Phase.isVisiting] using hblocked
  | passing l => simp [Blocked, Phase.isVisiting] at hblocked
  | gated ch => simp [Blocked, Phase.isVisiting] at hblocked
  | excluding ch => simp [Blocked, Phase.isVisiting] at hblocked
  | uncounted ch => simp [Blocked, Phase.isVisiting] at hblocked
  | _ => cases hgate

/-- Whoever is in shared mode is in a callback. -/
theorem visiting_of_readers (hr : c.lock.readers ≠ 0) : ∃ u key, .visiting key ∈ c.calls.of u := by
  rw [hs.readers, Entries.total, ne_eq, List.sum_eq_zero_iff] at hr
  push Not at hr
  obtain ⟨n, hn, hpos⟩ := hr
  obtain ⟨⟨u, p⟩, he, rfl⟩ := List.mem_map.mp hn
  have hp := Calls.mem_of.mpr he
  cases p with
  | visiting key => exact ⟨u, key, hp⟩
  | unsharing a =>
    have hblocked := h.blocked (hs.innermost hp rfl)
    simp [Blocked, Phase.isVisiting] at hblocked
  | _ => exact absurd rfl hpos

theorem gate_free (hw : c.Tallied w) (hzero : c.queuedWriters = 0) : c.gate.holder = none := by
  cases hg : c.gate.holder with
  | none => rfl
  | some u =>
    obtain ⟨p, hp, hgate⟩ := (hs.gate u).mp hg
    obtain ⟨⟨ch, rfl⟩, -⟩ := h.counted_of_hasGate hs hp hgate
    cases hw.zero_iff.mp hzero u _ hp

end Resting

section
variable (hfree : ∀ p, c.calls.current? t = some p → p.isVisiting = true)
include hfree

omit [DecidableEq κ] in
theorem start?_of_free (r : Request κ α) :
    c.start? t r = some { c with calls := c.calls.start t r.opening } := by
  unfold start?
  cases hp : c.calls.current? t with
  | none => cases r <;> rfl
  | some p =>
    have hv := hfree p hp
    cases p with
    | visiting key => cases r <;> rfl
    | _ => cases hv

theorem returns_of_free (hgate : c.gate.holder = none) (hwriter : c.lock.writer = none) (l : Look κ)
    (env : Environment) (e : Ending) : c.Returns t l env e := by
  cases l <;>
    simp [Returns, Look.visit, run?, move?, start?_of_free hfree, Request.opening, step?, Mutex.acquire?, hgate,
      Mutex.release, into, SharedLock.share?, hwriter, look, end?, answer?]

theorem not_returns_of_held (hgate : c.gate.holder ≠ none) (l : Look κ) (env : Environment) (e : Ending) :
    ¬ c.Returns t l env e := by
  obtain ⟨u, hu⟩ := Option.ne_none_iff_exists'.mp hgate
  rintro ⟨c', hrun, -⟩
  cases l <;>
    simp [Look.visit, run?, move?, start?_of_free hfree, Request.opening, step?, Mutex.acquire?, hu] at hrun

end

/-- **The count of queued writers is exact.** It is zero or one in every reachable state. It is one exactly while
a call is between raising it and lowering it; that call has the gate, so there is only one. The count is zero
where a call is about to raise it and one where a call is about to lower it, so it never wraps, and it is zero
while no call changes the table. Where each call has returned, is blocked or is in its callback, the count is one
if and only if some change has the gate and is kept out by a callback, and zero if and only if a look made by any
thread that can make one would return without waiting. -/
theorem queued_writers_exact {init : Table κ α} {c : Cache κ α} (hr : Reachable init c) :
    (c.queuedWriters = 0 ∨ c.queuedWriters = 1) ∧
    (c.queuedWriters = 1 ↔ ∃ t p, c.calls.current? t = some p ∧ p.isCounted = true) ∧
    (∀ t p, c.calls.current? t = some p → p.isCounted = true → c.gate.holder = some t) ∧
    (∀ t ch, (c.calls.current? t = some (.gated ch) → c.queuedWriters = 0) ∧
      (c.calls.current? t = some (.excluding ch) → c.queuedWriters = 1)) ∧
    ((∀ t, ∀ p ∈ c.calls.of t, p.isChanging = false) → c.queuedWriters = 0) ∧
    (c.Resting →
      (c.queuedWriters = 1 ↔ ∃ t ch, c.calls.current? t = some (.counted ch) ∧ c.gate.holder = some t ∧
        c.lock.readers ≠ 0 ∧ ∃ u key, .visiting key ∈ c.calls.of u) ∧
      ∀ t, (∀ p, c.calls.current? t = some p → p.isVisiting = true) → ∀ l env e,
        c.queuedWriters = 0 ↔ c.Returns t l env e) := by
  have hs := hr.sound
  obtain ⟨w, hw⟩ := hr.tallied
  refine ⟨hw.zero_or_one, hw.one_iff, fun t p => hs.holder_of_isCounted, ?_, ?_, ?_⟩
  · intro t ch
    constructor
    · intro hp
      cases hw.eq_none hs hp rfl rfl
      exact hw.2
    · intro hp
      exact hw.one_iff.mpr ⟨t, _, hp, rfl⟩
  · intro hidle
    rw [hw.zero_iff]
    intro t p hp
    by_contra hcounted
    have hchanging := Phase.isChanging_of_isCounted (by simpa using hcounted)
    rw [hidle t p (by rw [Calls.of_eq_cons hp]; exact List.mem_cons_self)] at hchanging
    cases hchanging
  · intro hrest
    constructor
    · rw [hw.one_iff]
      constructor
      · rintro ⟨t, p, hp, hcounted⟩
        obtain ⟨⟨ch, rfl⟩, hreaders⟩ := hrest.counted_of_hasGate hs hp (Phase.hasGate_of_isCounted hcounted)
        exact ⟨t, ch, hp, hs.holder_of_isCounted hp rfl, hreaders, hrest.visiting_of_readers hs hreaders⟩
      · rintro ⟨t, ch, hp, -⟩
        exact ⟨t, _, hp, rfl⟩
    · intro t hfree l env e
      constructor
      · intro hzero
        exact returns_of_free hfree (hrest.gate_free hs hw hzero) (hrest.writer_eq_none hs) l env e
      · intro hreturns
        rw [hw.zero_iff]
        intro u p hp
        by_contra hcounted
        have hgate := hs.holder_of_isCounted hp (by simpa using hcounted)
        exact not_returns_of_held hfree (by rw [hgate]; nofun) l env e hreturns

/-- A write that gets no storage, and then a second one that waits for a callback. -/
def refusedThenBehindCallback : List (Move Nat Nat) :=
  [.start 2 (.change (.write 0 5)), .step 2 default, .step 2 default, .step 2 default, .step 2 default,
    .step 2 default, .step 2 .refusing, .step 2 default, .collect 2,
    .start 1 (.look (.readWith 0)), .step 1 default, .step 1 default, .step 1 default,
    .start 2 (.change (.write 0 5)), .step 2 default, .step 2 default]

/-- The callback panics, and the write goes on. -/
def callbackPanics : List (Move Nat Nat) :=
  [.finish 1 (.panicked "boom"), .step 1 default, .step 2 default, .step 2 default, .step 2 default,
    .step 2 default, .step 2 default]

theorem queued_writers_exact_refused_then_behind_callback : ∃ c c' : Cache Nat Nat,
    Reachable {} c ∧ c.Resting ∧ c.queuedWriters = 1 ∧ c.gate.holder = some 2 ∧
    ¬ c.Returns 3 .len default .finished ∧
    Leads move? c c' ∧ c'.Resting ∧ c'.queuedWriters = 0 ∧ c'.Returns 3 .len default .finished := by
  obtain ⟨c, c', hrun, hrun', hpending, hreaders, hpending'⟩ : ∃ c c' : Cache Nat Nat,
      run? move? { entries := {} } refusedThenBehindCallback = some c ∧ run? move? c callbackPanics = some c' ∧
      c.calls.pending = [(2, .counted (.write 0 5)), (1, .visiting 0)] ∧ c.lock.readers = 1 ∧
      c'.calls.pending = [(2, .returned (.found none)), (1, .returned (.panicked "boom"))] :=
    ⟨_, _, rfl, rfl, rfl, rfl, rfl⟩
  have hl : Leads move? c c' := Leads.refl.run _ hrun'
  have hr : Reachable {} c := Leads.refl.run _ hrun
  have current (t : ThreadId) : c.calls.current? t =
      if 2 = t then some (.counted (.write 0 5)) else if 1 = t then some (.visiting 0) else none := by
    rw [Calls.current?, hpending]
    rfl
  have current' (t : ThreadId) : c'.calls.current? t = if 2 = t then some (.returned (.found none))
      else if 1 = t then some (.returned (.panicked "boom")) else none := by
    rw [Calls.current?, hpending']
    rfl
  have rests : c.Resting := by
    refine fun t => .inl fun env => ?_
    unfold step?
    rw [current]
    split_ifs <;> simp [SharedLock.exclude?, hreaders]
    split <;> rfl
  have rests' : c'.Resting := by
    refine fun t => .inl fun env => ?_
    unfold step?
    rw [current']
    split_ifs <;> rfl
  obtain ⟨-, one, gated, -, -, behind⟩ := queued_writers_exact hr
  have hone := one.mpr ⟨2, _, current 2, rfl⟩
  obtain ⟨-, returns⟩ := behind rests
  obtain ⟨-, -, -, -, idle, free⟩ := queued_writers_exact (hr.trans hl)
  obtain ⟨-, returns'⟩ := free rests'
  have hzero := idle fun t p hp => by
    rw [Calls.mem_of, hpending'] at hp
    simp only [List.mem_cons, List.not_mem_nil, or_false, Prod.mk.injEq] at hp
    rcases hp with ⟨-, rfl⟩ | ⟨-, rfl⟩ <;> rfl
  refine ⟨c, c', hr, rests, hone, gated 2 _ (current 2) rfl, ?_, hl, rests', hzero, ?_⟩
  · have absent : c.calls.current? 3 = none := current 3
    rw [← returns 3 (by simp [absent]), hone]
    decide
  · have absent : c'.calls.current? 3 = none := current' 3
    exact (returns' 3 (by simp [absent]) _ _ _).mp hzero

end Interlock.Cache
