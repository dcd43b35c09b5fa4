import Interlock.Datum
import Interlock.Proofs.Cells.Waiting
import Interlock.Proofs.Sites

/-!
# A comparison compares copies

While two cells keep their values, a comparison of them is answered by what copies of them give, whatever other threads
do in the meantime. Only a cell that is compared with itself is not copied, and is the same as itself. So the answer is
that of the copies exactly if the cells are two, or their value is equal to itself.
-/

namespace Interlock

variable {α : Type} [BEq α]

namespace Cells

/-! ## How far a call has come -/

/-- The phases of a comparison of two cells that keep these values. -/
inductive Phase.Compares (i j : CellId) (v x : α) : Phase α → Prop
  | entering : Compares i j v x (.entering (.sameValue i j))
  | approaching : i ≠ j → Compares i j v x (.approaching i (.first j))
  | copied : i ≠ j → Compares i j v x (.copied i v (.first j))
  | approachingNext : i ≠ j → Compares i j v x (.approaching j (.second v))
  | copiedBoth : i ≠ j → Compares i j v x (.copied j x (.second v))
  | comparing : i ≠ j → Compares i j v x (.comparing v x)
  | compared : i ≠ j → Compares i j v x (.returned (.flag (v == x)))
  | same : i = j → Compares i j v x (.returned (.flag true))

/-- The phases of a copy of a cell that keeps this value. -/
inductive Phase.Copies (i : CellId) (v : α) : Phase α → Prop
  | entering : Copies i v (.entering (.snapshot i))
  | approaching : Copies i v (.approaching i .snapshot)
  | copied : Copies i v (.copied i v .snapshot)
  | returned : Copies i v (.returned (.value v))

def Holds (contents : List (CellId × α)) (c : Cells α) : Prop := ∀ e ∈ contents, c.value? e.1 = some e.2

/-- Among cells with these contents a step of a call leads from one of the phases to another and writes nothing. In none
of them a callback runs. -/
structure Closed (contents : List (CellId × α)) (P : Phase α → Prop) : Prop where
  silent : ∀ i, ¬ P (.using i)
  step : ∀ {c c' : Cells α} {t : ThreadId} {p : Phase α}, Holds contents c → c.calls.current? t = some p → P p →
    c.step? t = some c' → (∃ p', c'.calls.current? t = some p' ∧ P p') ∧ ∀ k, c'.value? k = c.value? k

/-- What phase a step leads to. Only a swap writes. -/
theorem step_phase {c c' : Cells α} {t : ThreadId} {p : Phase α} (ht : c.calls.current? t = some p)
    (h : c.step? t = some c') : (∃ k l, p = .halfway k l) ∨ ∃ p', c'.calls.current? t = some p' ∧
      (p.Glides p' ∨ (∃ k, p.Seizes c k p') ∨ ∃ k b, p.Releases k b p') ∧ ∀ k, c'.value? k = c.value? k := by
  cases step_change h with
  | @glides _ _ p' ht' hp =>
    obtain rfl := Option.some.inj (ht.symm.trans ht')
    exact .inr ⟨p', by simp, .inl hp, fun _ => rfl⟩
  | @seizes _ _ p' k ht' hp _ _ =>
    obtain rfl := Option.some.inj (ht.symm.trans ht')
    exact .inr ⟨p', by simp, .inr (.inl ⟨k, hp⟩), value?_hold c t k⟩
  | @exchanges _ k l _ _ ht' => exact .inl ⟨k, l, Option.some.inj (ht.symm.trans ht')⟩
  | @releases _ _ p' k b ht' hp =>
    obtain rfl := Option.some.inj (ht.symm.trans ht')
    exact .inr ⟨p', by simp, .inr (.inr ⟨k, b, hp⟩), fun l => value?_release c k l b⟩

theorem closed_compares (i j : CellId) (v x : α) : Closed [(i, v), (j, x)] (Phase.Compares i j v x) where
  silent _ h := nomatch h
  step := by
    intro c c' t p hc ht hp h
    have hi : c.value? i = some v := hc (i, v) List.mem_cons_self
    have hj : c.value? j = some x := hc (j, x) (List.mem_cons_of_mem _ List.mem_cons_self)
    obtain ⟨k, l, rfl⟩ | ⟨p', hp', hto, hvalue⟩ := step_phase ht h
    · cases hp
    refine ⟨⟨p', hp', ?_⟩, hvalue⟩
    obtain hglides | ⟨k, hseizes⟩ | ⟨k, b, hreleases⟩ := hto
    · cases hp with
      | entering =>
        cases hglides with
        | same => exact .same rfl
        | compare hij => exact .approaching hij
      | comparing hij =>
        cases hglides
        exact .compared hij
      | _ => cases hglides
    · cases hp with
      | approaching hij =>
        cases hseizes with
        | copies q hv =>
          obtain rfl := Option.some.inj (hi.symm.trans hv)
          exact .copied hij
      | approachingNext hij =>
        cases hseizes with
        | copies q hv =>
          obtain rfl := Option.some.inj (hj.symm.trans hv)
          exact .copiedBoth hij
      | _ => cases hseizes
    · cases hp with
      | copied hij =>
        cases hreleases
        exact .approachingNext hij
      | copiedBoth hij =>
        cases hreleases
        exact .comparing hij
      | _ => cases hreleases

theorem closed_copies (i : CellId) (v : α) : Closed [(i, v)] (Phase.Copies i v) where
  silent _ h := nomatch h
  step := by
    intro c c' t p hc ht hp h
    have hi : c.value? i = some v := hc (i, v) List.mem_cons_self
    obtain ⟨k, l, rfl⟩ | ⟨p', hp', hto, hvalue⟩ := step_phase ht h
    · cases hp
    refine ⟨⟨p', hp', ?_⟩, hvalue⟩
    obtain hglides | ⟨k, hseizes⟩ | ⟨k, b, hreleases⟩ := hto
    · cases hp with
      | entering =>
        cases hglides
        exact .approaching
      | _ => cases hglides
    · cases hp with
      | approaching =>
        cases hseizes with
        | copies q hv =>
          obtain rfl := Option.some.inj (hi.symm.trans hv)
          exact .copied
      | _ => cases hseizes
    · cases hp with
      | copied =>
        cases hreleases
        exact .returned
      | _ => cases hreleases

/-! ## Other threads -/

omit [BEq α] in
theorem start?_eq_some {c c' : Cells α} {u : ThreadId} {r : Request} (h : c.start? u r = some c') :
    c' = { c with calls := c.calls.start u (.entering r) } := by
  unfold start? at h
  split at h
  · exact (Option.some.inj h).symm
  · exact (Option.some.inj h).symm
  · cases h

section
variable {c c' : Cells α} {t u : ThreadId} (hu : u ≠ t)
include hu

theorem current?_step (h : c.step? u = some c') : c'.calls.current? t = c.calls.current? t := by
  cases step_change h with
  | glides _ _ => simp [hu]
  | seizes _ _ _ _ => simp [hu]
  | exchanges _ _ _ _ => simp [hu]
  | releases _ _ => simp [hu]

theorem current?_end {e : Ending} (h : c.end? u e = some c') : c'.calls.current? t = c.calls.current? t := by
  cases end_change h with
  | finishes e _ => simp [hu]

end

/-! ## A call left to itself -/

/-- The steps of one thread. -/
def Steps (t : ThreadId) : Cells α → Cells α → Prop := Leads fun c (_ : Unit) => c.step? t

section
variable {c : Cells α} {t : ThreadId} {i j : CellId} {v x : α}

/-- A thread that wants to copy a cell that nobody has does so, lets it go and goes on. -/
theorem copy_steps {q : Purpose α} {p : Phase α} (ht : c.calls.current? t = some (.approaching i q))
    (hv : c.value? i = some v) (hfree : c.holder? i = none) (hp : Phase.Releases (.copied i v q) i false p) :
    ∃ c', Steps t c c' ∧ c'.calls.current? t = some p ∧ (∀ k, c'.value? k = c.value? k) ∧
      ∀ k, c.holder? k = none → c'.holder? k = none := by
  have hi : i < c.cells.length := (value?_isSome c i).mp (by rw [hv]; rfl)
  have taken : c.step? t = some ((c.hold t i).into t (.copied i v q)) := by
    simp [step?, ht, hv, acquire_free hi hfree]
  have released : ((c.hold t i).into t (.copied i v q)).step? t =
      some ((((c.hold t i).into t (.copied i v q)).release i false).into t p) := by
    have held : ((c.hold t i).into t (.copied i v q)).calls.current? t = some (.copied i v q) := by simp
    simp only [step?, held]
    cases hp <;> rfl
  refine ⟨_, (Leads.refl.tail () taken).tail () released, by simp, fun k => ?_, fun k hk => ?_⟩
  · rw [value?_into, value?_release, value?_into, value?_hold]
  · rw [holder?_into, holder?_release, holder?_into, holder?_hold]
    split
    · rfl
    · exact hk

/-- A thread that copies a cell that nobody has gets its value. -/
theorem snapshot_steps (ht : c.calls.current? t = some (.entering (.snapshot i))) (hv : c.value? i = some v)
    (hfree : c.holder? i = none) : ∃ c', Steps t c c' ∧ c'.calls.current? t = some (.returned (.value v)) := by
  have entered : c.step? t = some (c.into t (.approaching i .snapshot)) := by simp [step?, ht, enter?]
  obtain ⟨c', steps, ht', -, -⟩ :=
    copy_steps (t := t) (c := c.into t (.approaching i .snapshot)) (by simp) hv hfree (.snapshot i v)
  exact ⟨c', (Leads.refl.tail () entered).trans steps, ht'⟩

/-- A thread that compares two cells that nobody has gets an answer. -/
theorem compare_steps (ht : c.calls.current? t = some (.entering (.sameValue i j))) (hi : c.value? i = some v)
    (hj : c.value? j = some x) (hfreei : c.holder? i = none) (hfreej : c.holder? j = none) :
    ∃ c' b, Steps t c c' ∧ c'.calls.current? t = some (.returned (.flag b)) := by
  by_cases hij : i = j
  · have answered : c.step? t = some (c.into t (.returned (.flag true))) := by simp [step?, ht, enter?, hij]
    exact ⟨_, _, Leads.refl.tail () answered, by simp; rfl⟩
  · have entered : c.step? t = some (c.into t (.approaching i (.first j))) := by simp [step?, ht, enter?, hij]
    obtain ⟨c₁, steps₁, ht₁, value₁, holder₁⟩ :=
      copy_steps (t := t) (c := c.into t (.approaching i (.first j))) (by simp) hi hfreei (.first i j v)
    obtain ⟨c₂, steps₂, ht₂, -, -⟩ :=
      copy_steps ht₁ ((value₁ j).trans hj) (holder₁ j hfreej) (.second j v x)
    have answered : c₂.step? t = some (c₂.into t (.returned (.flag (v == x)))) := by simp [step?, ht₂]
    exact ⟨_, _, (((Leads.refl.tail () entered).trans steps₁).trans steps₂).tail () answered, by simp; rfl⟩

end

end Cells

/-! ## Calls of a thread among others -/

namespace World

variable {t : ThreadId} {w w' : World α} {contents : List (CellId × α)} {P : Cells.Phase α → Prop}
  {r : Cells.Request} {a : Cells.Answer α}

/-- Moves lead from one world to another in which the cells have kept these contents, and the thread takes no answer. -/
inductive Calm (contents : List (CellId × α)) (t : ThreadId) (w : World α) : World α → Prop
  | refl : w.cells.Holds contents → Calm contents t w w
  | tail {w₁ w₂ : World α} (m : Move α) : Calm contents t w w₁ → w₁.move? m = some w₂ → m ≠ .collect t →
      w₂.cells.Holds contents → Calm contents t w w₂

theorem Calm.holds (h : Calm contents t w w') : w'.cells.Holds contents := by
  cases h with
  | refl hc => exact hc
  | tail _ _ _ _ hc => exact hc

/-- The steps of one thread. -/
def Steps (env : Environment) (t : ThreadId) : World α → World α → Prop := Leads fun w (_ : Unit) => w.step? env t

/-- In some world some thread makes the call, and is answered, while the cells keep these contents. -/
def Yields (r : Cells.Request) (contents : List (CellId × α)) (a : Cells.Answer α) : Prop :=
  ∃ (t : ThreadId) (w w₁ w₂ : World α), w.start? t (.cells r) = some w₁ ∧ Calm contents t w₁ w₂ ∧
    w₂.answer? t = some (.cells a)

/-- If nobody has the cells, and they have these contents, whoever makes the call and is left alone gets this answer. -/
def Prompt (r : Cells.Request) (contents : List (CellId × α)) (a : Cells.Answer α) : Prop :=
  ∀ (w w₁ : World α) (t : ThreadId) (env : Environment), w.start? t (.cells r) = some w₁ → w.cells.Holds contents →
    (∀ e ∈ contents, w.cells.holder? e.1 = none) → ∃ w₂, Steps env t w₁ w₂ ∧ w₂.answer? t = some (.cells a)

/-- The innermost call of the thread is on cells and in one of these phases. -/
structure Engaged (t : ThreadId) (P : Cells.Phase α → Prop) (w : World α) : Prop where
  site : (w.sitesOf t).head? = some .cells
  phase : ∃ p, w.cells.calls.current? t = some p ∧ P p

omit [BEq α] in
theorem start?_cells (h : w.start? t (.cells r) = some w') :
    w'.cells = ⟨w.cells.cells, w.cells.calls.start t (.entering r)⟩ := by
  obtain ⟨-, -, h⟩ := Option.bind_eq_some_iff.mp h
  obtain ⟨c, hc, h⟩ := Option.bind_eq_some_iff.mp h
  obtain rfl := Option.some.inj h
  exact Cells.start?_eq_some hc

/-- A move of somebody else leaves the calls of the thread on cells where they are. -/
theorem current?_cells {m : Move α} (h : w.move? m = some w') (hm : m.thread? ≠ some t) :
    w'.cells.calls.current? t = w.cells.calls.current? t := by
  by_cases hs : m.site? w = some .cells
  · cases m with
    | start u c =>
      have hu : u ≠ t := fun he => hm (congrArg some he)
      obtain ⟨-, hs⟩ : w.isFree u = true ∧ c.site = .cells := by simpa [Move.site?] using hs
      cases c with
      | cells r =>
        rw [start?_cells h]
        exact if_neg hu
      | _ => cases hs
    | step u env =>
      obtain ⟨outer, hs⟩ := List.head?_eq_some_iff.mp hs
      simp only [move?, step?, hs] at h
      obtain ⟨c, hc, h⟩ := Option.bind_eq_some_iff.mp h
      obtain rfl := Option.some.inj h
      exact Cells.current?_step (fun he => hm (congrArg some he)) hc
    | wake u =>
      obtain ⟨outer, hs⟩ := List.head?_eq_some_iff.mp hs
      simp only [move?, wake?, hs] at h
      cases h
    | finish u e =>
      obtain ⟨outer, hsites⟩ := List.head?_eq_some_iff.mp hs
      cases e with
      | builder e =>
        simp only [move?, end?, hsites] at h
        cases h
      | callback e =>
        simp only [move?, end?, hsites] at h
        obtain ⟨c, hc, h⟩ := Option.bind_eq_some_iff.mp h
        obtain rfl := Option.some.inj h
        exact Cells.current?_end (fun he => hm (congrArg some he)) hc
    | collect u =>
      have hu : u ≠ t := fun he => hm (congrArg some he)
      obtain ⟨outer, hs⟩ := List.head?_eq_some_iff.mp hs
      obtain ⟨b, -, rfl⟩ := Option.map_eq_some_iff.mp h
      rw [collect, hs]
      exact Calls.current?_finish_of_ne (Ne.symm hu) w.cells.calls
    | look u =>
      obtain ⟨g, -, rfl⟩ := Option.map_eq_some_iff.mp h
      rfl
    | _ => cases hs
  · rw [(keeps h).calls hs]

/-! ## The call and its answer -/

namespace Engaged

variable {m : Move α} (he : Engaged t P w)
include he

omit [BEq α] in
theorem sites : ∃ outer, w.sitesOf t = .cells :: outer := List.head?_eq_some_iff.mp he.site

theorem grip? (hP : Cells.Closed contents P) : w.grip? t = none := by
  obtain ⟨outer, hs⟩ := he.sites
  obtain ⟨p, hp, hphase⟩ := he.phase
  have hheld : w.cells.held? t = none := by
    rw [Cells.held?, hp]
    cases p with
    | «using» i => exact absurd hphase (hP.silent i)
    | _ => rfl
  rw [World.grip?, hs]
  simp only [hheld]
  rfl

theorem others (h : w.move? m = some w') (hm : m.thread? ≠ some t) : Engaged t P w' where
  site := ((evolves h).sitesOf t hm).symm ▸ he.site
  phase := (current?_cells h hm).symm ▸ he.phase

theorem own (hP : Cells.Closed contents P) (hc : w.cells.Holds contents) (h : w.move? m = some w')
    (hm : m.thread? = some t) (hopen : m ≠ .collect t) : Engaged t P w' := by
  obtain ⟨outer, hs⟩ := he.sites
  obtain ⟨p, hp, hphase⟩ := he.phase
  have hgrip := he.grip? hP
  refine ⟨(sitesOf_own h hm (by simp [hs]) hgrip hopen).symm ▸ he.site, ?_⟩
  by_cases hsite : m.site? w = some .cells
  · cases m with
    | start u c =>
      obtain rfl : u = t := Option.some.inj hm
      have hfree := isFree_of_start h
      simp [isFree, hs, hgrip] at hfree
    | step u env =>
      obtain rfl : u = t := Option.some.inj hm
      simp only [move?, step?, hs] at h
      obtain ⟨c, hc', h⟩ := Option.bind_eq_some_iff.mp h
      obtain rfl := Option.some.inj h
      exact (hP.step hc hp hphase hc').1
    | wake u =>
      obtain rfl : u = t := Option.some.inj hm
      simp only [move?, wake?, hs] at h
      cases h
    | finish u e =>
      obtain rfl : u = t := Option.some.inj hm
      have hended (e : Interlock.Ending) : w.cells.end? u e = none := by
        rw [Cells.end?, hp]
        cases p with
        | «using» i => exact absurd hphase (hP.silent i)
        | _ => rfl
      cases e <;> simp [move?, end?, hs, hended] at h
    | collect u => exact absurd (congrArg Move.collect (Option.some.inj hm)) hopen
    | look u =>
      obtain rfl : u = t := Option.some.inj hm
      simp [move?, hgrip] at h
    | _ => cases hsite
  · exact ⟨p, by rw [(keeps h).calls hsite, hp], hphase⟩

theorem calm (hP : Cells.Closed contents P) (h : Calm contents t w w') : Engaged t P w' := by
  -- a step of the thread needs the contents that the moves before it have left
  have both : Engaged t P w' ∧ w'.cells.Holds contents := by
    induction h with
    | refl hc => exact ⟨he, hc⟩
    | @tail w₁ w₂ m _ hm hopen hc ih =>
      refine ⟨?_, hc⟩
      by_cases ht : m.thread? = some t
      · exact ih.1.own hP ih.2 hm ht hopen
      · exact ih.1.others hm ht
  exact both.1

theorem step {env : Environment} (hP : Cells.Closed contents P) (hc : w.cells.Holds contents)
    (h : w.step? env t = some w') : w'.cells.Holds contents := by
  obtain ⟨outer, hs⟩ := he.sites
  obtain ⟨p, hp, hphase⟩ := he.phase
  simp only [step?, hs] at h
  obtain ⟨c, hc', h⟩ := Option.bind_eq_some_iff.mp h
  obtain rfl := Option.some.inj h
  exact fun e hmem => ((hP.step hc hp hphase hc').2 e.1).trans (hc e hmem)

/-- A call that is left to itself is left in peace. -/
theorem steps {env : Environment} (hP : Cells.Closed contents P) (hc : w.cells.Holds contents)
    (h : Steps env t w w') : Calm contents t w w' := by
  induction h with
  | refl => exact .refl hc
  | tail _ _ hstep ih => exact ih.tail (.step t env) hstep nofun ((he.calm hP ih).step hP ih.holds hstep)

omit [BEq α] in
theorem answer (ha : w.answer? t = some (.cells a)) : P (.returned a) := by
  obtain ⟨outer, hs⟩ := he.sites
  obtain ⟨p, hp, hphase⟩ := he.phase
  rw [answer?, hs] at ha
  obtain ⟨b, hb, ha⟩ := Option.bind_eq_some_iff.mp ha
  obtain rfl := Answer.cells.inj (Option.some.inj ha)
  rw [Cells.answer?_eq_some hb] at hp
  exact Option.some.inj hp ▸ hphase

end Engaged

omit [BEq α] in
theorem engaged_start (h : w.start? t (.cells r) = some w') (hr : P (.entering r)) : Engaged t P w' := by
  refine ⟨by rw [sitesOf_start h]; rfl, .entering r, ?_, hr⟩
  rw [start?_cells h]
  exact if_pos rfl

namespace Yields

theorem phase (hP : Cells.Closed contents P) (hr : P (.entering r)) (hy : Yields r contents a) : P (.returned a) := by
  obtain ⟨t, w, w₁, w₂, hstart, hcalm, ha⟩ := hy
  exact ((engaged_start hstart hr).calm hP hcalm).answer ha

theorem held (hy : Yields r contents a) : ∃ c : Cells α, c.Holds contents := by
  obtain ⟨t, w, w₁, w₂, -, hcalm, -⟩ := hy
  exact ⟨_, hcalm.holds⟩

variable {i j : CellId} {v x : α}

theorem copy (hy : Yields (.snapshot i) [(i, v)] a) : a = .value v := by
  cases hy.phase (Cells.closed_copies i v) .entering
  rfl

theorem comparison (hy : Yields (.sameValue i j) [(i, v), (j, x)] a) (hij : i ≠ j) : a = .flag (v == x) := by
  cases hy.phase (Cells.closed_compares i j v x) .entering with
  | compared _ => rfl
  | same he => exact absurd he hij

theorem identity (hy : Yields (.sameValue i i) [(i, v), (i, x)] a) : a = .flag true ∧ v = x := by
  obtain ⟨c, hc⟩ := hy.held
  have hv : c.value? i = some v := hc (i, v) List.mem_cons_self
  have hx : c.value? i = some x := hc (i, x) (List.mem_cons_of_mem _ List.mem_cons_self)
  refine ⟨?_, Option.some.inj (hv.symm.trans hx)⟩
  cases hy.phase (Cells.closed_compares i i v x) .entering with
  | compared hne => exact absurd rfl hne
  | same _ => rfl

theorem comparison_unique {a' : Cells.Answer α} (ha : Yields (.sameValue i j) [(i, v), (j, x)] a)
    (ha' : Yields (.sameValue i j) [(i, v), (j, x)] a') : a = a' := by
  by_cases hij : i = j
  · subst hij
    rw [ha.identity.1, ha'.identity.1]
  · rw [ha.comparison hij, ha'.comparison hij]

end Yields

/-- A thread that starts a call while nobody has the cells, and is left alone, gets an answer. -/
theorem answered (hP : Cells.Closed contents P) (hr : P (.entering r))
    (hsteps : ∀ (c : Cells α) (t : ThreadId), c.calls.current? t = some (.entering r) → c.Holds contents →
      (∀ e ∈ contents, c.holder? e.1 = none) → ∃ c' a, Cells.Steps t c c' ∧ c'.calls.current? t = some (.returned a))
    (env : Environment) (h : w.start? t (.cells r) = some w') (hc : w.cells.Holds contents)
    (hfree : ∀ e ∈ contents, w.cells.holder? e.1 = none) :
    ∃ w₂ a, Steps env t w' w₂ ∧ w₂.answer? t = some (.cells a) ∧ Yields r contents a := by
  have he := engaged_start h hr
  have hcells := start?_cells h
  have hs := sitesOf_start h
  have same : w'.cells.value? = w.cells.value? ∧ w'.cells.holder? = w.cells.holder? := by
    rw [hcells]
    exact ⟨rfl, rfl⟩
  have hc' : w'.cells.Holds contents := fun e hmem => same.1 ▸ hc e hmem
  have hfree' (e) (hmem : e ∈ contents) : w'.cells.holder? e.1 = none := same.2 ▸ hfree e hmem
  obtain ⟨c, a, steps, ha⟩ := hsteps w'.cells t (by rw [hcells]; exact if_pos rfl) hc' hfree'
  have hs' (c : Cells α) : ({ w' with cells := c } : World α).sitesOf t = .cells :: w.sitesOf t := hs
  -- the steps of the call are steps of the world
  have lifted : Steps env t w' { w' with cells := c } := by
    unfold Steps
    refine Leads.map (fun c => { w' with cells := c }) ?_ steps
    intro c _ c' hstep
    rw [step?, hs' c]
    exact Option.bind_eq_some_iff.mpr ⟨c', hstep, rfl⟩
  have answer : ({ w' with cells := c } : World α).answer? t = some (.cells a) := by
    rw [answer?, hs' c]
    simp [Cells.answer?, ha]
  exact ⟨_, a, lifted, answer, t, w, w', _, h, he.steps hP hc' lifted, answer⟩

section
variable {i j : CellId} {v x : α}

theorem copied (env : Environment) (h : w.start? t (.cells (.snapshot i)) = some w') (hc : w.cells.Holds [(i, v)])
    (hfree : ∀ e ∈ [(i, v)], w.cells.holder? e.1 = none) :
    ∃ w₂ a, Steps env t w' w₂ ∧ w₂.answer? t = some (.cells a) ∧ Yields (.snapshot i) [(i, v)] a := by
  refine answered (Cells.closed_copies i v) .entering (fun c t ht hc hfree => ?_) env h hc hfree
  obtain ⟨c', steps, ht'⟩ := Cells.snapshot_steps ht (hc (i, v) List.mem_cons_self) (hfree (i, v) List.mem_cons_self)
  exact ⟨c', _, steps, ht'⟩

theorem compared (env : Environment) (h : w.start? t (.cells (.sameValue i j)) = some w')
    (hc : w.cells.Holds [(i, v), (j, x)]) (hfree : ∀ e ∈ [(i, v), (j, x)], w.cells.holder? e.1 = none) :
    ∃ w₂ a, Steps env t w' w₂ ∧ w₂.answer? t = some (.cells a) ∧ Yields (.sameValue i j) [(i, v), (j, x)] a := by
  refine answered (Cells.closed_compares i j v x) .entering (fun c t ht hc hfree => ?_) env h hc hfree
  have second : (j, x) ∈ [(i, v), (j, x)] := List.mem_cons_of_mem _ List.mem_cons_self
  obtain ⟨c', b, steps, ht'⟩ := Cells.compare_steps ht (hc (i, v) List.mem_cons_self) (hc (j, x) second)
    (hfree (i, v) List.mem_cons_self) (hfree (j, x) second)
  exact ⟨c', _, steps, ht'⟩

/-! ## What calls are answered -/

/-- Cells of which two have these values. -/
def twoOf (i j : CellId) (v x : α) : World α :=
  { cells := { cells := (List.replicate (max i j + 1) { value := v }).set j { value := x } } }

omit [BEq α] in
theorem twoOf_holds (h : i = j → v = x) : (twoOf i j v x).cells.Holds [(i, v), (j, x)] := by
  intro e he
  simp only [twoOf, Cells.value?, List.getElem?_set, List.length_replicate, List.getElem?_replicate]
  obtain rfl | rfl : e = (i, v) ∨ e = (j, x) := by simpa using he
  · by_cases hij : j = i
    · simp [hij, h hij.symm]
    · simp [hij]
  · simp

omit [BEq α] in
theorem twoOf_free (i j : CellId) (v x : α) (k : CellId) : (twoOf i j v x).cells.holder? k = none := by
  simp only [twoOf, Cells.holder?, List.getElem?_set, List.getElem?_replicate]
  split <;> split <;> rfl

theorem yields_snapshot_iff {y : Cells.Answer α} : Yields (.snapshot i) [(i, v)] y ↔ y = .value v := by
  refine ⟨Yields.copy, ?_⟩
  rintro rfl
  have holds := twoOf_holds (α := α) (i := i) (j := i) (v := v) (x := v) fun _ => rfl
  obtain ⟨_, y, -, -, hy⟩ := copied (w := twoOf i i v v) (t := 0) default rfl
    (fun e he => holds e (List.mem_cons_of_mem _ he)) fun e _ => twoOf_free i i v v e.1
  exact hy.copy ▸ hy

theorem yields_sameValue_iff {a : Cells.Answer α} : Yields (.sameValue i j) [(i, v), (j, x)] a ↔
    (i ≠ j ∧ a = .flag (v == x)) ∨ (i = j ∧ v = x ∧ a = .flag true) := by
  constructor
  · intro ha
    by_cases hij : i = j
    · subst hij
      exact .inr ⟨rfl, ha.identity.2, ha.identity.1⟩
    · exact .inl ⟨hij, ha.comparison hij⟩
  -- somebody who is left alone with the cells gets an answer, and there is only one
  · intro ha
    have holds : (twoOf i j v x).cells.Holds [(i, v), (j, x)] := twoOf_holds fun hij => by
      obtain ⟨hne, -⟩ | ⟨-, hvx, -⟩ := ha
      · exact absurd hij hne
      · exact hvx
    obtain ⟨_, a', -, -, ha'⟩ := compared (w := twoOf i j v x) (t := 0) default rfl holds
      fun e _ => twoOf_free i j v x e.1
    obtain ⟨hij, rfl⟩ | ⟨rfl, -, rfl⟩ := ha
    · exact ha'.comparison hij ▸ ha'
    · exact ha'.identity.1 ▸ ha'

/-- While two cells keep their values, what others do makes no difference to a comparison of them, and copies of them
compare as it says, unless a cell whose value is not equal to itself is compared with itself. A distinct cell with the
same value in place of the second compares as the copies do. Calls that are not kept waiting get these answers. -/
theorem sameValue_agrees_with_copies {a y z : Cells.Answer α} (ha : Yields (.sameValue i j) [(i, v), (j, x)] a)
    (hy : Yields (.snapshot i) [(i, v)] y) (hz : Yields (.snapshot j) [(j, x)] z) :
    ∃ b b', y = .value b ∧ z = .value b' ∧
      (a = .flag (b == b') ↔ i ≠ j ∨ (b == b) = true) ∧ (i = j → a = .flag true) ∧
      (∀ k a', k ≠ i → Yields (.sameValue i k) [(i, v), (k, x)] a' → a' = .flag (b == b')) ∧
      Prompt (.sameValue i j) [(i, v), (j, x)] a ∧ Prompt (.snapshot i) [(i, v)] y ∧
      Prompt (.snapshot j) [(j, x)] z := by
  refine ⟨v, x, hy.copy, hz.copy, ?_, ?_, fun k a' hk ha' => ha'.comparison (Ne.symm hk), ?_, ?_, ?_⟩
  · obtain ⟨hij, rfl⟩ | ⟨rfl, rfl, rfl⟩ := yields_sameValue_iff.mp ha
    · exact ⟨fun _ => .inl hij, fun _ => rfl⟩
    · simp only [Cells.Answer.flag.injEq, ne_eq, not_true_eq_false, false_or]
      exact eq_comm
  · rintro rfl
    exact ha.identity.1
  · intro w w₁ t env hstart hc hfree
    obtain ⟨w₂, a', steps, ha', hagain⟩ := compared env hstart hc hfree
    exact ⟨w₂, steps, hagain.comparison_unique ha ▸ ha'⟩
  · intro w w₁ t env hstart hc hfree
    obtain ⟨w₂, y', steps, hy', hagain⟩ := copied env hstart hc hfree
    exact ⟨w₂, steps, hy.copy ▸ hagain.copy ▸ hy'⟩
  · intro w w₁ t env hstart hc hfree
    obtain ⟨w₂, z', steps, hz', hagain⟩ := copied env hstart hc hfree
    exact ⟨w₂, steps, hz.copy ▸ hagain.copy ▸ hz'⟩

theorem sameValue_agrees_with_copies_differing :
    Yields (.sameValue 0 1) [(0, 7), (1, 8)] (.flag false : Cells.Answer Nat) ∧
      (∃ b b' : Nat, Yields (.snapshot 0) [(0, 7)] (.value b) ∧ Yields (.snapshot 1) [(1, 8)] (.value b') ∧
        (b == b') = false) ∧
      Prompt (.sameValue 0 1) [(0, 7), (1, 8)] (.flag false : Cells.Answer Nat) := by
  have ha : Yields (.sameValue 0 1) [(0, 7), (1, 8)] (.flag false : Cells.Answer Nat) :=
    yields_sameValue_iff.mpr (.inl ⟨Nat.zero_ne_one, rfl⟩)
  have hy : Yields (.snapshot 0) [(0, 7)] (.value 7 : Cells.Answer Nat) := yields_snapshot_iff.mpr rfl
  have hz : Yields (.snapshot 1) [(1, 8)] (.value 8 : Cells.Answer Nat) := yields_snapshot_iff.mpr rfl
  obtain ⟨b, b', hb, hb', hagree, -, -, prompt, -⟩ := sameValue_agrees_with_copies ha hy hz
  have differs : (b == b') = false := (Cells.Answer.flag.inj (hagree.mpr (.inl Nat.zero_ne_one))).symm
  exact ⟨ha, ⟨b, b', hb ▸ hy, hb' ▸ hz, differs⟩, prompt⟩

/-- A cell whose value is not equal to itself is the same as itself, though its copies are not equal, and not the same
as another cell with that value. -/
theorem sameValue_of_itself_unlike_copies :
    Yields (.sameValue 0 0) [(0, .text "NaN"), (0, .text "NaN")] (.flag true : Cells.Answer Datum) ∧
      Yields (.snapshot 0) [(0, .text "NaN")] (.value (.text "NaN") : Cells.Answer Datum) ∧
      (Datum.text "NaN" == Datum.text "NaN") = false ∧
      Yields (.sameValue 0 1) [(0, .text "NaN"), (1, .text "NaN")] (.flag false : Cells.Answer Datum) := by
  have differs : (Datum.text "NaN" == Datum.text "NaN") = false := by decide
  refine ⟨yields_sameValue_iff.mpr (.inr ⟨rfl, rfl, rfl⟩), yields_snapshot_iff.mpr rfl, differs, ?_⟩
  exact yields_sameValue_iff.mpr (.inl ⟨Nat.zero_ne_one, congrArg _ differs.symm⟩)

end

end World

end Interlock
