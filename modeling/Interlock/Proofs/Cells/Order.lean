import Mathlib.Algebra.Group.End
import Mathlib.Data.List.Permutation
import Interlock.Proofs.Cells.Record

/-!
# Swaps are atomic and cannot deadlock

On every cell the calls do their work in the order in which they took its mutex (`Change.inOrder`), so the order of
the work is one that the mutexes allow. If all calls are swaps, what the cells hold is what they held at first, moved
around by the transpositions of the swaps.
-/

namespace Interlock.Cells

variable {α : Type}

/-! ## The order in which the mutexes are taken -/

/-- Of the cells that the call has, those on which its work is still to be done. -/
def Phase.atWork : Phase α → List CellId
  | .using i => [i]
  | .halfway i _ => [i]
  | _ => []

def Work.cells : Work α → List CellId
  | .use i _ _ => [i]
  | .copy i _ => [i]
  | .exchange i j => [i, j]

/-- The threads that took the mutex of the cell, in order. -/
def takers (taken : List (ThreadId × CellId)) (i : CellId) : List ThreadId :=
  (taken.filter fun e => e.2 = i).map Prod.fst

/-- The threads that did work on the cell, in order. -/
def workers (es : List (Mark α)) (i : CellId) : List ThreadId :=
  ((works es).filter fun w => i ∈ w.2.cells).map Prod.fst

/-- The thread that has the cell, if its work there is still to be done. -/
def busy (c : Cells α) (i : CellId) : List ThreadId :=
  (c.holder? i).toList.filter fun t => (c.calls.current? t).any fun p => i ∈ p.atWork

section
variable {c c' : Cells α} {vs : List α} {t : ThreadId} {p : Phase α} {k : CellId}

theorem takers_append (taken taken' : List (ThreadId × CellId)) (i : CellId) :
    takers (taken ++ taken') i = takers taken i ++ takers taken' i := by
  simp [takers]

theorem workers_append (es es' : List (Mark α)) (i : CellId) :
    workers (es ++ es') i = workers es i ++ workers es' i := by
  simp [workers, works]

theorem busy_of_free (hfree : c.holder? k = none) : c.busy k = [] := by
  simp [busy, hfree]

theorem busy_of_held (hheld : c.holder? k = some t) (ht : c.calls.current? t = some p) :
    c.busy k = if k ∈ p.atWork then [t] else [] := by
  by_cases hk : k ∈ p.atWork <;> simp [busy, hheld, ht, hk]

/-- A move of a thread that has not got the cell, and does not get it. -/
theorem busy_congr (hheld : c'.holder? k = c.holder? k)
    (hcalls : ∀ u, c.holder? k = some u → c'.calls.current? u = c.calls.current? u) : c'.busy k = c.busy k := by
  unfold busy
  rw [hheld]
  apply List.filter_congr
  intro u hu
  rw [hcalls u (Option.mem_toList.mp hu)]

/-- A call goes on that has not got the cell, and does not get it. -/
theorem Sound.busy_into (hs : c.Sound) {t : ThreadId} {p p' : Phase α} {k : CellId} (ht : c.calls.current? t = some p)
    (hk : k ∉ p.held) (hheld : c'.holder? k = c.holder? k) (hcalls : c'.calls = c.calls.move t p') :
    c'.busy k = c.busy k := by
  apply busy_congr hheld
  intro u hu
  have hne : t ≠ u := by
    rintro rfl
    exact hk ((hs.holds_iff ht).mp hu)
  rw [hcalls, Calls.current?_move, if_neg hne]

theorem grant_step {t : ThreadId} {p : Phase α} (ht : c.calls.current? t = some p) :
    c.grant (.step t) = (p.wants.map (t, ·)).toList := by
  simp [grant, ht]

/-- The mutex of a cell is taken, and the work on it is done at once or is still to be done. -/
theorem Sound.inOrder_seizes (hs : c.Sound) {t : ThreadId} {p p' : Phase α} {i : CellId}
    (ht : c.calls.current? t = some p) (hp : p.Seizes c i p') (hi : (c.value? i).isSome) (hfree : c.holder? i = none)
    (k : CellId) : workers (note vs c ((c.hold t i).into t p') (.step t)) k ++ ((c.hold t i).into t p').busy k =
      c.busy k ++ takers (c.grant (.step t)) k := by
  have hheld : ((c.hold t i).into t p').holder? k = if i = k then some t else c.holder? k := by
    rw [holder?_into, holder?_hold_of_value hi]
  rw [note_seizes ht hp, grant_step ht, hp.wants_eq]
  by_cases hk : i = k
  · subst hk
    rw [if_pos rfl] at hheld
    rw [busy_of_free hfree, busy_of_held hheld (p := p') (by simp)]
    cases hp <;> simp [seizing, Phase.atWork, workers, works, Work.cells, takers]
  · rw [if_neg hk] at hheld
    rw [hs.busy_into ht (by rw [hp.held_eq.1]; exact List.not_mem_nil) hheld rfl]
    cases hp <;> simp [seizing, workers, works, Work.cells, takers, hk, Ne.symm hk]

/-- A swap takes its second cell and does its work on both. -/
theorem Sound.inOrder_exchanges (hs : c.Sound) {t : ThreadId} {i j : CellId} {v w : α}
    (ht : c.calls.current? t = some (.halfway i j)) (hw : c.value? j = some w) (hfree : c.holder? j = none)
    (k : CellId) :
    workers (note vs c ((((c.hold t j).setValue i w).setValue j v).into t (.exchanged i j)) (.step t)) k ++
        ((((c.hold t j).setValue i w).setValue j v).into t (.exchanged i j)).busy k =
      c.busy k ++ takers (c.grant (.step t)) k := by
  have hheld : ((((c.hold t j).setValue i w).setValue j v).into t (.exchanged i j)).holder? k =
      if j = k then some t else c.holder? k := holder?_exchange hw t i v k
  have hi : c.holder? i = some t := (hs.holds_iff ht).mpr List.mem_cons_self
  rw [note_exchanges ht, grant_step ht]
  by_cases hjk : j = k
  · subst hjk
    rw [if_pos rfl] at hheld
    rw [busy_of_free hfree, busy_of_held hheld (p := .exchanged i j) (by simp)]
    simp [workers, works, Work.cells, takers, Phase.wants, Phase.atWork]
  · rw [if_neg hjk] at hheld
    by_cases hik : i = k
    · subst hik
      rw [busy_of_held hi ht, busy_of_held (hheld.trans hi) (p := .exchanged i j) (by simp)]
      simp [workers, works, Work.cells, takers, Phase.wants, Phase.atWork, hjk]
    · rw [hs.busy_into ht (by simp [Phase.held, Ne.symm hik]) hheld rfl]
      simp [workers, works, Work.cells, takers, Phase.wants, hjk, Ne.symm hik, Ne.symm hjk]

/-- No cell is let go before the work on it is done. -/
theorem Sound.busy_releases (hs : c.Sound) {t : ThreadId} {p p' : Phase α} {i : CellId} {b : Bool}
    (ht : c.calls.current? t = some p) (hp : p.Releases i b p') (k : CellId) :
    ((c.release i b).into t p').busy k = c.busy k := by
  have hdone : p.atWork = [] ∧ p'.atWork = [] := by cases hp <;> exact ⟨rfl, rfl⟩
  have hheld : ((c.release i b).into t p').holder? k = if i = k then none else c.holder? k := by
    rw [holder?_into, holder?_release]
  by_cases hik : i = k
  · subst hik
    rw [if_pos rfl] at hheld
    rw [busy_of_held ((hs.holds_iff ht).mpr hp.mem) ht, hdone.1, busy_of_free hheld]
    rfl
  · rw [if_neg hik] at hheld
    by_cases hk : c.holder? k = some t
    · rw [busy_of_held hk ht, busy_of_held (hheld.trans hk) (p := p') (by simp), hdone.1, hdone.2]
    · exact hs.busy_into ht (fun hmem => hk ((hs.holds_iff ht).mpr hmem)) hheld rfl

/-- A callback ends, and has done its work. -/
theorem Sound.inOrder_finishes (hs : c.Sound) (ha : c.Agrees vs) {t : ThreadId} {i : CellId} (e : Ending)
    (ht : c.calls.current? t = some (.using i)) (k : CellId) :
    workers (note vs c (c.into t (.leaving i (Ending.isPanic e) (Ending.answer e))) (.finish t e)) k ++
        (c.into t (.leaving i (Ending.isPanic e) (Ending.answer e))).busy k =
      c.busy k ++ takers (c.grant (.finish t e)) k := by
  obtain ⟨w, hw⟩ := value_of_lt (hs.valid t (.using i) ht)
  obtain ⟨v, hv⟩ := ha.value_of_lt (hs.valid t (.using i) ht)
  have hi : c.holder? i = some t := (hs.holds_iff ht).mpr List.mem_cons_self
  rw [note_finishes e ht hv hw]
  by_cases hik : i = k
  · subst hik
    have hleaving : (c.into t (.leaving i (Ending.isPanic e) (Ending.answer e))).busy i = [] :=
      busy_of_held hi (p := .leaving i (Ending.isPanic e) (Ending.answer e)) (by simp)
    rw [busy_of_held hi ht, hleaving]
    simp [workers, works, Work.cells, takers, Phase.atWork, grant]
  · have hsame : (c.into t (.leaving i (Ending.isPanic e) (Ending.answer e))).busy k = c.busy k :=
      hs.busy_into ht (by simp [Phase.held, Ne.symm hik]) rfl rfl
    rw [hsame]
    simp [workers, works, Work.cells, takers, grant, Ne.symm hik]

end

section
variable [BEq α] {c c' : Cells α} {vs : List α} {m : Move α}

theorem Change.inOrder (hs : c.Sound) (hc : c.Change m c') (ha : c.Agrees vs) (k : CellId) :
    workers (note vs c c' m) k ++ c'.busy k = c.busy k ++ takers (c.grant m) k := by
  cases hc with
  | starts t r ht hr =>
    have hsame : busy { c with calls := c.calls.start t (.entering r) } k = c.busy k := by
      refine busy_congr rfl fun u hu => ?_
      have hne : t ≠ u := by
        rintro rfl
        obtain ⟨p, hp, -⟩ := (hs.held k t).mp hu
        rw [ht] at hp
        cases hp
      exact if_neg hne
    rw [hsame]
    exact (List.append_nil _).symm
  | @glides t p p' ht hp =>
    have hwants : p.wants = none := by cases hp <;> simp [Phase.wants]
    rw [note_glides ht hp, grant_step ht, hwants,
      hs.busy_into ht (by rw [hp.held_eq.1]; exact List.not_mem_nil) (holder?_into c t k p') rfl]
    exact (List.append_nil _).symm
  | seizes ht hp hi hfree => exact hs.inOrder_seizes ht hp hi hfree k
  | exchanges ht hv hw hfree => exact hs.inOrder_exchanges ht hw hfree k
  | @releases t p p' i b ht hp =>
    have hwants : p.wants = none := by cases hp <;> rfl
    rw [note_releases ht hp, grant_step ht, hwants, hs.busy_releases ht hp]
    exact (List.append_nil _).symm
  | @writes t i v ht =>
    rw [note_writes ht, busy_congr (holder?_setValue c i k v) fun _ _ => rfl]
    exact (List.append_nil _).symm
  | @finishes t i e ht => exact hs.inOrder_finishes ha e ht k
  | @collects t a ht =>
    have hsame : (c.collect t).busy k = c.busy k := by
      refine busy_congr rfl fun u hu => ?_
      have hne : t ≠ u := by
        rintro rfl
        cases (hs.holds_iff ht).mp hu
      exact (hs.single.current?_finish t u).trans (if_neg hne)
    rw [note_collects ht, hsame]
    exact (List.append_nil _).symm

theorem Change.taken (hc : c.Change m c') (t : ThreadId) (k : CellId) :
    (t, k) ∈ c.grant m ↔ c.holder? k ≠ some t ∧ c'.holder? k = some t := by
  have untaken (hgrant : c.grant m = []) (hheld : c'.holder? k = some t → c.holder? k = some t) :
      (t, k) ∈ c.grant m ↔ c.holder? k ≠ some t ∧ c'.holder? k = some t := by
    rw [hgrant]
    exact iff_of_false List.not_mem_nil fun h => h.1 (hheld h.2)
  have taken {u : ThreadId} {i : CellId} (hgrant : c.grant m = [(u, i)]) (hfree : c.holder? i = none)
      (hheld : c'.holder? i = some u) (hothers : i ≠ k → c'.holder? k = c.holder? k) :
      (t, k) ∈ c.grant m ↔ c.holder? k ≠ some t ∧ c'.holder? k = some t := by
    rw [hgrant, List.mem_singleton, Prod.mk.injEq]
    constructor
    · rintro ⟨rfl, rfl⟩
      exact ⟨by simp [hfree], hheld⟩
    · rintro ⟨hbefore, hafter⟩
      by_cases hk : i = k
      · subst hk
        rw [hheld] at hafter
        exact ⟨(Option.some.inj hafter).symm, rfl⟩
      · exact absurd (hothers hk ▸ hafter) hbefore
  cases hc with
  | starts u r hu hr => exact untaken rfl id
  | @glides u p p' hu hp =>
    have hwants : p.wants = none := by cases hp <;> simp [Phase.wants]
    exact untaken (by rw [grant_step hu, hwants]; rfl) id
  | @seizes u p p' i hu hp hi hfree =>
    refine taken (by rw [grant_step hu, hp.wants_eq]; rfl) hfree ?_ fun hk => ?_
    · rw [holder?_into, holder?_hold_of_value hi, if_pos rfl]
    · rw [holder?_into, holder?_hold_of_value hi, if_neg hk]
  | @exchanges u i j v w hu hv hw hfree =>
    refine taken (by rw [grant_step hu]; rfl) hfree ?_ fun hk => ?_
    · rw [holder?_into, holder?_exchange hw, if_pos rfl]
    · rw [holder?_into, holder?_exchange hw, if_neg hk]
  | @releases u p p' i b hu hp =>
    have hwants : p.wants = none := by cases hp <;> rfl
    refine untaken (by rw [grant_step hu, hwants]; rfl) ?_
    rw [holder?_into, holder?_release]
    split
    · nofun
    · exact id
  | writes v hu => exact untaken rfl (by rw [holder?_setValue]; exact id)
  | finishes e hu => exact untaken rfl id
  | collects hu => exact untaken rfl id

/-- A call has the cells on which it does its work. -/
theorem Change.holds (hs : c.Sound) (hc : c.Change m c') (ha : c.Agrees vs) {t : ThreadId} {w : Work α}
    (h : .did t w ∈ note vs c c' m) {k : CellId} (hk : k ∈ w.cells) : c'.holder? k = some t := by
  have holds {p : Phase α} (ht : c'.calls.current? t = some p) (hp : k ∈ p.held) : c'.holder? k = some t :=
    ((hs.change hc).holds_iff ht).mpr hp
  cases hc with
  | starts u r hu hr => simp [note] at h
  | glides hu hp => simp [note_glides hu hp] at h
  | @seizes u p p' i hu hp hi hfree =>
    rw [note_seizes hu hp] at h
    cases hp with
    | @copies _ v q hv =>
      cases List.mem_singleton.mp h
      exact holds (p := .copied i v q) (by simp) hk
    | _ => cases h
  | @exchanges u i j v w' hu hv hw hfree =>
    rw [note_exchanges hu] at h
    cases List.mem_singleton.mp h
    exact holds (p := .exchanged i j) (by simp) hk
  | releases hu hp => simp [note_releases hu hp] at h
  | writes v hu => simp [note_writes hu] at h
  | @finishes u i e hu =>
    obtain ⟨w', hw'⟩ := value_of_lt (hs.valid u (.using i) hu)
    obtain ⟨v, hv⟩ := ha.value_of_lt (hs.valid u (.using i) hu)
    rw [note_finishes e hu hv hw'] at h
    cases List.mem_singleton.mp h
    exact holds (p := .leaving i (Ending.isPanic e) (Ending.answer e)) (by simp) hk
  | collects hu => simp [note_collects hu] at h

end

/-! ## Transpositions -/

def Work.exchanging : Work α → Equiv.Perm CellId
  | .exchange i j => Equiv.swap i j
  | _ => 1

/-- The transpositions of the swaps, composed. -/
def transpositions (es : List (Mark α)) : Equiv.Perm CellId := ((works es).map fun w => w.2.exchanging).prod

def Work.isUse : Work α → Bool
  | .use _ _ _ => true
  | _ => false

theorem Plays.exchanging {vs vs' : List α} {w : Work α} (h : Plays vs w vs') (hw : w.isUse = false) (k : CellId) :
    vs'[k]? = vs[w.exchanging k]? := by
  cases h with
  | use after hv => cases hw
  | copy hv => rfl
  | @exchange i j v w hv hw' =>
    have hi : i < vs.length := (List.getElem?_eq_some_iff.mp hv).1
    have hj : j < vs.length := (List.getElem?_eq_some_iff.mp hw').1
    rw [Work.exchanging, Equiv.swap_apply_def, List.getElem?_set, List.getElem?_set]
    by_cases hik : k = i
    · subst hik
      by_cases hjk : j = k
      · subst hjk
        simpa [hj] using (List.getElem?_eq_some_iff.mp hv).2.symm
      · simp [hjk, hw', hi]
    · by_cases hjk : k = j
      · subst hjk
        simp [hik, hv, hj]
      · simp [hik, hjk, Ne.symm hik, Ne.symm hjk]

theorem trace_exchanging {vs vs' : List α} {ws : List (ThreadId × Work α)}
    (h : Trace Plays vs (ws.map Prod.snd) vs') (hw : ∀ w ∈ ws, w.2.isUse = false) (k : CellId) :
    vs'[k]? = vs[(ws.map fun w => w.2.exchanging).prod k]? := by
  induction ws generalizing vs with
  | nil =>
    cases h
    rfl
  | cons w ws ih =>
    obtain ⟨vs₁, hplays, h⟩ := h
    rw [ih h fun w' hw' => hw w' (List.mem_cons_of_mem _ hw'), hplays.exchanging (hw w List.mem_cons_self),
      List.map_cons, List.prod_cons, Equiv.Perm.mul_apply]

/-! ## What was called -/

theorem called_of_course [BEq α] {t : ThreadId} {r : Request} {ws : List (Work α)} {es : List (Mark α)}
    {st : Option (Request × List (Work α))} (h : Trace (Advances t) st es (some (r, ws))) :
    .called t r ∈ es ∨ ∃ ws₀, st = some (r, ws₀) := by
  induction es generalizing st with
  | nil => exact .inr ⟨ws, h⟩
  | cons e es ih =>
    obtain ⟨st₁, hadvances, h⟩ := h
    rcases ih h with hmem | ⟨ws₁, rfl⟩
    · exact .inl (List.mem_cons_of_mem _ hmem)
    · cases hadvances with
      | called r => exact .inl List.mem_cons_self
      | did r ws w => exact .inr ⟨ws, rfl⟩
      | other st hne => exact .inr ⟨ws₁, rfl⟩

theorem using_of_note [BEq α] {c c' : Cells α} {vs : List α} {m : Move α} {t : ThreadId} {w : Work α}
    (hc : c.Change m c') (h : .did t w ∈ note vs c c' m) (hw : w.isUse = true) :
    ∃ i, c.calls.current? t = some (.using i) := by
  cases hc with
  | starts u r hu hr => simp [note] at h
  | glides hu hp => simp [note_glides hu hp] at h
  | seizes hu hp hi hfree =>
    rw [note_seizes hu hp] at h
    cases hp with
    | copies q hv =>
      cases List.mem_singleton.mp h
      cases hw
    | _ => cases h
  | exchanges hu hv hw' hfree =>
    rw [note_exchanges hu] at h
    cases List.mem_singleton.mp h
    cases hw
  | releases hu hp => simp [note_releases hu hp] at h
  | writes v hu => simp [note_writes hu] at h
  | @finishes u i e hu =>
    obtain ⟨w', -, heq⟩ := List.mem_map.mp h
    cases heq
    exact ⟨i, hu⟩
  | collects hu => simp [note_collects hu] at h

/-! ## What the record shows -/

section
variable [BEq α] {init : List α} {r : Record α} (hr : r.Reachable init)
include hr

theorem Record.Reachable.plays :
    Trace Plays init ((works r.history).map Prod.snd) r.values ∧ r.state.Agrees r.values := by
  induction hr with
  | refl =>
    refine ⟨rfl, by simp [ofValues], fun i _ => ?_⟩
    simp [value?, ofValues, Function.comp_def]
  | tail m hr hn ih =>
    obtain ⟨c, hm, rfl⟩ := Option.map_eq_some_iff.mp hn
    obtain ⟨hplays, hagrees⟩ := ih
    obtain ⟨hplays', hagrees'⟩ := (move_change hm).plays (Record.Reachable.state hr).sound hagrees
    refine ⟨?_, hagrees'⟩
    rw [works, List.filterMap_append, List.map_append]
    exact trace_append.mpr ⟨_, hplays, hplays'⟩

theorem Record.Reachable.course (t : ThreadId) :
    ∃ st, Trace (Advances t) none r.history st ∧ Option.Rel Fits (r.state.calls.current? t) st := by
  induction hr with
  | refl => exact ⟨none, rfl, .none⟩
  | tail m hr hn ih =>
    obtain ⟨c, hm, rfl⟩ := Option.map_eq_some_iff.mp hn
    obtain ⟨st, hcourse, hst⟩ := ih
    have hs := (Record.Reachable.state hr).sound
    obtain ⟨st', hcourse', hst'⟩ := (move_change hm).course hs (Record.Reachable.plays hr).2 hst
    exact ⟨st', trace_append.mpr ⟨st, hcourse, hcourse'⟩, hst'⟩

theorem Record.Reachable.inOrder (i : CellId) :
    takers r.taken i = workers r.history i ++ r.state.busy i := by
  induction hr with
  | refl =>
    have hfree : (ofValues init).holder? i = none := by
      simp only [holder?, ofValues, List.getElem?_map]
      cases init[i]? <;> rfl
    exact (busy_of_free hfree).symm
  | tail m hr hn ih =>
    obtain ⟨c, hm, rfl⟩ := Option.map_eq_some_iff.mp hn
    have hs := (Record.Reachable.state hr).sound
    have hone := (move_change hm).inOrder hs (Record.Reachable.plays hr).2 i
    rw [takers_append, ih, workers_append, List.append_assoc, ← hone, List.append_assoc]

theorem Record.Reachable.called_of_using {t : ThreadId} {i : CellId} (ht : r.state.calls.current? t = some (.using i)) :
    .called t (.withLock i) ∈ r.history := by
  obtain ⟨st, hcourse, hst⟩ := hr.course t
  rw [ht] at hst
  cases hst with
  | some hfits =>
    cases hfits
    rcases called_of_course hcourse with h | ⟨ws, h⟩
    · exact h
    · cases h

theorem Record.Reachable.called_of_use {t : ThreadId} {w : Work α} (h : .did t w ∈ r.history) (hw : w.isUse = true) :
    ∃ i, .called t (.withLock i) ∈ r.history := by
  induction hr with
  | refl => cases h
  | tail m hr hn ih =>
    obtain ⟨c, hm, rfl⟩ := Option.map_eq_some_iff.mp hn
    rcases List.mem_append.mp h with h | h
    · obtain ⟨i, hi⟩ := ih h
      exact ⟨i, List.mem_append_left _ hi⟩
    · obtain ⟨i, hi⟩ := using_of_note (move_change hm) h hw
      exact ⟨i, List.mem_append_left _ (Record.Reachable.called_of_using hr hi)⟩

theorem Record.Reachable.transposed (honly : ∀ t q, .called t q ∈ r.history → ∃ i j, q = .swap i j) (k : CellId) :
    r.state.value? k = init[transpositions r.history k]? := by
  obtain ⟨hplays, hagrees⟩ := hr.plays
  have hnone (t : ThreadId) : r.state.calls.current? t ≠ some (.using k) := by
    intro ht
    obtain ⟨i, j, h⟩ := honly t _ (hr.called_of_using ht)
    cases h
  rw [hagrees.values k hnone]
  refine trace_exchanging hplays ?_ k
  intro w hw
  by_contra huse
  obtain ⟨e, he, hew⟩ := List.mem_filterMap.mp hw
  cases e with
  | did t w' =>
    cases hew
    obtain ⟨l, hl⟩ := hr.called_of_use he (by simpa using huse)
    obtain ⟨i, j, h⟩ := honly t _ hl
    cases h
  | _ => cases hew

/-- **Swaps are atomic and cannot deadlock.** Whatever the interleaving: no thread waits for itself, directly or
through others, and while there is a call some thread with a call can move. The pieces of work, one after
another in the order of the history, make of the first values the present ones; those of each thread are the
work of its calls, with their answers; and on every cell they stand in the order in which its mutex was taken,
which is in the hands of the thread that does the work. If all calls are swaps, the values are the first ones,
moved around by the transpositions. -/
theorem swaps_atomic_without_deadlock :
    ((∀ t, ¬ Relation.TransGen r.state.BlockedBy t t) ∧
      (∀ t i, r.state.WaitsAt t i → r.state.holder? i ≠ some t) ∧
      ((∃ t p, r.state.calls.current? t = some p) →
        ∃ u, (∃ p, r.state.calls.current? u = some p) ∧ r.state.CanMove u)) ∧
    (Trace Plays init ((works r.history).map Prod.snd) r.values ∧
      (∀ i, (∀ t, r.state.calls.current? t ≠ some (.using i)) → r.state.value? i = r.values[i]?) ∧
      (∀ t, ∃ st, Trace (Advances t) none r.history st ∧ Option.Rel Fits (r.state.calls.current? t) st) ∧
      ∀ i, takers r.taken i = workers r.history i ++ r.state.busy i) ∧
    (∀ m r', r.next? m = some r' → ∃ es gs, r'.history = r.history ++ es ∧ r'.taken = r.taken ++ gs ∧
      (∀ t i, (t, i) ∈ gs ↔ r.state.holder? i ≠ some t ∧ r'.state.holder? i = some t) ∧
      ∀ t w, .did t w ∈ es → ∀ i ∈ w.cells, r'.state.holder? i = some t) ∧
    ((∀ t q, .called t q ∈ r.history → ∃ i j, q = .swap i j) →
      ∀ i, r.state.value? i = init[transpositions r.history i]?) := by
  have hs := (Record.Reachable.state hr).sound
  obtain ⟨hplays, hagrees⟩ := hr.plays
  refine ⟨⟨hs.acyclic, ?_, ?_⟩, ⟨hplays, hagrees.values, hr.course, hr.inOrder⟩, ?_, hr.transposed⟩
  · intro t i hw hheld
    exact Nat.lt_irrefl _ (hs.lt_of_holds hheld hw)
  · rintro ⟨t, p, hp⟩
    exact hs.someone_canMove hp
  · intro m r' hn
    obtain ⟨c, hm, rfl⟩ := Option.map_eq_some_iff.mp hn
    have hchange := move_change hm
    exact ⟨_, _, rfl, rfl, hchange.taken, fun t w h i hi => hchange.holds hs hagrees h hi⟩

end

/-- Two swaps that meet on a cell. The first waits for the second. -/
def swapsMeet : List (Move Nat) := [.start 1 (.swap 0 1), .step 1, .start 2 (.swap 2 1), .step 2]

def swapsPart : List (Move Nat) :=
  [.step 2, .step 2, .step 2, .collect 2, .step 1, .step 1, .step 1, .collect 1]

theorem swaps_atomic_without_deadlock_meeting : ∃ r r' : Record Nat,
    (r.Reachable [10, 20, 30] ∧ r.state.BlockedBy 1 2 ∧ ¬ Relation.TransGen r.state.BlockedBy 1 1 ∧
      ∃ u, (∃ p, r.state.calls.current? u = some p) ∧ r.state.CanMove u) ∧
    r'.Reachable [10, 20, 30] ∧ r'.values = [30, 10, 20] ∧
    (Trace Plays [10, 20, 30] ((works r'.history).map Prod.snd) r'.values ∧ r'.state.value? 0 = some 30 ∧
      r'.state.value? 0 = [10, 20, 30][transpositions r'.history 0]?) := by
  obtain ⟨r, hrun, hone, hheld⟩ : ∃ r, run? Record.next? { state := ofValues [10, 20, 30], values := [10, 20, 30] }
      swapsMeet = some r ∧ r.state.calls.current? 1 = some (.halfway 0 1) ∧ r.state.holder? 1 = some 2 :=
    ⟨_, rfl, rfl, rfl⟩
  obtain ⟨r', hrun', hvalues, hvalue, hcalled⟩ : ∃ r', run? Record.next?
      { state := ofValues [10, 20, 30], values := [10, 20, 30] } (swapsMeet ++ swapsPart) = some r' ∧
      r'.values = [30, 10, 20] ∧ r'.state.value? 0 = some 30 ∧
      r'.history = [.called 1 (.swap 0 1), .called 2 (.swap 2 1), .did 2 (.exchange 1 2), .returned 2 .done,
        .did 1 (.exchange 0 1), .returned 1 .done] := ⟨_, rfl, rfl, rfl, rfl⟩
  have hr : r.Reachable [10, 20, 30] := Leads.refl.run _ hrun
  have hr' : r'.Reachable [10, 20, 30] := Leads.refl.run _ hrun'
  obtain ⟨⟨hacyclic, -, hmove⟩, -⟩ := swaps_atomic_without_deadlock hr
  obtain ⟨-, ⟨hplays, -⟩, -, htransposed⟩ := swaps_atomic_without_deadlock hr'
  refine ⟨r, r', ⟨hr, ⟨1, ⟨_, hone, rfl⟩, hheld⟩, hacyclic 1, hmove ⟨1, _, hone⟩⟩, hr', hvalues, hplays, hvalue,
    htransposed ?_ 0⟩
  intro t q h
  rw [hcalled] at h
  simp only [List.mem_cons, Mark.called.injEq, reduceCtorEq, List.not_mem_nil, or_false] at h
  rcases h with ⟨-, rfl⟩ | ⟨-, rfl⟩
  · exact ⟨0, 1, rfl⟩
  · exact ⟨2, 1, rfl⟩

/-! ## A comparison is not atomic -/

/-- A swap between the two copies of a comparison. -/
def swapBetweenCopies : List (Move Nat) :=
  [.start 1 (.sameValue 0 1), .step 1, .step 1, .step 1, .start 2 (.swap 0 1), .step 2, .step 2, .step 2, .step 2,
    .collect 2, .step 1, .step 1, .step 1, .collect 1]

theorem Amounts.of_sameValue [BEq α] {i j : CellId} {a : Answer α} {ws : List (Work α)} (hij : i ≠ j)
    (h : Amounts (.sameValue i j) a ws) : ∃ v w, a = .flag (v == w) ∧ ws = [.copy i v, .copy j w] := by
  cases h with
  | same => exact absurd rfl hij
  | compare v w _ => exact ⟨v, w, rfl, rfl⟩

theorem Amounts.of_swap [BEq α] {i j : CellId} {a : Answer α} {ws : List (Work α)} (hij : i ≠ j)
    (h : Amounts (.swap i j) a ws) : ws = [.exchange (min i j) (max i j)] := by
  cases h with
  | swapSame => exact absurd rfl hij
  | swap _ => rfl

/-- Two cells are found to be the same though they never are: in neither order do the two calls, each done in one
go, give the answers that they gave. -/
theorem sameValue_not_atomic : ∃ r : Record Nat, r.Reachable [1, 2] ∧ r.state.calls.pending = [] ∧
    r.history = [.called 1 (.sameValue 0 1), .did 1 (.copy 0 1), .called 2 (.swap 0 1), .did 2 (.exchange 0 1),
      .returned 2 .done, .did 1 (.copy 1 1), .returned 1 (.flag true)] ∧
    ∀ calls : List (Request × Answer Nat),
      calls.Perm [(.sameValue 0 1, .flag true), (.swap 0 1, .done)] →
      ∀ wss, List.Forall₂ (fun call ws => Amounts call.1 call.2 ws) calls wss →
        ∀ vs, ¬ Trace Plays [1, 2] wss.flatten vs := by
  obtain ⟨r, hrun, hpending, hhistory⟩ : ∃ r, run? Record.next? { state := ofValues [1, 2], values := [1, 2] }
      swapBetweenCopies = some r ∧ r.state.calls.pending = [] ∧
      r.history = [.called 1 (.sameValue 0 1), .did 1 (.copy 0 1), .called 2 (.swap 0 1), .did 2 (.exchange 0 1),
        .returned 2 .done, .did 1 (.copy 1 1), .returned 1 (.flag true)] := ⟨_, rfl, rfl, rfl⟩
  refine ⟨r, Leads.refl.run _ hrun, hpending, hhistory, ?_⟩
  intro calls hperm wss hamounts vs htrace
  have compared {ws : List (Work Nat)} (h : Amounts (.sameValue 0 1) (.flag true) ws) :
      ∃ v, ws = [.copy 0 v, .copy 1 v] := by
    obtain ⟨v, w, hflag, rfl⟩ := h.of_sameValue (by decide)
    cases hvw : v == w with
    | false =>
      rw [hvw] at hflag
      cases hflag
    | true => exact ⟨v, by rw [eq_of_beq hvw]⟩
  have differ {vs vs' : List Nat} {v : Nat} {ws : List (Work Nat)} (hne : vs[0]? ≠ vs[1]?) :
      ¬ Trace Plays vs (.copy 0 v :: .copy 1 v :: ws) vs' := by
    rintro ⟨_, hfirst, _, hsecond, -⟩
    cases hfirst with
    | copy hv =>
      cases hsecond with
      | copy hw => exact hne (hv.trans hw.symm)
  rcases List.perm_pair.mp hperm with rfl | rfl
  · cases hamounts with
    | cons hcompare hrest =>
      obtain ⟨v, rfl⟩ := compared hcompare
      exact differ (by decide) htrace
  · cases hamounts with
    | cons hswap hrest =>
      cases hrest with
      | cons hcompare hnil =>
        cases hnil
        obtain ⟨v, rfl⟩ := compared hcompare
        rw [hswap.of_swap (by decide)] at htrace
        obtain ⟨vs₁, hexchange, htrace⟩ := htrace
        cases hexchange with
        | exchange hv hw =>
          cases hv
          cases hw
          exact differ (by decide) htrace

end Interlock.Cells
