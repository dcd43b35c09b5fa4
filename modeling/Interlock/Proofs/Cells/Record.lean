import Interlock.Proofs.History
import Interlock.Proofs.Cells.Waiting

/-!
# The work of the calls on cells

What a call does to the values it does in pieces of work, each of which could be done in one go. A callback, a copy
and an exchange are one piece; a comparison of two cells is two copies, between which other calls may do
their work (`Amounts`). A `Record` keeps the pieces in the order in which they are done, and the order in which the
mutexes are taken. Done one after another the pieces make of the first values the present ones (`Change.plays`),
and those of each thread are the work of its calls (`Change.course`).
-/

namespace Interlock.Cells

variable {α : Type}

/-! ## Work -/

inductive Work (α : Type) where
  /-- A callback finds one value and leaves another. -/
  | use (i : CellId) (before after : α)
  | copy (i : CellId) (v : α)
  | exchange (i j : CellId)

inductive Plays : List α → Work α → List α → Prop
  | use {vs : List α} {i : CellId} {before : α} (after : α) : vs[i]? = some before →
      Plays vs (.use i before after) (vs.set i after)
  | copy {vs : List α} {i : CellId} {v : α} : vs[i]? = some v → Plays vs (.copy i v) vs
  | exchange {vs : List α} {i j : CellId} {v w : α} : vs[i]? = some v → vs[j]? = some w →
      Plays vs (.exchange i j) ((vs.set i w).set j v)

/-- The work of a call that gives this answer. -/
inductive Amounts [BEq α] : Request → Answer α → List (Work α) → Prop
  | withLock (i : CellId) (before after : α) (e : Ending) :
      Amounts (.withLock i) (Ending.answer e) [.use i before after]
  | snapshot (i : CellId) (v : α) : Amounts (.snapshot i) (.value v) [.copy i v]
  | same (i : CellId) : Amounts (.sameValue i i) (.flag true) []
  | compare {i j : CellId} (v w : α) : i ≠ j → Amounts (.sameValue i j) (.flag (v == w)) [.copy i v, .copy j w]
  | swapSame (i : CellId) : Amounts (.swap i i) .done []
  | swap {i j : CellId} : i ≠ j → Amounts (.swap i j) .done [.exchange (min i j) (max i j)]

inductive Mark (α : Type) where
  | called (t : ThreadId) (r : Request)
  | did (t : ThreadId) (w : Work α)
  | returned (t : ThreadId) (a : Answer α)

def Mark.thread : Mark α → ThreadId
  | .called t _ => t
  | .did t _ => t
  | .returned t _ => t

def works (es : List (Mark α)) : List (ThreadId × Work α) :=
  es.filterMap fun
    | .did t w => some (t, w)
    | _ => none

/-- What a mark does to the call that the thread is inside and the work that it has done so far. -/
inductive Advances [BEq α] (t : ThreadId) :
    Option (Request × List (Work α)) → Mark α → Option (Request × List (Work α)) → Prop
  | called (r : Request) : Advances t none (.called t r) (some (r, []))
  | did (r : Request) (ws : List (Work α)) (w : Work α) :
      Advances t (some (r, ws)) (.did t w) (some (r, ws ++ [w]))
  | returned {r : Request} {a : Answer α} {ws : List (Work α)} : Amounts r a ws →
      Advances t (some (r, ws)) (.returned t a) none
  | other {e : Mark α} (st : Option (Request × List (Work α))) : e.thread ≠ t → Advances t st e st

/-! ## The record -/

structure Record (α : Type) where
  state : Cells α
  /-- What the cells hold, as if the callbacks at work had not begun. -/
  values : List α
  history : List (Mark α) := []
  /-- The mutexes in the order in which they were taken, with the threads that took them. -/
  taken : List (ThreadId × CellId) := []

/-- The work that a call does as it comes from one phase into another. -/
def workOf (vs : List α) (c : Cells α) : Option (Phase α) → Option (Phase α) → List (Work α)
  | some (.approaching i _), some (.copied _ v _) => [.copy i v]
  | some (.halfway i j), some (.exchanged _ _) => [.exchange i j]
  | some (.using i), some (.leaving _ _ _) =>
    match vs[i]?, c.value? i with
    | some v, some w => [.use i v w]
    | _, _ => []
  | _, _ => []

def note (vs : List α) (c c' : Cells α) : Move α → List (Mark α)
  | .start t r => [.called t r]
  | .collect t => ((c.answer? t).map (.returned t)).toList
  | m => (workOf vs c (c.calls.current? m.thread) (c'.calls.current? m.thread)).map (.did m.thread)

/-- The mutex that is taken in a move. -/
def grant (c : Cells α) : Move α → List (ThreadId × CellId)
  | .step t => (((c.calls.current? t).bind Phase.wants).map (t, ·)).toList
  | _ => []

def Work.apply (vs : List α) : Work α → List α
  | .use i _ after => vs.set i after
  | .copy _ _ => vs
  | .exchange i j =>
    match vs[i]?, vs[j]? with
    | some v, some w => (vs.set i w).set j v
    | _, _ => vs

def replay (vs : List α) (es : List (Mark α)) : List α := (works es).foldl (fun vs w => w.2.apply vs) vs

namespace Record

variable [BEq α]

def next? (r : Record α) (m : Move α) : Option (Record α) :=
  (r.state.move? m).map fun c =>
    let es := note r.values r.state c m
    ⟨c, replay r.values es, r.history ++ es, r.taken ++ grant r.state m⟩

def Reachable (init : List α) (r : Record α) : Prop := Leads next? { state := ofValues init, values := init } r

theorem Reachable.state {init : List α} {r : Record α} (hr : r.Reachable init) : Cells.Reachable init r.state := by
  refine Leads.map Record.state (fun r m r' hn => ?_) hr
  obtain ⟨c, hm, rfl⟩ := Option.map_eq_some_iff.mp hn
  exact hm

end Record

theorem Reachable.recorded [BEq α] {init : List α} {c : Cells α} (hr : c.Reachable init) :
    ∃ r : Record α, r.Reachable init ∧ r.state = c :=
  Leads.lift Record.state (fun r m c hm => ⟨_, by rw [Record.next?, hm]; rfl, rfl⟩) hr

/-! ## What a move takes down -/

section
variable {vs : List α} {c c' : Cells α} {t : ThreadId}

theorem note_step {p : Phase α} (p' : Phase α) (ht : c.calls.current? t = some p)
    (ht' : c'.calls.current? t = some p') :
    note vs c c' (.step t) = (workOf vs c (some p) (some p')).map (.did t) := by
  show (workOf vs c (c.calls.current? t) (c'.calls.current? t)).map (Mark.did t) = _
  rw [ht, ht']

theorem note_glides [BEq α] {p p' : Phase α} (ht : c.calls.current? t = some p) (hp : p.Glides p') :
    note vs c (c.into t p') (.step t) = [] := by
  rw [note_step p' ht (by simp)]
  cases hp <;> rfl

theorem note_releases {p p' : Phase α} {i : CellId} {b : Bool} (ht : c.calls.current? t = some p)
    (hp : p.Releases i b p') : note vs c ((c.release i b).into t p') (.step t) = [] := by
  rw [note_step p' ht (by simp)]
  cases hp <;> rfl

/-- What a call does as it takes a cell. -/
def seizing : Phase α → List (Work α)
  | .copied i v _ => [.copy i v]
  | _ => []

theorem note_seizes {p p' : Phase α} {i : CellId} (ht : c.calls.current? t = some p) (hp : p.Seizes c i p') :
    note vs c ((c.hold t i).into t p') (.step t) = (seizing p').map (.did t) := by
  rw [note_step p' ht (by simp)]
  cases hp <;> rfl

theorem note_exchanges {i j : CellId} {v w : α} (ht : c.calls.current? t = some (.halfway i j)) :
    note vs c ((((c.hold t j).setValue i w).setValue j v).into t (.exchanged i j)) (.step t) =
      [.did t (.exchange i j)] := by
  rw [note_step (.exchanged i j) ht (by simp)]
  rfl

theorem note_writes {i : CellId} {v : α} (ht : c.calls.current? t = some (.using i)) :
    note vs c (c.setValue i v) (.write t v) = [] := by
  show (workOf vs c (c.calls.current? t) (c.calls.current? t)).map (Mark.did t) = []
  rw [ht]
  rfl

theorem note_finishes {i : CellId} {v w : α} (e : Ending) (ht : c.calls.current? t = some (.using i))
    (hv : vs[i]? = some v) (hw : c.value? i = some w) :
    note vs c (c.into t (.leaving i (Ending.isPanic e) (Ending.answer e))) (.finish t e) =
      [.did t (.use i v w)] := by
  show (workOf vs c (c.calls.current? t) ((c.calls.move t _).current? t)).map (Mark.did t) = _
  rw [ht, Calls.current?_move, if_pos rfl]
  simp [workOf, hv, hw]

theorem note_collects {a : Answer α} (ht : c.calls.current? t = some (.returned a)) :
    note vs c c' (.collect t) = [.returned t a] := by
  simp [note, answer?, ht]

end

/-! ## The values -/

/-- Cells that no callback is at work on hold these values. -/
structure Agrees (c : Cells α) (vs : List α) : Prop where
  length : vs.length = c.cells.length
  values : ∀ i, (∀ t, c.calls.current? t ≠ some (.using i)) → c.value? i = vs[i]?

namespace Sound

variable {c : Cells α} {t : ThreadId} {p : Phase α} {i : CellId} (hs : c.Sound)
include hs

theorem not_using_of_free (hfree : c.holder? i = none) (u : ThreadId) : c.calls.current? u ≠ some (.using i) := by
  intro hu
  have hheld : c.holder? i = some u := (hs.holds_iff hu).mpr (by simp [Phase.held])
  rw [hfree] at hheld
  cases hheld

theorem not_using_of_held (ht : c.calls.current? t = some p) (hi : i ∈ p.held) (hp : p ≠ .using i) (u : ThreadId) :
    c.calls.current? u ≠ some (.using i) := by
  intro hu
  have hheld : c.holder? i = some u := (hs.holds_iff hu).mpr (by simp [Phase.held])
  rw [(hs.holds_iff ht).mpr hi] at hheld
  obtain rfl := Option.some.inj hheld
  rw [ht] at hu
  exact hp (Option.some.inj hu)

end Sound

theorem not_using_of_move {calls : Calls (Phase α)} {t : ThreadId} {p p' : Phase α} {i : CellId}
    (ht : calls.current? t = some p) (hp : p ≠ .using i)
    (h : ∀ u, (calls.move t p').current? u ≠ some (.using i)) (u : ThreadId) : calls.current? u ≠ some (.using i) := by
  by_cases hu : t = u
  · subst hu
    rw [ht]
    simpa using hp
  · simpa [hu] using h u

namespace Agrees

variable {c c' : Cells α} {vs : List α} {t : ThreadId} {p p' : Phase α} (ha : c.Agrees vs)
include ha

theorem value_of_lt {i : CellId} (hi : i < c.cells.length) : ∃ v, vs[i]? = some v :=
  ⟨_, List.getElem?_eq_getElem (ha.length ▸ hi)⟩

/-- A call that is not at a callback goes on, and the values stay. -/
theorem goesOn (hlen : c'.cells.length = c.cells.length) (hvalue : ∀ i, c'.value? i = c.value? i)
    (hcalls : c'.calls = c.calls.move t p') (ht : c.calls.current? t = some p) (hp : ∀ i, p ≠ .using i) :
    c'.Agrees vs := by
  refine ⟨ha.length.trans hlen.symm, fun i hi => ?_⟩
  rw [hvalue]
  rw [hcalls] at hi
  exact ha.values i (not_using_of_move ht (hp i) hi)

theorem exchanges {i j : CellId} {v w : α} (hv : c.value? i = some v) (hw : c.value? j = some w)
    (ht : c.calls.current? t = some (.halfway i j)) :
    ((((c.hold t j).setValue i w).setValue j v).into t (.exchanged i j)).Agrees ((vs.set i w).set j v) := by
  refine ⟨by simpa using ha.length, fun k hk => ?_⟩
  have hlen := ha.length
  have hi : i < vs.length := hlen ▸ (value?_isSome c i).mp (by simp [hv])
  have hj : j < vs.length := hlen ▸ (value?_isSome c j).mp (by simp [hw])
  rw [value?_into, value?_setValue, value?_setValue, value?_hold, List.getElem?_set, List.getElem?_set]
  by_cases hjk : j = k
  · subst hjk
    simp [hw, hj]
  · by_cases hik : i = k
    · subst hik
      simp [hjk, hv, hi]
    · rw [if_neg hjk, if_neg hik, if_neg hjk, if_neg hik]
      exact ha.values k (not_using_of_move ht nofun hk)

theorem finishes {i : CellId} {v : α} (hv : c.value? i = some v) (ht : c.calls.current? t = some (.using i)) :
    (c.into t p').Agrees (vs.set i v) := by
  refine ⟨by simpa using ha.length, fun k hk => ?_⟩
  have hi : i < vs.length := ha.length ▸ (value?_isSome c i).mp (by simp [hv])
  rw [value?_into, List.getElem?_set]
  by_cases hik : i = k
  · subst hik
    simp [hv, hi]
  · rw [if_neg hik]
    refine ha.values k (not_using_of_move ht ?_ hk)
    rintro ⟨⟩
    exact hik rfl

end Agrees

theorem Phase.Glides.ne_using [BEq α] {p p' : Phase α} (h : p.Glides p') (i : CellId) : p ≠ .using i := by
  cases h <;> simp

theorem Phase.Seizes.ne_using {c : Cells α} {p p' : Phase α} {k : CellId} (h : p.Seizes c k p') (i : CellId) :
    p ≠ .using i := by
  cases h <;> simp

theorem Phase.Releases.ne_using {p p' : Phase α} {k : CellId} {b : Bool} (h : p.Releases k b p') (i : CellId) :
    p ≠ .using i := by
  cases h <;> simp

theorem Change.plays [BEq α] {c c' : Cells α} {vs : List α} {m : Move α} (hs : c.Sound) (hc : c.Change m c')
    (ha : c.Agrees vs) :
    Trace Plays vs ((works (note vs c c' m)).map Prod.snd) (replay vs (note vs c c' m)) ∧
      c'.Agrees (replay vs (note vs c c' m)) := by
  cases hc with
  | starts t r ht hr =>
    refine ⟨rfl, ha.length, fun i hi => ha.values i fun u => ?_⟩
    by_cases hu : t = u
    · subst hu
      simp [ht]
    · simpa [hu] using hi u
  | glides ht hp =>
    rw [note_glides ht hp]
    exact ⟨rfl, ha.goesOn rfl (fun _ => rfl) rfl ht hp.ne_using⟩
  | @seizes t p p' i ht hp hi hfree =>
    have hafter : ((c.hold t i).into t p').Agrees vs :=
      ha.goesOn (length_hold c t i) (fun k => value?_hold c t i k) rfl ht hp.ne_using
    rw [note_seizes ht hp]
    cases hp with
    | copies q hv =>
      refine ⟨⟨_, .copy ?_, rfl⟩, hafter⟩
      rw [← ha.values i (hs.not_using_of_free hfree), hv]
    | _ => exact ⟨rfl, hafter⟩
  | @exchanges t i j v w ht hv hw hfree =>
    have hvi : vs[i]? = some v := by
      rw [← ha.values i (hs.not_using_of_held ht (by simp [Phase.held]) (by simp)), hv]
    have hwj : vs[j]? = some w := by rw [← ha.values j (hs.not_using_of_free hfree), hw]
    have hreplay : replay vs [.did t (.exchange i j)] = (vs.set i w).set j v := by
      simp [replay, works, Work.apply, hvi, hwj]
    rw [note_exchanges ht, hreplay]
    exact ⟨⟨_, .exchange hvi hwj, rfl⟩, ha.exchanges hv hw ht⟩
  | @releases t p p' i b ht hp =>
    rw [note_releases ht hp]
    exact ⟨rfl, ha.goesOn (length_release c i b) (fun k => value?_release c i k b) rfl ht hp.ne_using⟩
  | @writes t i v ht =>
    rw [note_writes ht]
    refine ⟨rfl, ha.length.trans (length_setValue c i v).symm, fun k hk => ?_⟩
    have hne : i ≠ k := by
      rintro rfl
      exact hk t ht
    rw [value?_setValue, if_neg hne]
    exact ha.values k hk
  | @finishes t i e ht =>
    obtain ⟨w, hw⟩ := value_of_lt (hs.valid t (.using i) ht)
    obtain ⟨v, hv⟩ := ha.value_of_lt (hs.valid t (.using i) ht)
    rw [note_finishes e ht hv hw]
    exact ⟨⟨_, .use w hv, rfl⟩, ha.finishes hw ht⟩
  | @collects t a ht =>
    rw [note_collects ht]
    refine ⟨rfl, ha.length, fun i hi => ha.values i fun u => ?_⟩
    have hcurrent := hs.single.current?_finish t u
    by_cases hu : t = u
    · subst hu
      simp [ht]
    · rw [if_neg hu] at hcurrent
      exact hcurrent ▸ hi u

/-! ## The calls of one thread -/

/-- The phase of a call, and the call with the work that it has done so far. -/
inductive Fits [BEq α] : Phase α → Request × List (Work α) → Prop
  | entering (r : Request) : Fits (.entering r) (r, [])
  | using (i : CellId) : Fits (.using i) (.withLock i, [])
  | snapshot (i : CellId) : Fits (.approaching i .snapshot) (.snapshot i, [])
  | first {i j : CellId} : i ≠ j → Fits (.approaching i (.first j)) (.sameValue i j, [])
  | firstCopied {i j : CellId} (v : α) : i ≠ j → Fits (.copied i v (.first j)) (.sameValue i j, [.copy i v])
  | second {i j : CellId} (v : α) : i ≠ j → Fits (.approaching j (.second v)) (.sameValue i j, [.copy i v])
  | halfway {i j : CellId} : i ≠ j → Fits (.halfway (min i j) (max i j)) (.swap i j, [])
  | copied (i : CellId) (v : α) : Fits (.copied i v .snapshot) (.snapshot i, [.copy i v])
  | secondCopied {i j : CellId} (v w : α) : i ≠ j →
      Fits (.copied j w (.second v)) (.sameValue i j, [.copy i v, .copy j w])
  | comparing {i j : CellId} (v w : α) : i ≠ j → Fits (.comparing v w) (.sameValue i j, [.copy i v, .copy j w])
  | exchanged {i j k l : CellId} {ws : List (Work α)} : Amounts (.swap i j) .done ws →
      Fits (.exchanged k l) (.swap i j, ws)
  | leaving {r : Request} {a : Answer α} {ws : List (Work α)} (i : CellId) (b : Bool) : Amounts r a ws →
      Fits (.leaving i b a) (r, ws)
  | returned {r : Request} {a : Answer α} {ws : List (Work α)} : Amounts r a ws → Fits (.returned a) (r, ws)

section
variable [BEq α] {c c' : Cells α} {p p' : Phase α} {s : Request × List (Work α)} {i j : CellId} {t : ThreadId}
  {vs : List α} {m : Move α}

theorem Fits.glides (h : Fits p s) (hp : p.Glides p') : Fits p' s := by
  cases hp with
  | snapshot i =>
    cases h
    exact .snapshot i
  | same i =>
    cases h
    exact .returned (.same i)
  | compare hij =>
    cases h
    exact .first hij
  | swapSame i =>
    cases h
    exact .returned (.swapSame i)
  | compared v w =>
    cases h with
    | comparing _ _ hij => exact .returned (.compare v w hij)

theorem Fits.seizes (h : Fits p s) (hp : p.Seizes c i p') : Fits p' (s.1, s.2 ++ seizing p') := by
  cases hp with
  | uses i =>
    cases h
    exact .using i
  | @copies i v q hv =>
    cases h with
    | snapshot => exact .copied i v
    | first hij => exact .firstCopied v hij
    | second w hij => exact .secondCopied w v hij
  | begins hij =>
    cases h
    exact .halfway hij

theorem Fits.exchanges (h : Fits (.halfway i j) s) : Fits (.exchanged i j) (s.1, s.2 ++ [.exchange i j]) := by
  cases h with
  | halfway hij => exact .exchanged (.swap hij)

theorem Fits.releases {b : Bool} (h : Fits p s) (hp : p.Releases i b p') : Fits p' s := by
  cases hp with
  | snapshot i v =>
    cases h
    exact .returned (.snapshot i v)
  | first i j v =>
    cases h with
    | firstCopied _ hij => exact .second v hij
  | second i v w =>
    cases h with
    | secondCopied _ _ hij => exact .comparing v w hij
  | exchanged i j =>
    cases h with
    | exchanged ha => exact .leaving i false ha
  | leaving i b a =>
    cases h with
    | leaving _ _ ha => exact .returned ha

theorem Fits.finishes (h : Fits (.using i) s) (v w : α) (e : Ending) :
    Fits (.leaving i (Ending.isPanic e) (Ending.answer e)) (s.1, s.2 ++ [.use i v w]) := by
  cases h with
  | «using» => exact .leaving i _ (.withLock i v w e)

theorem trace_did (t : ThreadId) (s : Request × List (Work α)) (ws : List (Work α)) :
    Trace (Advances t) (some s) (ws.map (.did t)) (some (s.1, s.2 ++ ws)) := by
  induction ws generalizing s with
  | nil =>
    rw [List.append_nil]
    rfl
  | cons w ws ih =>
    refine ⟨_, .did s.1 s.2 w, ?_⟩
    simpa using ih (s.1, s.2 ++ [w])

/-- The thread that moves, and its call. -/
theorem Change.advances (hs : c.Sound) (hc : c.Change m c') (ha : c.Agrees vs) {st : Option (Request × List (Work α))}
    (hst : Option.Rel Fits (c.calls.current? m.thread) st) :
    ∃ st', Trace (Advances m.thread) st (note vs c c' m) st' ∧ Option.Rel Fits (c'.calls.current? m.thread) st' := by
  have goesOn (ws : List (Work α)) {t : ThreadId} {p p' : Phase α} (ht : c.calls.current? t = some p)
      (hst : Option.Rel Fits (c.calls.current? t) st) (hcalls : c'.calls = c.calls.move t p')
      (hfits : ∀ s, Fits p s → Fits p' (s.1, s.2 ++ ws)) :
      ∃ st', Trace (Advances t) st (ws.map (.did t)) st' ∧ Option.Rel Fits (c'.calls.current? t) st' := by
    rw [ht] at hst
    cases hst with
    | some hs =>
      refine ⟨_, trace_did t _ ws, ?_⟩
      rw [hcalls, Calls.current?_move, if_pos rfl]
      exact .some (hfits _ hs)
  cases hc with
  | starts t r ht hr =>
    replace hst : Option.Rel Fits (c.calls.current? t) st := hst
    rw [ht] at hst
    cases hst
    refine ⟨_, ⟨_, .called r, rfl⟩, ?_⟩
    rw [Move.thread, Calls.current?_start, if_pos rfl]
    exact .some (.entering r)
  | glides ht hp =>
    rw [note_glides ht hp]
    exact goesOn [] ht hst rfl fun s hs => by simpa using hs.glides hp
  | seizes ht hp hi hfree =>
    rw [note_seizes ht hp]
    exact goesOn _ ht hst rfl fun s hs => hs.seizes hp
  | exchanges ht hv hw hfree =>
    rw [note_exchanges ht]
    exact goesOn [.exchange _ _] ht hst rfl fun s hs => hs.exchanges
  | releases ht hp =>
    rw [note_releases ht hp]
    exact goesOn [] ht hst rfl fun s hs => by simpa using hs.releases hp
  | writes v ht =>
    rw [note_writes ht]
    exact ⟨st, rfl, hst⟩
  | @finishes t i e ht =>
    obtain ⟨w, hw⟩ := value_of_lt (hs.valid t (.using i) ht)
    obtain ⟨v, hv⟩ := ha.value_of_lt (hs.valid t (.using i) ht)
    rw [note_finishes e ht hv hw]
    exact goesOn [.use i v w] ht hst rfl fun s hs => hs.finishes v w e
  | @collects t a ht =>
    replace hst : Option.Rel Fits (c.calls.current? t) st := hst
    rw [ht] at hst
    rw [note_collects ht]
    have hnone : (c.collect t).calls.current? t = none := by
      have := hs.single.current?_finish t t
      rwa [if_pos rfl] at this
    cases hst with
    | some hfits =>
      cases hfits with
      | returned hamounts => exact ⟨none, ⟨_, .returned hamounts, rfl⟩, by simp [Move.thread, hnone]⟩

omit [BEq α] in
theorem note_thread {e : Mark α} (he : e ∈ note vs c c' m) : e.thread = m.thread := by
  have did {ws : List (Work α)} {t : ThreadId} (he : e ∈ ws.map (.did t)) : e.thread = t := by
    obtain ⟨w, -, rfl⟩ := List.mem_map.mp he
    rfl
  cases m with
  | start t r =>
    rw [List.mem_singleton.mp he]
    rfl
  | collect t =>
    obtain ⟨a, -, rfl⟩ := Option.map_eq_some_iff.mp (Option.mem_toList.mp he)
    rfl
  | _ => exact did he

theorem trace_other {u : ThreadId} {es : List (Mark α)} (st : Option (Request × List (Work α)))
    (h : ∀ e ∈ es, e.thread ≠ u) : Trace (Advances u) st es st := by
  induction es with
  | nil => rfl
  | cons e es ih => exact ⟨st, .other st (h e List.mem_cons_self), ih fun e' he' => h e' (List.mem_cons_of_mem _ he')⟩

theorem Change.current?_other (hs : c.Sound) (hc : c.Change m c') {u : ThreadId} (hu : m.thread ≠ u) :
    c'.calls.current? u = c.calls.current? u := by
  cases hc with
  | starts t r ht hr => exact if_neg hu
  | writes v ht => rfl
  | @collects t a ht =>
    exact (hs.single.current?_finish t u).trans (if_neg hu)
  | _ => exact (Calls.current?_move _ _ _ _).trans (if_neg hu)

theorem Change.course (hs : c.Sound) (hc : c.Change m c') (ha : c.Agrees vs) {u : ThreadId}
    {st : Option (Request × List (Work α))} (hst : Option.Rel Fits (c.calls.current? u) st) :
    ∃ st', Trace (Advances u) st (note vs c c' m) st' ∧ Option.Rel Fits (c'.calls.current? u) st' := by
  by_cases hu : m.thread = u
  · subst hu
    exact hc.advances hs ha hst
  · refine ⟨st, trace_other st fun e he => ?_, by rwa [hc.current?_other hs hu]⟩
    rw [note_thread he]
    exact hu

end

end Interlock.Cells
