import Interlock.Proofs.History
import Interlock.Proofs.Queue.Wakeups

/-!
# The queue is first in, first out, under any interleaving

A `Record` keeps a history beside the queue. A call is taken down as served when the mutex comes into the
hands of its thread and the call has its answer; one that falls asleep instead has not been served. So the
calls stand in the history in the order in which they had the mutex.
-/

namespace Interlock.Queue

variable {α : Type}

/-! ## The record -/

structure Record (α : Type) where
  state : Queue α
  history : List (Event (Request α) (Answer α)) := []

/-- What a thread that has just taken the mutex was served, if it was not put to sleep. -/
def served (t : ThreadId) : Option (Phase α) → Option (Phase α) → List (Event (Request α) (Answer α))
  | some (.entering r), some (.leaving a) => [.served t r a]
  | some (.woken r), some (.leaving a) => [.served t r a]
  | _, _ => []

/-- What is taken down of a move that leads from one state to another. -/
def note (q q' : Queue α) : Move α → List (Event (Request α) (Answer α))
  | .start t r => [.called t r]
  | .step t _ => if q.mutex.holder = none ∧ q'.mutex.holder = some t then
      served t (q.calls.current? t) (q'.calls.current? t) else []
  | .wake _ => []
  | .collect t => ((q.answer? t).map (.returned t)).toList

namespace Record

def next? (r : Record α) (m : Move α) : Option (Record α) :=
  (r.state.move? m).map fun q => ⟨q, r.history ++ note r.state q m⟩

def Reachable (init : List α) (r : Record α) : Prop := Leads next? { state := ofList init } r

end Record

theorem Record.Reachable.state {init : List α} {r : Record α} (hr : r.Reachable init) :
    Queue.Reachable init r.state := by
  refine Leads.map Record.state (fun r m r' hn => ?_) hr
  obtain ⟨q, hm, rfl⟩ := Option.map_eq_some_iff.mp hn
  exact hm

theorem Reachable.recorded {init : List α} {q : Queue α} (hr : Reachable init q) :
    ∃ r : Record α, r.Reachable init ∧ r.state = q :=
  Leads.lift Record.state (fun r m q hm => ⟨_, by rw [Record.next?, hm]; rfl, rfl⟩) hr

/-! ## What a move takes down -/

section
variable {q q' : Queue α} {t : ThreadId} {r : Request α} {a : Answer α} {env : Environment}

theorem note_answers (hw : q.Wants t r) (hfree : q.mutex.holder = none) (hheld : q'.mutex.holder = some t)
    (ha : q'.calls.current? t = some (.leaving a)) : note q q' (.step t env) = [.served t r a] := by
  rw [note, if_pos ⟨hfree, hheld⟩, ha]
  rcases hw with hw | hw
  · rw [hw]
    rfl
  · rw [hw]
    rfl

theorem note_frees (hfree : q'.mutex.holder = none) : note q q' (.step t env) = [] := by
  rw [note, if_neg]
  rintro ⟨-, hheld⟩
  rw [hfree] at hheld
  cases hheld

theorem note_collects (ht : q.calls.current? t = some (.returned a)) :
    note q q' (.collect t) = [.returned t a] := by
  simp [note, answer?, ht]

end

theorem length_note_le (q q' : Queue α) (m : Move α) : (note q q' m).length ≤ 1 := by
  have hserved (t : ThreadId) (p p' : Option (Phase α)) : (served t p p').length ≤ 1 := by
    unfold served
    split <;> simp
  cases m with
  | start t r => exact Nat.le_refl 1
  | step t env =>
    rw [note]
    split
    · exact hserved t _ _
    · exact Nat.zero_le 1
  | wake t => exact Nat.zero_le 1
  | collect t => exact Option.length_toList_le

theorem notify_keeps (q : Queue α) (pick : Nat) :
    (q.notify pick).items = q.items ∧ (q.notify pick).mutex = q.mutex := by
  unfold notify
  split
  case h_1 => exact ⟨rfl, rfl⟩
  case h_2 u hu =>
    unfold wake?
    split <;> exact ⟨rfl, rfl⟩

theorem note_announces {q : Queue α} {t : ThreadId} {v : α} {pick : Nat} {env : Environment}
    (hw : q.Wants t (.push v)) (hfree : q.mutex.holder = none) :
    note q ((({ q with items := q.items ++ [v] }.seize t).notify pick).into t (.leaving .done)) (.step t env) =
      [.served t (.push v) .done] := by
  refine note_answers hw hfree ?_ (by simp)
  rw [mutex_into, (notify_keeps _ _).2]
  rfl

theorem note_serves {q : Queue α} {t : ThreadId} {r : Request α} {a : Answer α} {items : List α}
    {env : Environment} (hw : q.Wants t r) (hfree : q.mutex.holder = none) :
    note q (({ q with items }.seize t).into t (.leaving a)) (.step t env) = [.served t r a] :=
  note_answers hw hfree rfl (by simp)

/-- The history grows by at most one event, which is the truth about the elements. -/
theorem Change.serial {q q' : Queue α} {m : Move α} (hc : q.Change m q') :
    Serial Serves q.items (note q q' m) q'.items := by
  cases hc with
  | starts t r ht => exact ⟨_, .called _ t r, rfl⟩
  | @acts t r q' env hw hfree hturn =>
    cases hturn with
    | announces v pick =>
      rw [note_announces hw hfree]
      have hitems := (notify_keeps ({ q with items := q.items ++ [v] }.seize t) pick).1
      exact ⟨_, .served t (.push q.items v), hitems.symm⟩
    | serves hv hsub =>
      rw [note_serves hw hfree]
      exact ⟨_, .served t hv, rfl⟩
    | sleeps hr hempty =>
      rw [note_frees rfl]
      rfl
  | leaves env ht =>
    rw [note_frees rfl]
    rfl
  | wakes ht => rfl
  | collects ht =>
    rw [note_collects ht]
    exact ⟨_, .returned _ _ _, rfl⟩

/-! ## The calls of one thread -/

inductive Fits : Phase α → Stage (Request α) (Answer α) → Prop
  | entering (r : Request α) : Fits (.entering r) (.asked r)
  | asleep (r : Request α) : Fits (.asleep r) (.asked r)
  | woken (r : Request α) : Fits (.woken r) (.asked r)
  | leaving (r : Request α) (a : Answer α) : Fits (.leaving a) (.answered r a)
  | returned (r : Request α) (a : Answer α) : Fits (.returned a) (.answered r a)

def AreAt (q : Queue α) (t : ThreadId) (st : List (Stage (Request α) (Answer α))) : Prop :=
  List.Forall₂ Fits (q.calls.of t) st

theorem AreAt.answers {q : Queue α} {t u : ThreadId} {r : Request α} {a : Answer α}
    {st : List (Stage (Request α) (Answer α))} (hst : q.AreAt u st) (hw : q.Wants t r) :
    ∃ st', Course u st [.served t r a] st' ∧ (q.into t (.leaving a)).AreAt u st' := by
  rcases hw with hw | hw
  · exact Calls.AreAt.answers hst hw (fun s hs => by cases hs; rfl) (.leaving r a)
  · exact Calls.AreAt.answers hst hw (fun s hs => by cases hs; rfl) (.leaving r a)

theorem Change.areAt {q q' : Queue α} {m : Move α} (hs : q.calls.Single) (hc : q.Change m q') {u : ThreadId}
    {st : List (Stage (Request α) (Answer α))} (hst : q.AreAt u st) :
    ∃ st', Course u st (note q q' m) st' ∧ q'.AreAt u st' := by
  cases hc with
  | starts t r ht => exact Calls.AreAt.starts hst t (.entering r)
  | @acts t r q' env hw hfree hturn =>
    cases hturn with
    | announces v pick =>
      rw [note_announces hw hfree]
      rcases notify_cases (q := { q with items := q.items ++ [v] }.seize t) hs pick with
        ⟨-, heq⟩ | ⟨w, r, hw', heq⟩
      · rw [heq]
        exact hst.answers hw
      · -- the notice moves a call of another thread, which has been asked as before
        replace hw' : q.calls.current? w = some (.asleep r) := hw'
        have hne : w ≠ t := by
          rintro rfl
          rcases hw with hw | hw <;> rw [hw'] at hw <;> cases hw
        have hst' : (q.into w (.woken r)).AreAt u st :=
          Calls.AreAt.keeps hst hw' fun s hs => by cases hs; exact .woken r
        have hwants : (q.into w (.woken r)).Wants t (.push v) := by simpa [Wants, hne] using hw
        rw [heq]
        exact hst'.answers hwants
    | serves hv hsub =>
      rw [note_serves hw hfree]
      exact hst.answers hw
    | sleeps hr hempty =>
      rw [note_frees rfl]
      refine ⟨st, rfl, ?_⟩
      rcases hw with hw | hw
      · exact Calls.AreAt.keeps hst hw fun s hs => by cases hs; exact .asleep r
      · exact Calls.AreAt.keeps hst hw fun s hs => by cases hs; exact .asleep r
  | @leaves t a env ht =>
    rw [note_frees rfl]
    exact ⟨st, rfl, Calls.AreAt.keeps hst ht fun s hs => by cases hs; exact .returned _ a⟩
  | wakes ht => exact ⟨st, rfl, Calls.AreAt.keeps hst ht fun s hs => by cases hs; exact .woken _⟩
  | collects ht =>
    rw [note_collects ht]
    exact Calls.AreAt.collects hst ht fun s hs => by cases hs; exact ⟨_, rfl⟩

def pushed (es : List (Event (Request α) (Answer α))) : List α :=
  es.flatMap fun
    | .served _ (.push v) .done => [v]
    | _ => []

def removed (es : List (Event (Request α) (Answer α))) : List α :=
  es.flatMap fun
    | .served _ _ (.popped (some v)) => [v]
    | .served _ _ (.moved true v) => [v]
    | .served _ _ (.value v) => [v]
    | .served _ .take (.contents items) => items
    | _ => []

theorem Serves.conserves {items items' : List α} {r : Request α} {a : Answer α} (h : Serves items r a items')
    (t : ThreadId) : items ++ pushed [.served t r a] = removed [.served t r a] ++ items' := by
  cases h <;> simp [pushed, removed]

theorem serial_conserves {items items' : List α} {es : List (Event (Request α) (Answer α))}
    (h : Serial Serves items es items') : items ++ pushed es = removed es ++ items' := by
  induction es generalizing items with
  | nil => cases h; simp [pushed, removed]
  | cons e es ih =>
    obtain ⟨items₁, he, h⟩ := h
    have hpushed : pushed (e :: es) = pushed [e] ++ pushed es := by simp [pushed]
    have hremoved : removed (e :: es) = removed [e] ++ removed es := by simp [removed]
    have hone : items ++ pushed [e] = removed [e] ++ items₁ := by
      cases he with
      | called => simp [pushed, removed]
      | served t hv => exact hv.conserves t
      | returned => simp [pushed, removed]
    calc items ++ pushed (e :: es) = removed [e] ++ (items₁ ++ pushed es) := by
          rw [hpushed, ← List.append_assoc, hone, List.append_assoc]
      _ = removed (e :: es) ++ items' := by rw [ih h, hremoved, List.append_assoc]

/-! ## Linearizability -/

theorem mem_note {q q' : Queue α} {m : Move α} {t : ThreadId} {r : Request α} {a : Answer α}
    (h : .served t r a ∈ note q q' m) : q.mutex.holder = none ∧ q'.mutex.holder = some t := by
  cases m with
  | start u r' => simp [note] at h
  | wake u => simp [note] at h
  | collect u => simp [note] at h
  | step u env =>
    by_cases hm : q.mutex.holder = none ∧ q'.mutex.holder = some u
    · rw [note, if_pos hm] at h
      have hu : t = u := by
        unfold served at h
        split at h <;> simp_all
      exact hu ▸ hm
    · rw [note, if_neg hm] at h
      cases h

section
variable {init : List α} {r : Record α} (hr : r.Reachable init)
include hr

theorem Record.Reachable.serial : Serial Serves init r.history r.state.items := by
  induction hr with
  | refl => rfl
  | tail m _ hn ih =>
    obtain ⟨q, hm, rfl⟩ := Option.map_eq_some_iff.mp hn
    exact serial_append.mpr ⟨_, ih, (move_change hm).serial⟩

theorem Record.Reachable.course (t : ThreadId) : ∃ st, Course t [] r.history st ∧ r.state.AreAt t st := by
  induction hr with
  | refl => exact ⟨[], rfl, .nil⟩
  | tail m hr hn ih =>
    obtain ⟨q, hm, rfl⟩ := Option.map_eq_some_iff.mp hn
    obtain ⟨st, hcourse, hst⟩ := ih
    have hs := (Record.Reachable.state hr).sound
    obtain ⟨st', hcourse', hst'⟩ := (move_change hm).areAt hs.single hst
    exact ⟨st', course_append.mpr ⟨st, hcourse, hcourse'⟩, hst'⟩

/-- **The queue is a linearizable queue, first in, first out.** Whatever the interleaving: serving the calls
one after another, in the order in which they had the mutex, leads from the first elements to the present ones
and gives every answer; each call is served once, between being made and returning, with the answer that
it returns; no element is lost or comes out twice or out of turn; and a move serves at most one call, from
the elements that are in the queue at that moment, with the mutex in the hands of its thread. -/
theorem linearizable_fifo :
    Serial Serves init r.history r.state.items ∧
    (∀ t, ∃ st, Course t [] r.history st ∧ r.state.AreAt t st) ∧
    init ++ pushed r.history = removed r.history ++ r.state.items ∧
    (∀ es t req a es', r.history = es ++ .served t req a :: es' →
      ∃ items items', init ++ pushed es = removed es ++ items ∧ Serves items req a items') ∧
    ∀ m r', r.next? m = some r' → ∃ es, r'.history = r.history ++ es ∧ es.length ≤ 1 ∧
      Serial Serves r.state.items es r'.state.items ∧
      ∀ t req a, .served t req a ∈ es → r.state.mutex.holder = none ∧ r'.state.mutex.holder = some t := by
  have hserial := hr.serial
  refine ⟨hserial, hr.course, serial_conserves hserial, ?_, ?_⟩
  · intro es t req a es' he
    rw [he] at hserial
    obtain ⟨items, items', hbefore, hv⟩ := hserial.served
    exact ⟨items, items', serial_conserves hbefore, hv⟩
  · intro m r' hn
    obtain ⟨q, hm, rfl⟩ := Option.map_eq_some_iff.mp hn
    exact ⟨_, rfl, length_note_le r.state q m, (move_change hm).serial, fun t req a h => mem_note h⟩

end

/-- A consumer takes the first element, another call moves the rest away, and the consumer falls asleep until
a push serves it. -/
def sleptAndServed : List (Move Nat) :=
  [.start 1 .waitPop, .step 1 default, .step 1 default, .collect 1, .start 2 .take, .start 1 .waitPop,
    .step 2 default, .step 2 default, .step 1 default, .start 3 (.push 5), .step 3 default, .step 3 default,
    .step 1 default]

theorem linearizable_fifo_slept_and_served : ∃ r : Record Nat, r.Reachable [1, 2] ∧
    pushed r.history = [5] ∧ removed r.history = [1, 2, 5] ∧ r.state.items = [] ∧
    Serial Serves [1, 2] r.history [] ∧ [1, 2] ++ pushed r.history = removed r.history ++ r.state.items := by
  obtain ⟨r, hrun, hpushed, hremoved, hitems⟩ :
      ∃ r, run? Record.next? { state := ofList [1, 2] } sleptAndServed = some r ∧ pushed r.history = [5] ∧
        removed r.history = [1, 2, 5] ∧ r.state.items = [] := ⟨_, rfl, rfl, rfl, rfl⟩
  have hr : r.Reachable [1, 2] := Leads.refl.run _ hrun
  obtain ⟨hserial, -, hconserved, -⟩ := linearizable_fifo hr
  exact ⟨r, hr, hpushed, hremoved, hitems, hitems ▸ hserial, hconserved⟩

end Interlock.Queue
