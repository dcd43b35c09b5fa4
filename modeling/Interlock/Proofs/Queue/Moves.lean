import Interlock.Proofs.Calls
import Interlock.Proofs.Runs
import Interlock.Queue

/-!
# Runs on the queue

A run interleaves the calls of any number of threads, in any order, and may wake a sleeper for no reason at
any time. All that a call does to the elements it does in one step, the one in which it takes the mutex: it
answers from the elements that it finds there, or falls asleep.
-/

namespace Interlock.Queue

variable {α : Type}

/-! ## One call on a list of elements -/

/-- The call gives this answer when the first list is what it finds, and leaves the second. -/
inductive Serves : List α → Request α → Answer α → List α → Prop where
  | push (items : List α) (v : α) : Serves items (.push v) .done (items ++ [v])
  | pushRefused (items : List α) (v : α) (f : StorageFault) : Serves items (.push v) (.exhausted f) items
  | tryPop (v : α) (rest : List α) : Serves (v :: rest) .tryPop (.popped (some v)) rest
  | tryPopEmpty : Serves [] .tryPop (.popped none) []
  | tryPopInto (out v : α) (rest : List α) : Serves (v :: rest) (.tryPopInto out) (.moved true v) rest
  | tryPopIntoEmpty (out : α) : Serves [] (.tryPopInto out) (.moved false out) []
  | waitPop (v : α) (rest : List α) : Serves (v :: rest) .waitPop (.value v) rest
  | waitPopInto (out v : α) (rest : List α) : Serves (v :: rest) (.waitPopInto out) (.value v) rest
  | len (items : List α) : Serves items .len (.count items.length) items
  | isEmpty (items : List α) : Serves items .isEmpty (.flag items.isEmpty) items
  | clone (items : List α) : Serves items .clone (.contents items) items
  | take (items : List α) : Serves items .take (.contents items) []
  | reserve (items : List α) (n : Nat) : Serves items (.reserve n) .done items
  | reserveRefused (items : List α) (n : Nat) (f : StorageFault) :
      Serves items (.reserve n) (.exhausted f) items

def Request.waits : Request α → Bool
  | .waitPop => true
  | .waitPopInto _ => true
  | _ => false

theorem Serves.length_of_waits {items items' : List α} {r : Request α} {a : Answer α}
    (h : Serves items r a items') (hr : r.waits) : items'.length + 1 = items.length := by
  cases h with
  | waitPop v rest => rfl
  | waitPopInto out v rest => rfl
  | _ => cases hr

/-! ## Moves -/

inductive Move (α : Type) where
  | start (t : ThreadId) (r : Request α)
  | step (t : ThreadId) (env : Environment)
  /-- A sleeper wakes for no reason. -/
  | wake (t : ThreadId)
  | collect (t : ThreadId)

def Move.thread : Move α → ThreadId
  | .start t _ => t
  | .step t _ => t
  | .wake t => t
  | .collect t => t

def move? (q : Queue α) : Move α → Option (Queue α)
  | .start t r => q.start? t r
  | .step t env => q.step? env t
  | .wake t => q.wake? t
  | .collect t => (q.answer? t).map fun _ => q.collect t

def Reachable (init : List α) (q : Queue α) : Prop := Leads move? (ofList init) q

/-! ## What a move does -/

section
variable (q : Queue α) (t u : ThreadId) (p : Phase α)

@[simp] theorem items_into : (q.into t p).items = q.items := rfl

@[simp] theorem mutex_into : (q.into t p).mutex = q.mutex := rfl

@[simp] theorem calls_into : (q.into t p).calls = q.calls.move t p := rfl

end

theorem mem_sleepers {q : Queue α} {t : ThreadId} : t ∈ q.sleepers ↔ ∃ r, Phase.asleep r ∈ q.calls.of t := by
  simp only [sleepers, List.mem_reverse, List.mem_filterMap, Calls.mem_of]
  constructor
  · intro ⟨⟨u, p⟩, he, h⟩
    cases p with
    | asleep r =>
      cases h
      exact ⟨r, he⟩
    | _ => cases h
  · intro ⟨r, h⟩
    exact ⟨_, h, rfl⟩

/-- A notice wakes exactly one sleeper, if there is one. -/
theorem notify_cases {q : Queue α} (hq : q.calls.Single) (pick : Nat) :
    ((∀ t r, q.calls.current? t ≠ some (.asleep r)) ∧ q.notify pick = q) ∨
    ∃ t r, q.calls.current? t = some (.asleep r) ∧ q.notify pick = q.into t (.woken r) := by
  unfold notify
  cases h : q.sleepers[pick % q.sleepers.length]? with
  | none =>
    refine .inl ⟨fun t r ht => ?_, rfl⟩
    have hpos : 0 < q.sleepers.length := List.length_pos_of_mem (mem_sleepers.mpr ⟨r, hq.mem_of.mpr ht⟩)
    have hlt := Nat.mod_lt pick hpos
    rw [List.getElem?_eq_none_iff] at h
    omega
  | some t =>
    obtain ⟨r, hr⟩ := mem_sleepers.mp (List.mem_of_getElem? h)
    have ht := hq.mem_of.mp hr
    refine .inr ⟨t, r, ht, ?_⟩
    simp only [wake?, ht, Option.getD_some]
    rfl

def seize (q : Queue α) (t : ThreadId) : Queue α := { q with mutex := { q.mutex with holder := some t } }

/-- What a call does when its thread takes the mutex. -/
inductive Turn (t : ThreadId) (q : Queue α) : Request α → Queue α → Prop
  | announces (v : α) (pick : Nat) :
      Turn t q (.push v) ((({ q with items := q.items ++ [v] }.seize t).notify pick).into t (.leaving .done))
  | serves {r : Request α} {a : Answer α} {items : List α} : Serves q.items r a items → items <:+ q.items →
      Turn t q r (({ q with items }.seize t).into t (.leaving a))
  | sleeps {r : Request α} : r.waits → q.items = [] →
      Turn t q r ({ q with mutex := q.mutex.release false }.into t (.asleep r))

theorem act_turn (env : Environment) (t : ThreadId) (q : Queue α) (r : Request α) :
    Turn t q r (act env t (q.seize t) r) := by
  obtain ⟨items, m, c⟩ := q
  cases r with
  | push v =>
    unfold act seize
    dsimp only
    cases env.array items.length 1 with
    | ok => exact .announces v env.pick
    | error f => exact .serves (.pushRefused items v f) (List.suffix_refl _)
  | tryPop =>
    cases items with
    | nil => exact .serves .tryPopEmpty (List.suffix_refl _)
    | cons v rest => exact .serves (.tryPop v rest) (List.suffix_cons v rest)
  | tryPopInto out =>
    cases items with
    | nil => exact .serves (.tryPopIntoEmpty out) (List.suffix_refl _)
    | cons v rest => exact .serves (.tryPopInto out v rest) (List.suffix_cons v rest)
  | waitPop =>
    cases items with
    | nil => exact .sleeps rfl rfl
    | cons v rest => exact .serves (.waitPop v rest) (List.suffix_cons v rest)
  | waitPopInto out =>
    cases items with
    | nil => exact .sleeps rfl rfl
    | cons v rest => exact .serves (.waitPopInto out v rest) (List.suffix_cons v rest)
  | len => exact .serves (.len items) (List.suffix_refl _)
  | isEmpty => exact .serves (.isEmpty items) (List.suffix_refl _)
  | clone => exact .serves (.clone items) (List.suffix_refl _)
  | take => exact .serves (.take items) List.nil_suffix
  | reserve n =>
    unfold act seize
    dsimp only
    cases env.array items.length n with
    | ok => exact .serves (.reserve items n) (List.suffix_refl _)
    | error f => exact .serves (.reserveRefused items n f) (List.suffix_refl _)

/-- The thread wants the mutex for this call, for the first time or again. -/
def Wants (q : Queue α) (t : ThreadId) (r : Request α) : Prop :=
  q.calls.current? t = some (.entering r) ∨ q.calls.current? t = some (.woken r)

inductive Change (q : Queue α) : Move α → Queue α → Prop
  | starts (t : ThreadId) (r : Request α) : q.calls.current? t = none →
      Change q (.start t r) { q with calls := q.calls.start t (.entering r) }
  | acts {t : ThreadId} {r : Request α} {q' : Queue α} (env : Environment) : q.Wants t r →
      q.mutex.holder = none → Turn t q r q' → Change q (.step t env) q'
  | leaves {t : ThreadId} {a : Answer α} (env : Environment) : q.calls.current? t = some (.leaving a) →
      Change q (.step t env) ({ q with mutex := q.mutex.release false }.into t (.returned a))
  | wakes {t : ThreadId} {r : Request α} : q.calls.current? t = some (.asleep r) →
      Change q (.wake t) (q.into t (.woken r))
  | collects {t : ThreadId} {a : Answer α} : q.calls.current? t = some (.returned a) →
      Change q (.collect t) (q.collect t)

theorem step_change {q q' : Queue α} {t : ThreadId} {env : Environment} (h : q.step? env t = some q') :
    Change q (.step t env) q' := by
  have acts {r : Request α} (hw : q.Wants t r)
      (h : ((q.mutex.acquire? t).map fun m => act env t { q with mutex := m } r) = some q') :
      Change q (.step t env) q' := by
    obtain ⟨m, hm, rfl⟩ := Option.map_eq_some_iff.mp h
    obtain ⟨hfree, rfl⟩ := Mutex.acquire?_eq_some hm
    exact .acts env hw hfree (act_turn env t q r)
  cases hp : q.calls.current? t with
  | none => simp [step?, hp] at h
  | some p =>
    simp only [step?, hp] at h
    cases p with
    | entering r => exact acts (.inl hp) h
    | woken r => exact acts (.inr hp) h
    | leaving a =>
      cases h
      exact .leaves env hp
    | asleep r => cases h
    | returned a => cases h

theorem move_change {q q' : Queue α} {m : Move α} (h : q.move? m = some q') : Change q m q' := by
  cases m with
  | start t r =>
    unfold move? start? at h
    cases hp : q.calls.current? t with
    | none =>
      simp only [hp] at h
      cases h
      exact .starts t r hp
    | some p => simp [hp] at h
  | step t env => exact step_change h
  | wake t =>
    change q.wake? t = some q' at h
    unfold wake? at h
    split at h
    case h_1 r hp =>
      cases h
      exact .wakes hp
    case h_2 => cases h
  | collect t =>
    obtain ⟨a, ha, rfl⟩ := Option.map_eq_some_iff.mp h
    unfold answer? at ha
    split at ha
    case h_1 a' hp => exact .collects hp
    case h_2 => cases ha

end Interlock.Queue
