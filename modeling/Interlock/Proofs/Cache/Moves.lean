import Mathlib.Logic.Function.Basic
import Interlock.Cache
import Interlock.Proofs.Calls
import Interlock.Proofs.Runs
import Interlock.Proofs.Tables

/-!
# Runs on the shared cache

A run interleaves the calls of any number of threads in any order; a callback goes on for as long as it
likes, may make calls of its own on the cache, and ends by returning or by panicking. `Turn` lists what one
step of a call does, phase by phase, and `Change` what a move does. `Serves` says what each call answers and
leaves behind on a map; the table is seen here only as the map that it is.
-/

namespace Interlock.Cache

/-! ## One call on a map -/

/-- The call gives this answer on the first map and leaves the second. The answer of a look with a callback is
what the callback is shown. -/
inductive Serves {κ α : Type} [DecidableEq κ] : (κ → Option α) → Request κ α → Answer α → (κ → Option α) → Prop where
  | read (m : κ → Option α) (key : κ) : Serves m (.look (.read key)) (.found (m key)) m
  | readWith (m : κ → Option α) (key : κ) : Serves m (.look (.readWith key)) (.found (m key)) m
  | len (m : κ → Option α) : Serves m (.look .len) (.count {k | m k ≠ none}.ncard) m
  | isEmpty (m : κ → Option α) (b : Bool) : (b = true ↔ ∀ k, m k = none) →
      Serves m (.look .isEmpty) (.flag b) m
  | write (m : κ → Option α) (key : κ) (v : α) :
      Serves m (.change (.write key v)) (.found (m key)) (Function.update m key (some v))
  /-- Only a key that is not there needs room. -/
  | writeRefused (m : κ → Option α) (key : κ) (v : α) (f : StorageFault) : m key = none →
      Serves m (.change (.write key v)) (.exhausted f) m
  | remove (m : κ → Option α) (key : κ) :
      Serves m (.change (.remove key)) (.found (m key)) (Function.update m key none)
  | reserve (m : κ → Option α) (n : Nat) : Serves m (.change (.reserve n)) .done m
  | reserveRefused (m : κ → Option α) (n : Nat) (f : StorageFault) :
      Serves m (.change (.reserve n)) (.exhausted f) m

variable {κ α : Type}

/-! ## Moves -/

inductive Move (κ α : Type) where
  | start (t : ThreadId) (r : Request κ α)
  | step (t : ThreadId) (env : Environment)
  /-- The callback of the thread's innermost call ends. -/
  | finish (t : ThreadId) (e : Ending)
  | collect (t : ThreadId)

/-! ## What a phase has in hand -/

def Phase.hasGate : Phase κ α → Bool
  | .passing _ => true
  | .gated _ => true
  | .counted _ => true
  | .excluding _ => true
  | .uncounted _ => true
  | _ => false

def Phase.excludes : Phase κ α → Bool
  | .excluding _ => true
  | .uncounted _ => true
  | .changing _ => true
  | .readmitting _ => true
  | _ => false

/-- How many readers of the lock a call in this phase is. -/
def Phase.shares : Phase κ α → Nat
  | .visiting _ => 1
  | .unsharing _ => 1
  | _ => 0

def Phase.isVisiting : Phase κ α → Bool
  | .visiting _ => true
  | _ => false

/-- The call has the gate for this change and waits for exclusive mode, or is about to. -/
def Phase.AwaitsMode (ch : Change κ α) (p : Phase κ α) : Prop := p = .gated ch ∨ p = .counted ch

def Request.opening : Request κ α → Phase κ α
  | .look l => .arriving l
  | .change ch => .queueing ch

/-- What a look with a callback answers. -/
def ending : Ending → Answer α
  | .finished => .visited
  | .panicked message => .panicked message

def seizeGate (c : Cache κ α) (t : ThreadId) : Cache κ α := { c with gate := { c.gate with holder := some t } }

def leaveGate (c : Cache κ α) : Cache κ α := { c with gate := c.gate.release false }

variable [DecidableEq κ]

def move? (c : Cache κ α) : Move κ α → Option (Cache κ α)
  | .start t r => c.start? t r
  | .step t env => c.step? env t
  | .finish t e => c.end? t e
  | .collect t => (c.answer? t).map fun _ => c.collect t

def Reachable (init : Table κ α) (c : Cache κ α) : Prop := Leads move? { entries := init } c

/-- The cache as the map from keys to values that it is. -/
def map (c : Cache κ α) : κ → Option α := c.entries.get?

/-- The phase of a look that has just entered shared mode. -/
def sight (c : Cache κ α) : Look κ → Phase κ α
  | .read key => .unsharing (.found (c.map key))
  | .readWith key => .visiting key
  | .len => .unsharing (.count c.entries.size)
  | .isEmpty => .unsharing (.flag (c.entries.size == 0))

/-! ## What a move does -/

/-- One step of a call: the phase before and after, and what becomes of the rest. -/
inductive Turn (t : ThreadId) (c : Cache κ α) : Phase κ α → Phase κ α → Cache κ α → Prop
  | arrives (l : Look κ) : c.gate.holder = none → Turn t c (.arriving l) (.passing l) (c.seizeGate t)
  | passes (l : Look κ) : Turn t c (.passing l) (.admitted l) c.leaveGate
  | sees (l : Look κ) : c.lock.writer = none →
      Turn t c (.admitted l) (c.sight l) { c with lock := { c.lock with readers := c.lock.readers + 1 } }
  | unshares (a : Answer α) : Turn t c (.unsharing a) (.returned a) { c with lock := c.lock.unshare }
  | queues (ch : Change κ α) : c.gate.holder = none → Turn t c (.queueing ch) (.gated ch) (c.seizeGate t)
  | counts (ch : Change κ α) :
      Turn t c (.gated ch) (.counted ch) { c with queuedWriters := c.queuedWriters + 1 }
  | excludes (ch : Change κ α) : c.lock.writer = none → c.lock.readers = 0 →
      Turn t c (.counted ch) (.excluding ch) { c with lock := { c.lock with writer := some t } }
  | uncounts (ch : Change κ α) :
      Turn t c (.excluding ch) (.uncounted ch) { c with queuedWriters := c.queuedWriters - 1 }
  | ungates (ch : Change κ α) : Turn t c (.uncounted ch) (.changing ch) c.leaveGate
  | changes {ch : Change κ α} {a : Answer α} {entries : Table κ α} :
      Serves c.map (.change ch) a entries.get? →
      Turn t c (.changing ch) (.readmitting a) { c with entries }
  | readmits (a : Answer α) : Turn t c (.readmitting a) (.returned a) { c with lock := c.lock.readmit }

inductive Passage (c : Cache κ α) : Move κ α → Cache κ α → Prop
  | starts {t : ThreadId} (r : Request κ α) : (∀ p, c.calls.current? t = some p → p.isVisiting = true) →
      Passage c (.start t r) { c with calls := c.calls.start t r.opening }
  | turns {t : ThreadId} {p p' : Phase κ α} {c₁ : Cache κ α} (env : Environment) :
      c.calls.current? t = some p → Turn t c p p' c₁ → Passage c (.step t env) (c₁.into t p')
  | ends {t : ThreadId} {key : κ} (e : Ending) : c.calls.current? t = some (.visiting key) →
      Passage c (.finish t e) (c.into t (.unsharing (ending e)))
  | collects {t : ThreadId} {a : Answer α} : c.calls.current? t = some (.returned a) →
      Passage c (.collect t) (c.collect t)

theorem change_turn (env : Environment) (t : ThreadId) (c : Cache κ α) (ch : Change κ α) :
    ∃ p' c₁, Turn t c (.changing ch) p' c₁ ∧ c.change env t ch = c₁.into t p' := by
  cases ch with
  | write key v =>
    have written : Serves c.map (.change (.write key v)) (.found (c.map key)) (c.entries.insert key v).get? := by
      rw [Table.get?_insert_eq_update]
      exact .write c.map key v
    cases hroom : c.room env key with
    | ok => exact ⟨_, _, .changes written, by simp only [change, hroom]; rfl⟩
    | error f =>
      refine ⟨_, _, .changes (.writeRefused c.map key v f ?_), by simp only [change, hroom]⟩
      unfold room Table.contains at hroom
      split at hroom
      · cases hroom
      · rename_i hin
        exact Option.not_isSome_iff_eq_none.mp hin
  | remove key =>
    have removed : Serves c.map (.change (.remove key)) (.found (c.map key)) (c.entries.erase key).get? := by
      rw [Table.get?_erase_eq_update]
      exact .remove c.map key
    exact ⟨_, _, .changes removed, rfl⟩
  | reserve n =>
    cases henv : env.table c.entries.size n with
    | ok => exact ⟨_, _, .changes (.reserve c.map n), by simp only [change, henv]⟩
    | error f => exact ⟨_, _, .changes (.reserveRefused c.map n f), by simp only [change, henv]⟩

theorem step_turn {c c' : Cache κ α} {t : ThreadId} {env : Environment} (h : c.step? env t = some c') :
    ∃ p p' c₁, c.calls.current? t = some p ∧ Turn t c p p' c₁ ∧ c' = c₁.into t p' := by
  unfold step? at h
  split at h
  case h_1 => cases h
  case h_2 l hp =>
    obtain ⟨m, hm, rfl⟩ := Option.map_eq_some_iff.mp h
    obtain ⟨hfree, rfl⟩ := Mutex.acquire?_eq_some hm
    exact ⟨_, _, _, hp, .arrives l hfree, rfl⟩
  case h_3 l hp =>
    cases h
    exact ⟨_, _, _, hp, .passes l, rfl⟩
  case h_4 l hp =>
    obtain ⟨k, hk, rfl⟩ := Option.map_eq_some_iff.mp h
    unfold SharedLock.share? at hk
    split at hk
    · rename_i hw
      cases hk
      refine ⟨_, _, _, hp, .sees l hw, ?_⟩
      cases l <;> rfl
    · cases hk
  case h_5 => cases h
  case h_6 a hp =>
    cases h
    exact ⟨_, _, _, hp, .unshares a, rfl⟩
  case h_7 ch hp =>
    obtain ⟨m, hm, rfl⟩ := Option.map_eq_some_iff.mp h
    obtain ⟨hfree, rfl⟩ := Mutex.acquire?_eq_some hm
    exact ⟨_, _, _, hp, .queues ch hfree, rfl⟩
  case h_8 ch hp =>
    cases h
    exact ⟨_, _, _, hp, .counts ch, rfl⟩
  case h_9 ch hp =>
    obtain ⟨k, hk, rfl⟩ := Option.map_eq_some_iff.mp h
    unfold SharedLock.exclude? at hk
    split at hk
    · rename_i hw
      split at hk
      · rename_i hr
        cases hk
        exact ⟨_, _, _, hp, .excludes ch hw hr, rfl⟩
      · cases hk
    · cases hk
  case h_10 ch hp =>
    cases h
    exact ⟨_, _, _, hp, .uncounts ch, rfl⟩
  case h_11 ch hp =>
    cases h
    exact ⟨_, _, _, hp, .ungates ch, rfl⟩
  case h_12 ch hp =>
    cases h
    obtain ⟨p', c₁, hturn, he⟩ := change_turn env t c ch
    exact ⟨_, p', c₁, hp, hturn, he⟩
  case h_13 a hp =>
    cases h
    exact ⟨_, _, _, hp, .readmits a, rfl⟩
  case h_14 => cases h

theorem move_passage {c c' : Cache κ α} {m : Move κ α} (h : c.move? m = some c') : Passage c m c' := by
  cases m with
  | start t r =>
    unfold move? start? at h
    cases hp : c.calls.current? t with
    | none =>
      simp only [hp] at h
      cases h
      have := Passage.starts (c := c) (t := t) r (by rw [hp]; nofun)
      cases r <;> exact this
    | some p =>
      simp only [hp] at h
      cases p with
      | visiting key =>
        cases h
        have := Passage.starts (c := c) (t := t) r (by rw [hp]; rintro q ⟨⟩; rfl)
        cases r <;> exact this
      | _ => cases h
  | step t env =>
    obtain ⟨p, p', c₁, hp, hturn, rfl⟩ := step_turn h
    exact .turns env hp hturn
  | finish t e =>
    change c.end? t e = some c' at h
    unfold end? at h
    split at h
    · rename_i key hp
      cases h
      cases e with
      | finished => exact .ends .finished hp
      | panicked message => exact .ends (.panicked message) hp
    · cases h
  | collect t =>
    obtain ⟨a, ha, rfl⟩ := Option.map_eq_some_iff.mp h
    unfold answer? at ha
    split at ha
    · rename_i a' hp
      exact .collects hp
    · cases ha

/-! ## Moves of one thread and of others -/

def Move.thread : Move κ α → ThreadId
  | .start t _ => t
  | .step t _ => t
  | .finish t _ => t
  | .collect t => t

theorem Turn.calls {c c₁ : Cache κ α} {t : ThreadId} {p p' : Phase κ α} (h : Turn t c p p' c₁) :
    c₁.calls = c.calls := by
  cases h <;> rfl

theorem Passage.others {c c' : Cache κ α} {m : Move κ α} {t : ThreadId} (h : Passage c m c')
    (ht : m.thread ≠ t) : c'.calls.of t = c.calls.of t := by
  cases h with
  | starts r hfree => exact (Calls.of_start ..).trans (if_neg ht)
  | turns env hp hturn =>
    rw [into, hturn.calls]
    exact (Calls.of_move ..).trans (if_neg ht)
  | ends e hp => exact (Calls.of_move ..).trans (if_neg ht)
  | collects hp => exact (Calls.of_finish ..).trans (if_neg ht)

end Interlock.Cache
