import Interlock.Proofs.Cache.Queued
import Interlock.Proofs.Related

/-!
# A cache without a call that finds no room

A change has the gate, a place among the queued writers and exclusive mode in hand, each for a while and in different
order. The cache `without` the change has none of it, and is the same before and after each step of the change until
that touches the table. It goes on under the calls and callbacks of other threads as it would alone.
-/

namespace Interlock

/-- The lock after it has been let go by a call that may have it in exclusive mode. -/
def SharedLock.letGo (l : SharedLock) (has : Bool) : SharedLock := if has then l.readmit else l

namespace SharedLock

variable {l k : SharedLock} {t : ThreadId}

theorem writer_of_share (h : l.share? = some k) : l.writer = none := by
  unfold share? at h
  split at h
  · assumption
  · cases h

theorem exclude?_eq_some (h : l.exclude? t = some k) : l.writer = none ∧ k = { l with writer := some t } := by
  unfold exclude? at h
  split at h
  · rename_i hfree
    split at h
    · exact ⟨hfree, (Option.some.inj h).symm⟩
    · cases h
  · cases h

theorem letGo_excluded (h : l.exclude? t = some k) : k.letGo true = l := by
  obtain ⟨hfree, rfl⟩ := exclude?_eq_some h
  simp [letGo, readmit, ← hfree]

end SharedLock

namespace Cache

variable {κ α : Type} {only : Bool} {gone : Option ThreadId} {t u : ThreadId} {env : Environment}

def Change.asksRoom (only : Bool) : Change κ α → Bool
  | .write _ _ => !only
  | .reserve _ => true
  | .remove _ => false

def Request.asksRoom (only : Bool) : Request κ α → Bool
  | .change ch => ch.asksRoom only
  | .look _ => false

def Answer.spares (only : Bool) : Answer α → Bool
  | .exhausted _ => true
  | _ => only

/-- The phases of a call that asks for room and has not changed the table so far. -/
def Phase.spares (only : Bool) : Phase κ α → Bool
  | .queueing ch => ch.asksRoom only
  | .gated ch => ch.asksRoom only
  | .counted ch => ch.asksRoom only
  | .excluding ch => ch.asksRoom only
  | .uncounted ch => ch.asksRoom only
  | .changing ch => ch.asksRoom only
  | .readmitting a => a.spares only
  | .returned a => a.spares only
  | _ => false

/-- The phases of a call that has an answer of another kind. -/
def Phase.differs (only : Bool) : Phase κ α → Bool
  | .readmitting a => !a.spares only
  | .returned a => !a.spares only
  | _ => false

def Differs (only : Bool) (c : Cache κ α) (t : ThreadId) : Prop :=
  ∃ p, c.calls.current? t = some p ∧ p.differs only = true

/-- The cache without what a call of the thread in this phase has in hand, and without the call. -/
def without (c : Cache κ α) (t : ThreadId) (p : Phase κ α) : Cache κ α where
  entries := c.entries
  gate := c.gate.letGo p.hasGate
  lock := c.lock.letGo p.excludes
  queuedWriters := c.queuedWriters - if p.isCounted then 1 else 0
  calls := c.calls.finish t

/-- The second cache is the first without the call of the thread, which has changed nothing so far. -/
inductive Without (only : Bool) : Option ThreadId → Cache κ α → Cache κ α → Prop
  | same (c : Cache κ α) : Without only none c c
  | but {t : ThreadId} {p : Phase κ α} {c : Cache κ α} (hp : c.calls.current? t = some p)
      (spared : p.spares only = true) : Without only (some t) c (c.without t p)

section
variable {c c' c₀ : Cache κ α} {p p' : Phase κ α} {r : Request κ α}

section
variable (hgate : p.hasGate = false)
include hgate

theorem isCounted_of_hasGate : p.isCounted = false := by
  by_contra h
  rw [Phase.hasGate_of_isCounted (by simpa using h)] at hgate
  cases hgate

theorem gate_without (c : Cache κ α) (t : ThreadId) : (c.without t p).gate = c.gate := by
  rw [without, hgate]
  rfl

theorem without_gate (c : Cache κ α) (t : ThreadId) (g : Mutex) :
    ({ c with gate := g } : Cache κ α).without t p = { c.without t p with gate := g } := by
  simp only [without, hgate]
  rfl

theorem without_queuedWriters (c : Cache κ α) (t : ThreadId) (n : UInt64) :
    ({ c with queuedWriters := n } : Cache κ α).without t p = { c.without t p with queuedWriters := n } := by
  simp [without, isCounted_of_hasGate hgate]

theorem queuedWriters_without (c : Cache κ α) (t : ThreadId) : (c.without t p).queuedWriters = c.queuedWriters := by
  simp [without, isCounted_of_hasGate hgate]

end

theorem lock_without (hexcludes : p.excludes = false) (c : Cache κ α) (t : ThreadId) :
    (c.without t p).lock = c.lock := by
  rw [without, hexcludes]
  rfl

theorem without_lock (hexcludes : p.excludes = false) (c : Cache κ α) (t : ThreadId) (l : SharedLock) :
    ({ c with lock := l } : Cache κ α).without t p = { c.without t p with lock := l } := by
  simp only [without, hexcludes]
  rfl

theorem without_eq_collect (hgate : p.hasGate = false) (hexcludes : p.excludes = false) : c.without t p = c.collect t := by
  simp [without, hgate, hexcludes, isCounted_of_hasGate hgate, Mutex.letGo, SharedLock.letGo, collect]

/-! ## Other threads -/

theorem into_without (hu : u ≠ t) (c : Cache κ α) (p p' : Phase κ α) :
    (c.into u p').without t p = (c.without t p).into u p' := by
  simp only [into, without, Calls.finish_move hu]

variable [DecidableEq κ]

theorem look_without (hu : u ≠ t) (c : Cache κ α) (p : Phase κ α) (l : Look κ) :
    (c.look u l).without t p = (c.without t p).look u l := by
  cases l <;> exact into_without hu ..

theorem change_without (hu : u ≠ t) (c : Cache κ α) (p : Phase κ α) (env : Environment) (ch : Change κ α) :
    (c.change env u ch).without t p = (c.without t p).change env u ch := by
  cases ch with
  | write key v =>
    have hroom : (c.without t p).room env key = c.room env key := rfl
    simp only [change, hroom]
    split <;> exact into_without hu ..
  | remove key => exact into_without hu ..
  | reserve n =>
    have hsize : (c.without t p).entries.size = c.entries.size := rfl
    simp only [change, hsize]
    split <;> exact into_without hu ..

/-- No two calls have the same thing in hand, so what another call does with its own goes on without this one. -/
theorem step?_without (hu : u ≠ t) (hs : c.Sound) (hp : c.calls.current? t = some p) (h : c.step? env u = some c') :
    (c.without t p).step? env u = some (c'.without t p) := by
  have hcurrent : (c.without t p).calls.current? u = c.calls.current? u := Calls.current?_finish_of_ne hu c.calls
  have gate_taken (hfree : c.gate.holder = none) : p.hasGate = false := (hfree ▸ hs.gate).of_free hp
  have writer_taken (hfree : c.lock.writer = none) : p.excludes = false := (hfree ▸ hs.writer).of_free hp
  have takes_gate {g : Mutex} (hg : c.gate.acquire? u = some g) (p' : Phase κ α) :
      ((c.without t p).gate.acquire? u).map (fun g => { c.without t p with gate := g }.into u p') =
        some (({ c with gate := g }.into u p').without t p) := by
    have hgate := gate_taken (Mutex.acquire?_eq_some hg).1
    rw [into_without hu, without_gate hgate c t g, gate_without hgate, hg]
    rfl
  unfold step? at h ⊢
  rw [hcurrent]
  cases hq : c.calls.current? u with
  | none => rw [hq] at h; cases h
  | some q =>
    rw [hq] at h
    cases q with
    | arriving l =>
      obtain ⟨g, hg, rfl⟩ := Option.map_eq_some_iff.mp h
      exact takes_gate hg _
    | passing l =>
      cases h
      have hgate := hs.gate.of_ne hu hq rfl hp
      rw [into_without hu, without_gate hgate c t (c.gate.release false), ← gate_without hgate c t]
    | admitted l =>
      obtain ⟨k, hk, rfl⟩ := Option.map_eq_some_iff.mp h
      have hexcludes := writer_taken (SharedLock.writer_of_share hk)
      rw [look_without hu, without_lock hexcludes c t k]
      show (c.without t p).lock.share?.map _ = _
      rw [lock_without hexcludes, hk]
      rfl
    | visiting key => cases h
    | unsharing a =>
      cases h
      have hunshare (b : Bool) : c.lock.unshare.letGo b = (c.lock.letGo b).unshare := by cases b <;> rfl
      have hlock : ({ c with lock := c.lock.unshare } : Cache κ α).without t p =
          { c.without t p with lock := (c.lock.letGo p.excludes).unshare } := by
        rw [← hunshare]
        rfl
      rw [into_without hu, hlock]
      rfl
    | queueing ch =>
      obtain ⟨g, hg, rfl⟩ := Option.map_eq_some_iff.mp h
      exact takes_gate hg _
    | gated ch =>
      cases h
      have hgate := hs.gate.of_ne hu hq rfl hp
      rw [into_without hu, without_queuedWriters hgate c t (c.queuedWriters + 1), ← queuedWriters_without hgate c t]
    | counted ch =>
      obtain ⟨k, hk, rfl⟩ := Option.map_eq_some_iff.mp h
      have hexcludes := writer_taken (SharedLock.exclude?_eq_some hk).1
      rw [into_without hu, without_lock hexcludes c t k]
      show ((c.without t p).lock.exclude? u).map _ = _
      rw [lock_without hexcludes, hk]
      rfl
    | excluding ch =>
      cases h
      have hgate := hs.gate.of_ne hu hq rfl hp
      rw [into_without hu, without_queuedWriters hgate c t (c.queuedWriters - 1), ← queuedWriters_without hgate c t]
    | uncounted ch =>
      cases h
      have hgate := hs.gate.of_ne hu hq rfl hp
      rw [into_without hu, without_gate hgate c t (c.gate.release false), ← gate_without hgate c t]
    | changing ch =>
      cases h
      rw [change_without hu]
    | readmitting a =>
      cases h
      have hexcludes := hs.writer.of_ne hu hq rfl hp
      rw [into_without hu, without_lock hexcludes c t c.lock.readmit, ← lock_without hexcludes c t]
    | returned a => cases h

theorem current?_others {m : Move κ α} (h : Passage c m c') (hne : m.thread ≠ t) :
    c'.calls.current? t = c.calls.current? t := by
  rw [← Calls.head?_of, h.others hne, Calls.head?_of]

namespace Without

omit [DecidableEq κ] in
/-- A call of another thread is made, goes on or comes to its end. -/
theorem inCalls (hr : Without only gone c c₀) (hu : gone ≠ some u) {f : Calls (Phase κ α) → Calls (Phase κ α)}
    (hf : Calls.Within u f) : Without only gone { c with calls := f c.calls } { c₀ with calls := f c₀.calls } := by
  cases hr with
  | same => exact .same _
  | @but t p _ hp spared =>
    have hne : u ≠ t := fun he => hu (he ▸ rfl)
    have kept : Without only (some t) { c with calls := f c.calls } _ := .but ((hf.others hne c.calls).trans hp) spared
    rwa [without, hf.commutes hne] at kept

theorem step? (hr : Without only gone c c₀) (hs : c.Sound) (hu : gone ≠ some u) (env : Environment) :
    Follows (Without only gone) (c.step? env u) (c₀.step? env u) := by
  cases hr with
  | same => exact follows_refl .same _
  | @but t p _ hp spared =>
    have hne : u ≠ t := fun he => hu (he ▸ rfl)
    intro c' hc'
    have hp' := (current?_others (move_passage (m := .step u env) hc') hne).trans hp
    exact ⟨c'.without t p, step?_without hne hs hp hc', .but hp' spared⟩

omit [DecidableEq κ] in
theorem current? (hr : Without only gone c c₀) (hu : gone ≠ some u) : c₀.calls.current? u = c.calls.current? u := by
  cases hr with
  | same => rfl
  | @but t p _ hp spared =>
    have hne : u ≠ t := fun he => hu (he ▸ rfl)
    exact Calls.current?_finish_of_ne hne c.calls

omit [DecidableEq κ] in
theorem entries (hr : Without only gone c c₀) : c₀.entries = c.entries := by
  cases hr <;> rfl

omit [DecidableEq κ] in
theorem into (hr : Without only gone c c₀) (hu : gone ≠ some u) (q : Phase κ α) :
    Without only gone (c.into u q) (c₀.into u q) := hr.inCalls hu (.move u q)

omit [DecidableEq κ] in
theorem start? (hr : Without only gone c c₀) (hu : gone ≠ some u) (r : Request κ α) :
    Follows (Without only gone) (c.start? u r) (c₀.start? u r) := by
  unfold Cache.start?
  rw [hr.current? hu]
  dsimp only
  split
  · exact follows_some (hr.inCalls hu (.start u _))
  · exact follows_some (hr.inCalls hu (.start u _))
  · exact follows_none _

omit [DecidableEq κ] in
theorem end? (hr : Without only gone c c₀) (hu : gone ≠ some u) (e : Ending) :
    Follows (Without only gone) (c.end? u e) (c₀.end? u e) := by
  unfold Cache.end?
  rw [hr.current? hu]
  split
  · exact follows_some (hr.into hu _)
  · exact follows_none _

omit [DecidableEq κ] in
theorem collect (hr : Without only gone c c₀) (hu : gone ≠ some u) :
    Without only gone (c.collect u) (c₀.collect u) := hr.inCalls hu (.finish u)

omit [DecidableEq κ] in
theorem answer? (hr : Without only gone c c₀) (hu : gone ≠ some u) : c₀.answer? u = c.answer? u := by
  rw [Cache.answer?, hr.current? hu, Cache.answer?]

theorem seen? (hr : Without only gone c c₀) (hu : gone ≠ some u) : c₀.seen? u = c.seen? u := by
  rw [Cache.seen?, hr.current? hu, hr.entries, Cache.seen?]

/-! ## The call itself -/

omit [DecidableEq κ] in
theorem opened {ch : Change κ α} (h : c.start? t (.change ch) = some c') (hch : ch.asksRoom only = true) :
    Without only (some t) c' c := by
  have begun : Without only (some t) { c with calls := c.calls.start t (.queueing ch) } c := by
    have hwithout : ({ c with calls := c.calls.start t (.queueing ch) } : Cache κ α).without t (.queueing ch) = c := by
      rw [without_eq_collect rfl rfl, Cache.collect, Calls.finish_start_self]
    have begun : Without only (some t) { c with calls := c.calls.start t (.queueing ch) } _ :=
      .but (p := .queueing ch) (by rw [Calls.current?_start, if_pos rfl]) hch
    rwa [hwithout] at begun
  unfold Cache.start? at h
  dsimp only at h
  split at h
  · exact Option.some.inj h ▸ begun
  · exact Option.some.inj h ▸ begun
  · cases h

omit [DecidableEq κ] in
/-- The call goes on to another phase and has other things in hand, but still has changed nothing. -/
theorem advance {c₁ : Cache κ α} (h : c₁.without t p' = c.without t p) (spared : p'.spares only = true) :
    Without only (some t) (c₁.into t p') (c.without t p) := by
  have hwithout : (c₁.into t p').without t p' = c.without t p := by
    rw [← h]
    simp only [Cache.into, without, Calls.finish_move_self]
  rw [← hwithout]
  exact .but (by rw [Cache.into, Calls.current?_move, if_pos rfl]) spared

/-- A step of the call changes nothing without it, or the answer is of another kind. -/
theorem own (hr : Without only (some t) c c₀) (h : c.step? env t = some c') :
    Without only (some t) c' c₀ ∨ c'.Differs only t := by
  cases hr with
  | @but _ p _ hp spared =>
    unfold Cache.step? at h
    rw [hp] at h
    have differs {a : Answer α} (c₁ : Cache κ α) (ha : a.spares only = false) :
        (c₁.into t (.readmitting a)).Differs only t :=
      ⟨.readmitting a, by rw [Cache.into, Calls.current?_move, if_pos rfl], by rw [Phase.differs, ha]; rfl⟩
    cases p with
    | queueing ch =>
      obtain ⟨g, hg, rfl⟩ := Option.map_eq_some_iff.mp h
      refine .inl (advance ?_ spared)
      simp only [without, Phase.hasGate, Phase.excludes, Phase.isCounted, Mutex.letGo_acquired hg]
      rfl
    | gated ch =>
      cases h
      refine .inl (advance ?_ spared)
      simp [without, Phase.hasGate, Phase.excludes, Phase.isCounted]
    | counted ch =>
      obtain ⟨k, hk, rfl⟩ := Option.map_eq_some_iff.mp h
      refine .inl (advance ?_ spared)
      simp only [without, Phase.hasGate, Phase.excludes, Phase.isCounted, SharedLock.letGo_excluded hk]
      rfl
    | excluding ch =>
      cases h
      refine .inl (advance ?_ spared)
      simp [without, Phase.hasGate, Phase.excludes, Phase.isCounted]
    | uncounted ch =>
      cases h
      exact .inl (advance rfl spared)
    | changing ch =>
      cases h
      cases ch with
      | write key v =>
        simp only [Cache.change]
        split
        · exact .inr (differs _ (by simpa [Answer.spares, Phase.spares, Change.asksRoom] using spared))
        · exact .inl (advance rfl rfl)
      | reserve n =>
        simp only [Cache.change]
        split
        · cases only with
          | true => exact .inl (advance rfl rfl)
          | false => exact .inr (differs _ rfl)
        · exact .inl (advance rfl rfl)
      | remove key => cases spared
    | readmitting a =>
      cases h
      exact .inl (advance rfl spared)
    | returned a => cases h
    | _ => cases spared

omit [DecidableEq κ] in
theorem closed (hr : Without only (some t) c c₀) {a : Answer α} (h : c.answer? t = some a) : c₀ = c.collect t := by
  cases hr with
  | @but _ p _ hp spared =>
    simp only [Cache.answer?, hp] at h
    cases p with
    | returned a => exact without_eq_collect rfl rfl
    | _ => cases h

end Without

/-! ## A call with another answer -/

/-- Until it is taken, the answer stays as it is. -/
theorem Differs.move {m : Move κ α} (hd : c.Differs only t) (h : c.move? m = some c') (hopen : m ≠ .collect t) :
    c'.Differs only t := by
  obtain ⟨p, hp, hdiffers⟩ := hd
  by_cases hne : m.thread = t
  · cases move_passage h with
    | @starts u r hvisiting =>
      obtain rfl : u = t := hne
      have := hvisiting p hp
      cases p with
      | visiting key => cases hdiffers
      | _ => cases this
    | @turns u q q' c₁ env hq hturn =>
      obtain rfl : u = t := hne
      obtain rfl := Option.some.inj (hp.symm.trans hq)
      cases hturn with
      | readmits a => exact ⟨.returned a, by rw [into, Calls.current?_move, if_pos rfl], hdiffers⟩
      | _ => cases hdiffers
    | @ends u key e hq =>
      obtain rfl : u = t := hne
      obtain rfl := Option.some.inj (hp.symm.trans hq)
      cases hdiffers
    | collects hq => exact absurd (congrArg Move.collect hne) hopen
  · exact ⟨p, (current?_others (move_passage h) hne).trans hp, hdiffers⟩

omit [DecidableEq κ] in
theorem Differs.answer {a : Answer α} (hd : c.Differs only t) (h : c.answer? t = some a) : a.spares only = false := by
  obtain ⟨p, hp, hdiffers⟩ := hd
  simp only [answer?, hp] at h
  cases p with
  | returned a' =>
    obtain rfl := Option.some.inj h
    simpa [Phase.differs] using hdiffers
  | _ => cases h

/-! ## Writing where there is a value -/

/-- The call is to write a value at the key and has not yet done so, or has found an old value there. -/
inductive Phase.Writes (key : κ) (v : α) : Phase κ α → Prop
  | queueing : Writes key v (.queueing (.write key v))
  | gated : Writes key v (.gated (.write key v))
  | counted : Writes key v (.counted (.write key v))
  | excluding : Writes key v (.excluding (.write key v))
  | uncounted : Writes key v (.uncounted (.write key v))
  | changing : Writes key v (.changing (.write key v))
  | readmitting (old : α) : Writes key v (.readmitting (.found (some old)))
  | returned (old : α) : Writes key v (.returned (.found (some old)))

/-- Where the key has a value, the call asks for no room. -/
theorem Phase.Writes.step {key : κ} {v : α} (hw : p.Writes key v) (hp : c.calls.current? t = some p)
    (hkey : c.entries.contains key = true) (h : c.step? env t = some c') :
    ∃ p', c'.calls.current? t = some p' ∧ p'.Writes key v := by
  have goes (c₁ : Cache κ α) {p' : Phase κ α} (hp' : p'.Writes key v) :
      ∃ q, (c₁.into t p').calls.current? t = some q ∧ q.Writes key v :=
    ⟨p', by rw [into, Calls.current?_move, if_pos rfl], hp'⟩
  unfold step? at h
  rw [hp] at h
  cases hw with
  | queueing =>
    obtain ⟨g, -, rfl⟩ := Option.map_eq_some_iff.mp h
    exact goes _ .gated
  | gated =>
    cases h
    exact goes _ .counted
  | counted =>
    obtain ⟨k, -, rfl⟩ := Option.map_eq_some_iff.mp h
    exact goes _ .excluding
  | excluding =>
    cases h
    exact goes _ .uncounted
  | uncounted =>
    cases h
    exact goes _ .changing
  | changing =>
    cases h
    obtain ⟨old, hold⟩ := Option.isSome_iff_exists.mp hkey
    simp only [change, room, hkey, if_true, hold]
    exact goes _ (.readmitting old)
  | readmitting old =>
    cases h
    exact goes _ (.returned old)
  | returned old => cases h

end

end Cache

end Interlock
