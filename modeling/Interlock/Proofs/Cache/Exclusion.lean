import Mathlib.Algebra.Order.BigOperators.Group.List
import Interlock.Proofs.Cache.Moves

/-!
# Who has the gate and the lock

In every reachable state the holder of the gate is the one call in a phase that has it, the writer of the lock
is the one call in exclusive mode, and the readers of the lock are the calls in shared mode, counted over all
threads and all calls that they are inside. Readers and a writer are never in at the same time.
-/

namespace Interlock.Cache

variable {κ α : Type}

structure Sound (c : Cache κ α) : Prop where
  gate : c.calls.HeldIn Phase.hasGate c.gate.holder
  writer : c.calls.HeldIn Phase.excludes c.lock.writer
  readers : c.lock.readers = Entries.total Phase.shares c.calls.pending
  alone : c.lock.writer ≠ none → c.lock.readers = 0
  /-- A thread that is inside several calls is in the callbacks of all but the innermost. -/
  outer : ∀ t, ∀ p ∈ (c.calls.of t).tail, p.isVisiting = true

theorem sound_start (init : Table κ α) : Sound ({ entries := init } : Cache κ α) where
  gate _ := ⟨nofun, nofun⟩
  writer _ := ⟨nofun, nofun⟩
  readers := rfl
  alone _ := rfl
  outer _ := nofun

/-! ## Phases -/

section
variable (r : Request κ α)

@[simp] theorem hasGate_opening : r.opening.hasGate = false := by cases r <;> rfl

@[simp] theorem excludes_opening : r.opening.excludes = false := by cases r <;> rfl

@[simp] theorem shares_opening : r.opening.shares = 0 := by cases r <;> rfl

end

theorem Phase.AwaitsMode.hasGate {p : Phase κ α} {ch : Change κ α} (h : p.AwaitsMode ch) : p.hasGate = true := by
  rcases h with rfl | rfl <;> rfl

section
variable {p : Phase κ α} (h : p.isVisiting = true)
include h

theorem Phase.hasGate_of_isVisiting : p.hasGate = false := by
  cases p with
  | visiting key => rfl
  | _ => cases h

theorem Phase.excludes_of_isVisiting : p.excludes = false := by
  cases p with
  | visiting key => rfl
  | _ => cases h

theorem Phase.shares_of_isVisiting : p.shares = 1 := by
  cases p with
  | visiting key => rfl
  | _ => cases h

end

theorem Phase.not_visiting {p : Phase κ α} {has : Phase κ α → Bool} (hnot : p.isVisiting = true → has p = false)
    (h : has p = true) : p.isVisiting = false := by
  by_contra hv
  rw [hnot (by simpa using hv)] at h
  cases h

section
variable {c : Cache κ α} {t : ThreadId} {p : Phase κ α}

theorem shares_move (hp : c.calls.current? t = some p) (p' : Phase κ α) :
    Entries.total Phase.shares (c.calls.move t p').pending + p.shares =
      Entries.total Phase.shares c.calls.pending + p'.shares := by
  have := Entries.total_put Phase.shares t p' c.calls.pending
  rwa [← Calls.current?, hp] at this

namespace Sound

variable (hs : c.Sound)
include hs

/-! ## What the lock says of a call -/

theorem innermost (hp : p ∈ c.calls.of t) (hv : p.isVisiting = false) : c.calls.current? t = some p := by
  cases hc : c.calls.of t with
  | nil =>
    rw [hc] at hp
    cases hp
  | cons q rest =>
    rw [hc] at hp
    rcases List.mem_cons.mp hp with rfl | hp
    · exact Calls.current?_eq_of_cons hc
    · have := hs.outer t p (by rw [hc]; exact hp)
      rw [hv] at this
      cases this

theorem readers_pos (hp : p ∈ c.calls.of t) (hv : p.isVisiting = true) : 0 < c.lock.readers := by
  rw [hs.readers, Entries.total]
  have hmem : p.shares ∈ c.calls.pending.map fun e => e.2.shares :=
    List.mem_map_of_mem (f := fun e => e.2.shares) (Calls.mem_of.mp hp)
  have hle := List.single_le_sum (fun _ _ => Nat.zero_le _) _ hmem
  rwa [Phase.shares_of_isVisiting hv] at hle

theorem no_writer (hp : p ∈ c.calls.of t) (hv : p.isVisiting = true) : c.lock.writer = none := by
  cases hw : c.lock.writer with
  | none => rfl
  | some u =>
    have hpos := hs.readers_pos hp hv
    have hzero := hs.alone (by rw [hw]; nofun)
    omega

/-! ## Making calls and ending callbacks -/

theorem outer_move (t : ThreadId) (p' : Phase κ α) (u : ThreadId) :
    ∀ q ∈ ((c.calls.move t p').of u).tail, q.isVisiting = true := by
  rw [Calls.of_move]
  split
  · exact hs.outer u
  · exact hs.outer u

/-- A thread that may make a call is in the callbacks of all calls that it is inside. -/
theorem visiting_of_free (hfree : ∀ q, c.calls.current? t = some q → q.isVisiting = true) :
    ∀ q ∈ c.calls.of t, q.isVisiting = true := by
  intro q hq
  by_contra hv
  have hq := hs.innermost hq (by simpa using hv)
  exact hv (hfree q hq)

theorem starts (r : Request κ α) (hfree : ∀ q, c.calls.current? t = some q → q.isVisiting = true) :
    ({ c with calls := c.calls.start t r.opening }).Sound where
  gate := hs.gate.start (fun q hq => Phase.hasGate_of_isVisiting (hfree q hq)) (hasGate_opening r)
  writer := hs.writer.start (fun q hq => Phase.excludes_of_isVisiting (hfree q hq)) (excludes_opening r)
  readers := by
    show _ = Entries.total Phase.shares ((t, r.opening) :: c.calls.pending)
    rw [Entries.total_cons, shares_opening, zero_add]
    exact hs.readers
  alone := hs.alone
  outer u q hq := by
    rw [Calls.of_start] at hq
    split at hq
    · rename_i htu
      exact hs.visiting_of_free hfree q (htu ▸ hq)
    · exact hs.outer u q hq

theorem ends {key : κ} (hp : c.calls.current? t = some (.visiting key)) (a : Answer α) :
    (c.into t (.unsharing a)).Sound where
  gate := hs.gate.keep hp rfl
  writer := hs.writer.keep hp rfl
  readers := by
    have hmove := shares_move hp (.unsharing a)
    simp only [Phase.shares] at hmove
    exact hs.readers.trans (by simp only [into]; omega)
  alone := hs.alone
  outer := hs.outer_move t _

theorem collects {a : Answer α} (hp : c.calls.current? t = some (.returned a)) : (c.collect t).Sound where
  gate := hs.gate.finish hp rfl fun q hq => Phase.hasGate_of_isVisiting (hs.outer t q hq)
  writer := hs.writer.finish hp rfl fun q hq => Phase.excludes_of_isVisiting (hs.outer t q hq)
  readers := by
    have hsum := Entries.total_eraseP Phase.shares t c.calls.pending
    rw [← Calls.current?, hp] at hsum
    exact hs.readers.trans hsum.symm
  alone := hs.alone
  outer u q hq := by
    rw [collect, Calls.of_finish] at hq
    split at hq
    · exact hs.outer u q (List.mem_of_mem_tail hq)
    · exact hs.outer u q hq

end Sound

end

/-! ## Steps of calls -/

variable [DecidableEq κ] {c c' c₁ : Cache κ α} {t : ThreadId} {p p' : Phase κ α}

section
variable (c : Cache κ α) (l : Look κ)

@[simp] theorem hasGate_sight : (c.sight l).hasGate = false := by cases l <;> rfl

@[simp] theorem excludes_sight : (c.sight l).excludes = false := by cases l <;> rfl

@[simp] theorem shares_sight : (c.sight l).shares = 1 := by cases l <;> rfl

end

namespace Sound

variable (hs : c.Sound)
include hs

theorem gate_turn (hp : c.calls.current? t = some p) (h : Turn t c p p' c₁) :
    (c.calls.move t p').HeldIn Phase.hasGate c₁.gate.holder := by
  cases h with
  | arrives l hfree => exact (hfree ▸ hs.gate).take rfl
  | queues ch hfree => exact (hfree ▸ hs.gate).take rfl
  | passes l => exact hs.gate.leave hp rfl rfl
  | ungates ch => exact hs.gate.leave hp rfl rfl
  | sees l hw => exact hs.gate.keep hp (hasGate_sight c l)
  | _ => exact hs.gate.keep hp rfl

theorem writer_turn (hp : c.calls.current? t = some p) (h : Turn t c p p' c₁) :
    (c.calls.move t p').HeldIn Phase.excludes c₁.lock.writer := by
  cases h with
  | excludes ch hw hr => exact (hw ▸ hs.writer).take rfl
  | readmits a => exact hs.writer.leave hp rfl rfl
  | sees l hw => exact hs.writer.keep hp (excludes_sight c l)
  | _ => exact hs.writer.keep hp rfl

theorem readers_turn (hp : c.calls.current? t = some p) (h : Turn t c p p' c₁) :
    c₁.lock.readers = Entries.total Phase.shares (c.calls.move t p').pending := by
  have hmove := shares_move hp p'
  have hreaders := hs.readers
  cases h with
  | sees l hw =>
    rw [shares_sight] at hmove
    simp only [Phase.shares] at hmove
    simp only [hreaders]
    omega
  | unshares a =>
    simp only [Phase.shares] at hmove
    simp only [SharedLock.unshare, hreaders]
    omega
  | _ =>
    simp only [Phase.shares] at hmove
    exact hreaders.trans (by omega)

theorem alone_turn (h : Turn t c p p' c₁) (hw : c₁.lock.writer ≠ none) : c₁.lock.readers = 0 := by
  cases h with
  | sees l hfree => exact absurd hfree hw
  | unshares a =>
    have := hs.alone hw
    simp only [SharedLock.unshare, this]
  | excludes ch hfree hr => exact hr
  | readmits a => exact absurd rfl hw
  | _ => exact hs.alone hw

theorem turn (hp : c.calls.current? t = some p) (h : Turn t c p p' c₁) : (c₁.into t p').Sound := by
  have hgate := hs.gate_turn hp h
  have hwriter := hs.writer_turn hp h
  have hreaders := hs.readers_turn hp h
  have halone := hs.alone_turn h
  have houter := hs.outer_move t p'
  rw [← h.calls] at hgate hwriter hreaders houter
  exact ⟨hgate, hwriter, hreaders, halone, houter⟩

theorem passage {m : Move κ α} (h : Passage c m c') : c'.Sound := by
  cases h with
  | starts r hfree => exact hs.starts r hfree
  | turns env hp hturn => exact hs.turn hp hturn
  | ends e hp => exact hs.ends hp _
  | collects hp => exact hs.collects hp

theorem leads (h : Leads move? c c') : c'.Sound := by
  induction h with
  | refl => exact hs
  | tail m _ hm ih => exact ih.passage (move_passage hm)

end Sound

theorem Reachable.sound {init : Table κ α} (hr : Reachable init c) : c.Sound :=
  (sound_start init).leads hr

end Interlock.Cache
