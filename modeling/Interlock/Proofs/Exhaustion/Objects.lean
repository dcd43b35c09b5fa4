import Interlock.Proofs.Exhaustion.Caches
import Interlock.Proofs.Exhaustion.Inserts
import Interlock.Proofs.Exhaustion.Queues
import Interlock.Proofs.Exhaustion.Stacks
import Interlock.Proofs.Panic.Worlds

/-!
# What a move makes of the objects

A call, a step of it, the end of its callback and the taking of its answer are moves of the one object on which the call
was made (`Alters`). Any other move makes an object, or is a deed on ranked locks, or changes an element that is in hand
(`Evolves`). So each object of a world that can be reached is one that can be reached by itself, and a thread that makes
no move stays where it is.
-/

namespace Interlock.World

variable {α : Type} {only : Bool} {t u : ThreadId}

/-- Whose move it is. -/
def Move.thread? : Move α → Option ThreadId
  | .start t _ => some t
  | .step t _ => some t
  | .wake t => some t
  | .finish t _ => some t
  | .collect t => some t
  | .look t => some t
  | .change t _ => some t
  | .perform t _ => some t
  | .leak t _ => some t
  | .ceiling t => some t
  | _ => none

/-! ## Objects at their places -/

/-- What somebody makes of an object, or of a place where there is none so far. -/
inductive Fate {σ μ : Type} (next? : σ → μ → Option σ) (thread : μ → ThreadId) (who : Option ThreadId) (made : σ → Prop) :
    Option σ → Option σ → Prop
  | stays (o : Option σ) : Fate next? thread who made o o
  | moves {s s' : σ} (n : μ) : some (thread n) = who → next? s n = some s' →
      Fate next? thread who made (some s) (some s')
  | made {s : σ} : made s → Fate next? thread who made none (some s)

section
variable {σ μ ι : Type} {next? : σ → μ → Option σ} {thread : μ → ThreadId} {who : Option ThreadId} {made : σ → Prop}
  {l : List σ} {s s' : σ} {o o' : Option σ} {i : Nat} {n : μ}

theorem fate_set (hs : l[i]? = some s) (hn : some (thread n) = who) (hm : next? s n = some s') (j : Nat) :
    Fate next? thread who made l[j]? (l.set i s')[j]? := by
  rw [List.getElem?_set']
  split
  · rename_i hj
    subst hj
    rw [hs]
    exact .moves n hn hm
  · exact .stays _

theorem modify_eq_set (hs : l[i]? = some s) (f : σ → σ) : l.modify i f = l.set i (f s) := by
  rw [List.modify_eq_set_getElem?, hs]
  rfl

theorem fate_append (hs : made s) (j : Nat) : Fate next? thread who made l[j]? (l ++ [s])[j]? := by
  by_cases hj : j < l.length
  · rw [List.getElem?_append_left hj]
    exact .stays _
  · rw [List.getElem?_append_right (Nat.le_of_not_lt hj), List.getElem?_eq_none (Nat.le_of_not_lt hj),
      List.getElem?_singleton]
    split
    · exact .made hs
    · exact .stays _

theorem Fate.reachable {start : ι → σ} (hf : Fate next? thread who made o o') (hmade : ∀ s, made s → ∃ i, s = start i)
    (ho : ∀ s, o = some s → ∃ i, Leads next? (start i) s) : ∀ s, o' = some s → ∃ i, Leads next? (start i) s := by
  intro s hs
  cases hf with
  | stays => exact ho s hs
  | moves n _ hm =>
    obtain rfl := Option.some.inj hs
    obtain ⟨i, hi⟩ := ho _ rfl
    exact ⟨i, hi.tail n hm⟩
  | made hs' =>
    obtain rfl := Option.some.inj hs
    obtain ⟨i, rfl⟩ := hmade _ hs'
    exact ⟨i, .refl⟩

/-- An object that is there stays there. -/
theorem Fate.there (hf : Fate next? thread who made o o') (hs : o = some s) :
    ∃ s', o' = some s' ∧ (s' = s ∨ ∃ n, some (thread n) = who ∧ next? s n = some s') := by
  cases hf with
  | stays => exact ⟨s, hs, .inl rfl⟩
  | moves n hn hm =>
    obtain rfl := Option.some.inj hs
    exact ⟨_, rfl, .inr ⟨n, hn, hm⟩⟩
  | made _ => cases hs

end

/-! ## Moves on one object -/

def Move.onQueue? : Move α → Option (Queue.Move α)
  | .start t (.queue _ r) => some (.start t r)
  | .step t env => some (.step t env)
  | .wake t => some (.wake t)
  | .collect t => some (.collect t)
  | _ => none

def Move.onStack? : Move α → Option (Stack.Move α)
  | .start t (.stack _ r) => some (.start t r)
  | .step t env => some (.step t env)
  | .finish t (.builder e) => some (.finish t e)
  | .collect t => some (.collect t)
  | _ => none

def Move.onCache? : Move α → Option (Cache.Move String α)
  | .start t (.cache _ r) => some (.start t r)
  | .step t env => some (.step t env)
  | .finish t (.callback e) => some (.finish t e)
  | .collect t => some (.collect t)
  | _ => none

def Move.onHierarchy? : Move α → Option (Hierarchy.Move α)
  | .start t (.hierarchy r) => some (.start t r)
  | .step t env => some (.step t env)
  | .finish t (.callback e) => some (.finish t e)
  | .collect t => some (.collect t)
  | _ => none

/-- The object at this place changes as the move changes it if there is nothing else, and cells change somehow. -/
inductive Alters (m : Move α) (w : World α) : Site → World α → Prop
  | queue {i : Nat} {q q' : Queue α} {n : Queue.Move α} : w.queueList[i]? = some q → m.onQueue? = some n →
      q.move? n = some q' → Alters m w (.queue i) { w with queueList := w.queueList.set i q' }
  | stack {i : Nat} {x x' : Stack α} {n : Stack.Move α} : w.stackList[i]? = some x → m.onStack? = some n →
      x.move? n = some x' → Alters m w (.stack i) { w with stackList := w.stackList.set i x' }
  | cache {i : Nat} {k k' : Cache String α} {n : Cache.Move String α} : w.cacheList[i]? = some k →
      m.onCache? = some n → k.move? n = some k' → Alters m w (.cache i) { w with cacheList := w.cacheList.set i k' }
  | cells (cells : Cells α) : Alters m w .cells { w with cells }
  | hierarchy {h : Hierarchy α} {n : Hierarchy.Move α} : m.onHierarchy? = some n → w.hierarchy.move? n = some h →
      Alters m w .hierarchy { w with hierarchy := h }

section
variable {w w' : World α} {m : Move α}

theorem thread?_onQueue {n : Queue.Move α} (h : m.onQueue? = some n) : m.thread? = some n.thread := by
  unfold Move.onQueue? at h
  split at h <;> cases h <;> rfl

theorem thread?_onStack {n : Stack.Move α} (h : m.onStack? = some n) : m.thread? = some n.thread := by
  unfold Move.onStack? at h
  split at h <;> cases h <;> rfl

theorem thread?_onCache {n : Cache.Move String α} (h : m.onCache? = some n) : m.thread? = some n.thread := by
  unfold Move.onCache? at h
  split at h <;> cases h <;> rfl

theorem thread?_onHierarchy {n : Hierarchy.Move α} (h : m.onHierarchy? = some n) : n.thread? = m.thread? := by
  unfold Move.onHierarchy? at h
  split at h <;> cases h <;> rfl

theorem Alters.sites {s : Site} (ha : Alters m w s w') : w'.sites = w.sites := by
  cases ha <;> rfl

/-- A call is made on the object at its site, and then the thread is there. -/
theorem alters_start {c : Call α} (h : w.start? t c = some w') :
    ∃ w₁, Alters (.start t c) w c.site w₁ ∧ w' = { w₁ with sites := w₁.sites.insert t (c.site :: w.sitesOf t) } := by
  obtain ⟨-, -, h⟩ := Option.bind_eq_some_iff.mp h
  cases c with
  | queue i r =>
    obtain ⟨q, hq, h⟩ := Option.bind_eq_some_iff.mp h
    obtain ⟨q', hq', h⟩ := Option.bind_eq_some_iff.mp h
    exact ⟨_, .queue hq rfl hq', (Option.some.inj h).symm⟩
  | stack i r =>
    obtain ⟨x, hx, h⟩ := Option.bind_eq_some_iff.mp h
    obtain ⟨x', hx', h⟩ := Option.bind_eq_some_iff.mp h
    exact ⟨_, .stack hx rfl hx', (Option.some.inj h).symm⟩
  | cache i r =>
    obtain ⟨k, hk, h⟩ := Option.bind_eq_some_iff.mp h
    obtain ⟨k', hk', h⟩ := Option.bind_eq_some_iff.mp h
    exact ⟨_, .cache hk rfl hk', (Option.some.inj h).symm⟩
  | cells r =>
    obtain ⟨c, -, h⟩ := Option.bind_eq_some_iff.mp h
    exact ⟨_, .cells c, (Option.some.inj h).symm⟩
  | hierarchy r =>
    obtain ⟨x, hx, h⟩ := Option.bind_eq_some_iff.mp h
    exact ⟨_, .hierarchy rfl hx, (Option.some.inj h).symm⟩

theorem sitesOf_start {c : Call α} (h : w.start? t c = some w') : w'.sitesOf t = c.site :: w.sitesOf t := by
  obtain ⟨w₁, -, rfl⟩ := alters_start h
  rw [sitesOf, Table.get?_insert, if_pos rfl, Option.getD_some]

theorem alters_step [BEq α] {env : Environment} (h : w.step? env t = some w') :
    ∃ s, (w.sitesOf t).head? = some s ∧ Alters (.step t env) w s w' := by
  unfold step? at h
  match hs : w.sitesOf t with
  | [] =>
    rw [hs] at h
    cases h
  | .queue i :: _ =>
    rw [hs] at h
    obtain ⟨q, hq, h⟩ := Option.bind_eq_some_iff.mp h
    obtain ⟨q', hq', h⟩ := Option.bind_eq_some_iff.mp h
    obtain rfl := Option.some.inj h
    exact ⟨_, rfl, .queue hq rfl hq'⟩
  | .stack i :: _ =>
    rw [hs] at h
    obtain ⟨x, hx, h⟩ := Option.bind_eq_some_iff.mp h
    obtain ⟨x', hx', h⟩ := Option.bind_eq_some_iff.mp h
    obtain rfl := Option.some.inj h
    exact ⟨_, rfl, .stack hx rfl hx'⟩
  | .cache i :: _ =>
    rw [hs] at h
    obtain ⟨k, hk, h⟩ := Option.bind_eq_some_iff.mp h
    obtain ⟨k', hk', h⟩ := Option.bind_eq_some_iff.mp h
    obtain rfl := Option.some.inj h
    exact ⟨_, rfl, .cache hk rfl hk'⟩
  | .cells :: _ =>
    rw [hs] at h
    obtain ⟨c, -, h⟩ := Option.bind_eq_some_iff.mp h
    obtain rfl := Option.some.inj h
    exact ⟨_, rfl, .cells c⟩
  | .hierarchy :: _ =>
    rw [hs] at h
    obtain ⟨x, hx, h⟩ := Option.bind_eq_some_iff.mp h
    obtain rfl := Option.some.inj h
    exact ⟨_, rfl, .hierarchy rfl hx⟩

theorem alters_wake (h : w.wake? t = some w') : ∃ s, (w.sitesOf t).head? = some s ∧ Alters (.wake t) w s w' := by
  unfold wake? at h
  split at h
  · rename_i hs
    obtain ⟨q, hq, h⟩ := Option.bind_eq_some_iff.mp h
    obtain ⟨q', hq', h⟩ := Option.bind_eq_some_iff.mp h
    obtain rfl := Option.some.inj h
    exact ⟨_, by rw [hs, List.head?_cons], .queue hq rfl hq'⟩
  · cases h

theorem alters_end {e : Ending α} (h : w.end? t e = some w') :
    ∃ s, (w.sitesOf t).head? = some s ∧ Alters (.finish t e) w s w' := by
  unfold end? at h
  split at h
  · rename_i hs
    obtain ⟨x, hx, h⟩ := Option.bind_eq_some_iff.mp h
    obtain ⟨x', hx', h⟩ := Option.bind_eq_some_iff.mp h
    obtain rfl := Option.some.inj h
    exact ⟨_, by rw [hs, List.head?_cons], .stack hx rfl hx'⟩
  · rename_i hs
    obtain ⟨k, hk, h⟩ := Option.bind_eq_some_iff.mp h
    obtain ⟨k', hk', h⟩ := Option.bind_eq_some_iff.mp h
    obtain rfl := Option.some.inj h
    exact ⟨_, by rw [hs, List.head?_cons], .cache hk rfl hk'⟩
  · rename_i hs
    obtain ⟨c, -, h⟩ := Option.bind_eq_some_iff.mp h
    obtain rfl := Option.some.inj h
    exact ⟨_, by rw [hs, List.head?_cons], .cells c⟩
  · rename_i hs
    obtain ⟨x, hx, h⟩ := Option.bind_eq_some_iff.mp h
    obtain rfl := Option.some.inj h
    exact ⟨_, by rw [hs, List.head?_cons], .hierarchy rfl hx⟩
  · cases h

/-- An answer is taken from the object at the innermost site of the thread, and then the thread is there no more. -/
theorem alters_collect {a : Answer α} (ha : w.answer? t = some a) : ∃ s outer w₁, w.sitesOf t = s :: outer ∧
    Alters (.collect t) w s w₁ ∧ w.collect t = { w₁ with sites := w₁.sites.insert t outer } := by
  unfold answer? at ha
  unfold World.collect
  match hs : w.sitesOf t with
  | [] =>
    rw [hs] at ha
    cases ha
  | .queue i :: outer =>
    rw [hs] at ha
    obtain ⟨q, hq, ha⟩ := Option.bind_eq_some_iff.mp ha
    obtain ⟨b, hb, -⟩ := Option.bind_eq_some_iff.mp ha
    have hm : q.move? (.collect t) = some (q.collect t) := by rw [Queue.move?, hb, Option.map_some]
    exact ⟨_, _, _, rfl, .queue hq rfl hm, by simp only [modify_eq_set hq]⟩
  | .stack i :: outer =>
    rw [hs] at ha
    obtain ⟨x, hx, ha⟩ := Option.bind_eq_some_iff.mp ha
    obtain ⟨b, hb, -⟩ := Option.bind_eq_some_iff.mp ha
    have hm : x.move? (.collect t) = some (x.collect t) := by rw [Stack.move?, hb, Option.map_some]
    exact ⟨_, _, _, rfl, .stack hx rfl hm, by simp only [modify_eq_set hx]⟩
  | .cache i :: outer =>
    rw [hs] at ha
    obtain ⟨k, hk, ha⟩ := Option.bind_eq_some_iff.mp ha
    obtain ⟨b, hb, -⟩ := Option.bind_eq_some_iff.mp ha
    have hm : k.move? (.collect t) = some (k.collect t) := by rw [Cache.move?, hb, Option.map_some]
    exact ⟨_, _, _, rfl, .cache hk rfl hm, by simp only [modify_eq_set hk]⟩
  | .cells :: outer => exact ⟨_, _, _, rfl, .cells _, rfl⟩
  | .hierarchy :: outer =>
    rw [hs] at ha
    obtain ⟨b, hb, -⟩ := Option.bind_eq_some_iff.mp ha
    have hm : w.hierarchy.move? (.collect t) = some (w.hierarchy.collect t) := by rw [Hierarchy.move?, hb, Option.map_some]
    exact ⟨_, _, _, rfl, .hierarchy rfl hm, rfl⟩

end

/-! ## Moves -/

/-- Each object makes a move of the thread that moves the world, or is made, or stays as it is. -/
structure Evolves (m : Move α) (w w' : World α) : Prop where
  queueAt : ∀ i : Nat, Fate Queue.move? Queue.Move.thread m.thread? (fun q => ∃ items, q = Queue.ofList items)
    w.queueList[i]? w'.queueList[i]?
  stackAt : ∀ i : Nat, Fate Stack.move? Stack.Move.thread m.thread? (fun s => ∃ items, s = Stack.ofList items)
    w.stackList[i]? w'.stackList[i]?
  cacheAt : ∀ i : Nat, Fate Cache.move? Cache.Move.thread m.thread? (fun k => ∃ entries, k = { entries })
    w.cacheList[i]? w'.cacheList[i]?
  hierarchy : w.hierarchy.Evolves m.thread? w'.hierarchy
  sitesOf : ∀ t, m.thread? ≠ some t → w'.sitesOf t = w.sitesOf t

section
variable {w w' : World α} {m : Move α} {i : Nat}

theorem evolves_hierarchy {h : Hierarchy α} (hh : w.hierarchy.Evolves m.thread? h) (cells : Cells α) :
    Evolves m w { w with hierarchy := h, cells } :=
  ⟨fun _ => .stays _, fun _ => .stays _, fun _ => .stays _, hh, fun _ _ => rfl⟩

theorem evolves_cells (w : World α) (cells : Cells α) : Evolves m w { w with cells } := evolves_hierarchy .stays cells

theorem evolves_refl (w : World α) : Evolves m w w := evolves_cells w w.cells

theorem Alters.evolves {s : Site} (ha : Alters m w s w') : Evolves m w w' := by
  cases ha with
  | queue hq hn hm =>
    exact ⟨fate_set hq (thread?_onQueue hn).symm hm, fun _ => .stays _, fun _ => .stays _, .stays, fun _ _ => rfl⟩
  | stack hx hn hm =>
    exact ⟨fun _ => .stays _, fate_set hx (thread?_onStack hn).symm hm, fun _ => .stays _, .stays, fun _ _ => rfl⟩
  | cache hk hn hm =>
    exact ⟨fun _ => .stays _, fun _ => .stays _, fate_set hk (thread?_onCache hn).symm hm, .stays, fun _ _ => rfl⟩
  | cells c => exact evolves_cells w c
  | hierarchy hn hm => exact evolves_hierarchy (.moves _ (thread?_onHierarchy hn) hm) w.cells

theorem Evolves.relocate (he : Evolves m w w') (hm : m.thread? = some u) (ss : List Site) :
    Evolves m w { w' with sites := w'.sites.insert u ss } where
  queueAt := he.queueAt
  stackAt := he.stackAt
  cacheAt := he.cacheAt
  hierarchy := he.hierarchy
  sitesOf t ht := by
    have hne : u ≠ t := fun hu => ht (hm.trans (congrArg some hu))
    rw [← he.sitesOf t ht, World.sitesOf, Table.get?_insert, if_neg hne, World.sitesOf]

theorem evolves [BEq α] (h : w.move? m = some w') : Evolves m w w' := by
  cases m with
  | addQueue items =>
    obtain rfl := Option.some.inj h
    exact ⟨fate_append ⟨items, rfl⟩, fun _ => .stays _, fun _ => .stays _, .stays, fun _ _ => rfl⟩
  | addStack items =>
    obtain rfl := Option.some.inj h
    exact ⟨fun _ => .stays _, fate_append ⟨items, rfl⟩, fun _ => .stays _, .stays, fun _ _ => rfl⟩
  | addCache =>
    obtain rfl := Option.some.inj h
    exact ⟨fun _ => .stays _, fun _ => .stays _, fate_append ⟨{}, rfl⟩, .stays, fun _ _ => rfl⟩
  | addCell v =>
    obtain rfl := Option.some.inj h
    exact evolves_cells w _
  | addLock rank v =>
    obtain rfl := Option.some.inj h
    exact evolves_hierarchy (.moves (.addLock rank v) rfl rfl) w.cells
  | addRegistry d e =>
    obtain rfl := Option.some.inj h
    exact evolves_hierarchy (.moves (.addRegistry d e) rfl rfl) w.cells
  | start u c =>
    obtain ⟨w₁, ha, rfl⟩ := alters_start h
    exact ha.evolves.relocate rfl _
  | step u env =>
    obtain ⟨s, -, ha⟩ := alters_step h
    exact ha.evolves
  | wake u =>
    obtain ⟨s, -, ha⟩ := alters_wake h
    exact ha.evolves
  | finish u e =>
    obtain ⟨s, -, ha⟩ := alters_end h
    exact ha.evolves
  | collect u =>
    obtain ⟨a, ha, rfl⟩ := Option.map_eq_some_iff.mp h
    obtain ⟨s, outer, w₁, -, ha, he⟩ := alters_collect ha
    exact he ▸ ha.evolves.relocate rfl _
  | look u =>
    obtain ⟨g, -, rfl⟩ := Option.map_eq_some_iff.mp h
    exact evolves_refl w
  | change u v =>
    obtain ⟨g, -, rfl⟩ := Option.map_eq_some_iff.mp h
    cases g with
    | top v => exact evolves_refl w
    | entry v => exact evolves_refl w
    | cell i => exact evolves_cells w _
    | lock l => exact evolves_hierarchy (.edits l _) w.cells
  | perform u d =>
    obtain ⟨x, hx, rfl⟩ := Option.map_eq_some_iff.mp h
    exact evolves_hierarchy (.moves (.perform u d) rfl (by rw [Hierarchy.move?, hx, Option.map_some])) w.cells
  | leak u slot =>
    simp only [move?] at h
    split at h
    · obtain rfl := Option.some.inj h
      exact evolves_hierarchy (.clears u slot rfl) w.cells
    · cases h
  | read l =>
    obtain ⟨v, -, rfl⟩ := Option.map_eq_some_iff.mp h
    exact evolves_refl w
  | write l v =>
    obtain ⟨v', -, rfl⟩ := Option.map_eq_some_iff.mp h
    exact evolves_hierarchy (.edits l _) w.cells
  | ceiling u =>
    obtain rfl := Option.some.inj h
    exact evolves_refl w
  | queuedWriters i =>
    obtain ⟨k, -, rfl⟩ := Option.map_eq_some_iff.mp h
    exact evolves_refl w

/-! ## Worlds that can be reached -/

def Reachable [BEq α] (w : World α) : Prop := Leads move? {} w

/-- Each object can be reached by itself, and what is held of ranked locks can be recorded. -/
structure Sound (w : World α) : Prop where
  queueAt : ∀ (i : Nat) q, w.queueList[i]? = some q → ∃ init, q.Reachable init
  stackAt : ∀ (i : Nat) s, w.stackList[i]? = some s → ∃ init, s.Reachable init
  cacheAt : ∀ (i : Nat) k, w.cacheList[i]? = some k → ∃ init, k.Reachable init
  hierarchy : w.hierarchy.Recorded

theorem Sound.evolves (hs : w.Sound) (he : Evolves m w w') : w'.Sound where
  queueAt i := (he.queueAt i).reachable (fun _ => id) (hs.queueAt i)
  stackAt i := (he.stackAt i).reachable (fun _ => id) (hs.stackAt i)
  cacheAt i := (he.cacheAt i).reachable (fun _ => id) (hs.cacheAt i)
  hierarchy := he.hierarchy.recorded hs.hierarchy

theorem Reachable.sound [BEq α] (hr : w.Reachable) : w.Sound := by
  induction hr with
  | refl => exact ⟨nofun, nofun, nofun, .start⟩
  | tail m _ hm ih => exact ih.evolves (evolves hm)

end

end Interlock.World
