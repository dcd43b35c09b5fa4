import Interlock.Proofs.Exhaustion.Objects

/-!
# A world without a call that finds no room

A call is made on one object, and only that differs in the world without the call. As long as the call has changed
nothing, what other threads can do in the world they can do without the call, too, and that leads to such worlds again.
Each step of the call leads from the world to one that is the same without it, or the call gets an answer of another
kind. When the answer is taken, the two worlds have the same objects and the same calls.
-/

namespace Interlock.World

variable {α : Type} {only : Bool} {t u : ThreadId} {gone : Option (ThreadId × Site)}

/-- The calls that ask for room: those that only do so, or others too. -/
def Call.asksRoom (only : Bool) : Call α → Bool
  | .queue _ r => r.asksRoom only
  | .stack _ r => r.asksRoom only
  | .cache _ r => r.asksRoom only
  | .cells _ => false
  | .hierarchy r => r.asksRoom only

/-- The answers after which nothing has changed, to a call that only asks for room, or to any. -/
def Answer.spares (only : Bool) : Answer α → Bool
  | .queue a => a.spares only
  | .stack a => a.spares only
  | .cache a => a.spares only
  | .cells _ => false
  | .hierarchy a => a.spares only

/-- The thread whose call is gone from this object. -/
def absent (gone : Option (ThreadId × Site)) (s : Site) : Option ThreadId :=
  gone.bind fun g => if g.2 = s then some g.1 else none

/-- An object there that asks for room. -/
def stores (w : World α) : Site → Prop
  | .queue i => i < w.queueList.length
  | .stack i => i < w.stackList.length
  | .cache i => i < w.cacheList.length
  | .cells => False
  | .hierarchy => True

/-- The objects of the second world are those of the first without the calls of these threads. -/
structure Objects (only : Bool) (whose : Site → Option ThreadId) (w w₀ : World α) : Prop where
  queueAt : ∀ i : Nat, Option.Rel (Queue.Without only (whose (.queue i))) w.queueList[i]? w₀.queueList[i]?
  stackAt : ∀ i : Nat, Option.Rel (Stack.Without only (whose (.stack i))) w.stackList[i]? w₀.stackList[i]?
  cacheAt : ∀ i : Nat, Option.Rel (Cache.Without only (whose (.cache i))) w.cacheList[i]? w₀.cacheList[i]?
  cells : w₀.cells = w.cells
  hierarchy : Hierarchy.Without only (whose .hierarchy) w.hierarchy w₀.hierarchy

/-- The second world is the first without a call of the thread on the object, which has changed nothing so far. -/
structure Without (only : Bool) (gone : Option (ThreadId × Site)) (w w₀ : World α) : Prop
    extends Objects only (absent gone) w w₀ where
  sitesOf : ∀ u, gone.map Prod.fst ≠ some u → w₀.sitesOf u = w.sitesOf u
  inside : ∀ t s, gone = some (t, s) → w.sitesOf t = s :: w₀.sitesOf t ∧ w.stores s

section
variable {w w' w₀ w₀' : World α} {s : Site} {i : Nat}

theorem absent_self (t : ThreadId) (s : Site) : absent (some (t, s)) s = some t := if_pos rfl

theorem absent_of_ne (t : ThreadId) {s s' : Site} (hne : s' ≠ s) : absent (some (t, s)) s' = none :=
  if_neg (Ne.symm hne)

theorem absent_ne (hu : gone.map Prod.fst ≠ some u) (s : Site) : absent gone s ≠ some u := by
  intro h
  obtain ⟨g, hg, h⟩ := Option.bind_eq_some_iff.mp h
  split at h
  · exact hu (by rw [hg, ← Option.some.inj h, Option.map_some])
  · cases h

theorem stores_mono (h : w.stores s) (hqueue : w.queueList.length ≤ w'.queueList.length)
    (hstack : w.stackList.length ≤ w'.stackList.length) (hcache : w.cacheList.length ≤ w'.cacheList.length) :
    w'.stores s := by
  cases s with
  | queue i => exact Nat.lt_of_lt_of_le h hqueue
  | stack i => exact Nat.lt_of_lt_of_le h hstack
  | cache i => exact Nat.lt_of_lt_of_le h hcache
  | cells => exact h
  | hierarchy => exact h

theorem set_self {σ : Type} {l : List σ} {x : σ} (h : l[i]? = some x) : l.set i x = l := by
  obtain ⟨hlt, rfl⟩ := List.getElem?_eq_some_iff.mp h
  exact List.set_getElem_self hlt

theorem lt_length_set {σ : Type} {l : List σ} {x : σ} (h : l[i]? = some x) (y : σ) : i < (l.set i y).length := by
  rw [List.length_set]
  exact (List.getElem?_eq_some_iff.mp h).1

theorem rel_set {σ : Type} {R R' : Nat → σ → σ → Prop} {l l' : List σ} {x x' : σ}
    (h : ∀ j, Option.Rel (R j) l[j]? l'[j]?) (hx : R' i x x') (others : ∀ j, j ≠ i → R j = R' j) (j : Nat) :
    Option.Rel (R' j) (l.set i x)[j]? (l'.set i x')[j]? := by
  rw [set_eq_modify, set_eq_modify]
  exact rel_modify h (fun _ _ _ => hx) others j

/-! ## Changes of one object -/

namespace Objects

variable {whose whose' : Site → Option ThreadId} (hr : Objects only whose w w₀)
include hr

theorem setQueue (others : ∀ s, s ≠ .queue i → whose' s = whose s) {q q₀ : Queue α}
    (hq : Queue.Without only (whose' (.queue i)) q q₀) :
    Objects only whose' { w with queueList := w.queueList.set i q } { w₀ with queueList := w₀.queueList.set i q₀ } where
  queueAt := rel_set hr.queueAt hq fun j hj => by rw [others (.queue j) fun he => hj (Site.queue.inj he)]
  stackAt j := others (.stack j) nofun ▸ hr.stackAt j
  cacheAt j := others (.cache j) nofun ▸ hr.cacheAt j
  cells := hr.cells
  hierarchy := others .hierarchy nofun ▸ hr.hierarchy

theorem setStack (others : ∀ s, s ≠ .stack i → whose' s = whose s) {x x₀ : Stack α}
    (hx : Stack.Without only (whose' (.stack i)) x x₀) :
    Objects only whose' { w with stackList := w.stackList.set i x } { w₀ with stackList := w₀.stackList.set i x₀ } where
  queueAt j := others (.queue j) nofun ▸ hr.queueAt j
  stackAt := rel_set hr.stackAt hx fun j hj => by rw [others (.stack j) fun he => hj (Site.stack.inj he)]
  cacheAt j := others (.cache j) nofun ▸ hr.cacheAt j
  cells := hr.cells
  hierarchy := others .hierarchy nofun ▸ hr.hierarchy

theorem setCache (others : ∀ s, s ≠ .cache i → whose' s = whose s) {k k₀ : Cache String α}
    (hk : Cache.Without only (whose' (.cache i)) k k₀) :
    Objects only whose' { w with cacheList := w.cacheList.set i k } { w₀ with cacheList := w₀.cacheList.set i k₀ } where
  queueAt j := others (.queue j) nofun ▸ hr.queueAt j
  stackAt j := others (.stack j) nofun ▸ hr.stackAt j
  cacheAt := rel_set hr.cacheAt hk fun j hj => by rw [others (.cache j) fun he => hj (Site.cache.inj he)]
  cells := hr.cells
  hierarchy := others .hierarchy nofun ▸ hr.hierarchy

theorem setHierarchy (others : ∀ s, s ≠ .hierarchy → whose' s = whose s) {h h₀ : Hierarchy α}
    (hh : Hierarchy.Without only (whose' .hierarchy) h h₀) :
    Objects only whose' { w with hierarchy := h } { w₀ with hierarchy := h₀ } where
  queueAt j := others (.queue j) nofun ▸ hr.queueAt j
  stackAt j := others (.stack j) nofun ▸ hr.stackAt j
  cacheAt j := others (.cache j) nofun ▸ hr.cacheAt j
  cells := hr.cells
  hierarchy := hh

/-- Where calls are made is of no account. -/
theorem relocate (sites sites₀ : Table ThreadId (List Site)) :
    Objects only whose { w with sites } { w₀ with sites := sites₀ } :=
  ⟨hr.queueAt, hr.stackAt, hr.cacheAt, hr.cells, hr.hierarchy⟩

end Objects

namespace Without

theorem refl (w : World α) : Without only none w w where
  queueAt i := by cases w.queueList[i]? with
    | none => exact .none
    | some q => exact .some (.same q)
  stackAt i := by cases w.stackList[i]? with
    | none => exact .none
    | some s => exact .some (.same s)
  cacheAt i := by cases w.cacheList[i]? with
    | none => exact .none
    | some k => exact .some (.same k)
  cells := rfl
  hierarchy := .refl _
  sitesOf _ _ := rfl
  inside _ _ h := nomatch h

variable (hr : Without only gone w w₀)
include hr

theorem onObjects (ho : Objects only (absent gone) w' w₀') (hsites : w'.sites = w.sites) (hsites₀ : w₀'.sites = w₀.sites)
    (hstores : ∀ s, w.stores s → w'.stores s) : Without only gone w' w₀' where
  toObjects := ho
  sitesOf u hu := by
    rw [World.sitesOf, hsites₀, World.sitesOf, hsites]
    exact hr.sitesOf u hu
  inside t s h := by
    obtain ⟨hsite, hs⟩ := hr.inside t s h
    refine ⟨?_, hstores s hs⟩
    rw [World.sitesOf, hsites, World.sitesOf, hsites₀]
    exact hsite

theorem setQueue {q q₀ : Queue α} (hq : Queue.Without only (absent gone (.queue i)) q q₀) :
    Without only gone { w with queueList := w.queueList.set i q } { w₀ with queueList := w₀.queueList.set i q₀ } :=
  hr.onObjects (hr.toObjects.setQueue (fun _ _ => rfl) hq) rfl rfl fun _ hs =>
    stores_mono hs (Nat.le_of_eq List.length_set.symm) (Nat.le_refl _) (Nat.le_refl _)

theorem setStack {x x₀ : Stack α} (hx : Stack.Without only (absent gone (.stack i)) x x₀) :
    Without only gone { w with stackList := w.stackList.set i x } { w₀ with stackList := w₀.stackList.set i x₀ } :=
  hr.onObjects (hr.toObjects.setStack (fun _ _ => rfl) hx) rfl rfl fun _ hs =>
    stores_mono hs (Nat.le_refl _) (Nat.le_of_eq List.length_set.symm) (Nat.le_refl _)

theorem setCache {k k₀ : Cache String α} (hk : Cache.Without only (absent gone (.cache i)) k k₀) :
    Without only gone { w with cacheList := w.cacheList.set i k } { w₀ with cacheList := w₀.cacheList.set i k₀ } :=
  hr.onObjects (hr.toObjects.setCache (fun _ _ => rfl) hk) rfl rfl fun _ hs =>
    stores_mono hs (Nat.le_refl _) (Nat.le_refl _) (Nat.le_of_eq List.length_set.symm)

theorem setCells (cells : Cells α) : Without only gone { w with cells } { w₀ with cells } :=
  hr.onObjects ⟨hr.queueAt, hr.stackAt, hr.cacheAt, rfl, hr.hierarchy⟩ rfl rfl fun _ hs =>
    stores_mono hs (Nat.le_refl _) (Nat.le_refl _) (Nat.le_refl _)

theorem setHierarchy {h h₀ : Hierarchy α} (hh : Hierarchy.Without only (absent gone .hierarchy) h h₀) :
    Without only gone { w with hierarchy := h } { w₀ with hierarchy := h₀ } :=
  hr.onObjects (hr.toObjects.setHierarchy (fun _ _ => rfl) hh) rfl rfl fun _ hs =>
    stores_mono hs (Nat.le_refl _) (Nat.le_refl _) (Nat.le_refl _)

/-- The call is not on an object that is still to be made. -/
theorem absent_of_not_stores (hs : ¬ w.stores s) : absent gone s = none := by
  cases gone with
  | none => rfl
  | some g =>
    obtain ⟨t, s'⟩ := g
    exact absent_of_ne t fun he => hs (he ▸ (hr.inside t s' rfl).2)

theorem addQueue (q : Queue α) : Without only gone (w.addQueue q).1 (w₀.addQueue q).1 := by
  refine hr.onObjects ⟨?_, hr.stackAt, hr.cacheAt, hr.cells, hr.hierarchy⟩ rfl rfl fun _ hs =>
    stores_mono hs (by simp [World.addQueue]) (Nat.le_refl _) (Nat.le_refl _)
  refine rel_append hr.queueAt ?_
  rw [hr.absent_of_not_stores (Nat.lt_irrefl _)]
  exact .same q

theorem addStack (x : Stack α) : Without only gone (w.addStack x).1 (w₀.addStack x).1 := by
  refine hr.onObjects ⟨hr.queueAt, ?_, hr.cacheAt, hr.cells, hr.hierarchy⟩ rfl rfl fun _ hs =>
    stores_mono hs (Nat.le_refl _) (by simp [World.addStack]) (Nat.le_refl _)
  refine rel_append hr.stackAt ?_
  rw [hr.absent_of_not_stores (Nat.lt_irrefl _)]
  exact .same x

theorem addCache (k : Cache String α) : Without only gone (w.addCache k).1 (w₀.addCache k).1 := by
  refine hr.onObjects ⟨hr.queueAt, hr.stackAt, ?_, hr.cells, hr.hierarchy⟩ rfl rfl fun _ hs =>
    stores_mono hs (Nat.le_refl _) (Nat.le_refl _) (by simp [World.addCache])
  refine rel_append hr.cacheAt ?_
  rw [hr.absent_of_not_stores (Nat.lt_irrefl _)]
  exact .same k

theorem gripped? (g : Grip α) : w₀.gripped? g = w.gripped? g := by
  cases g with
  | top v => rfl
  | entry v => rfl
  | cell i => rw [World.gripped?, hr.cells, World.gripped?]
  | lock l => exact hr.hierarchy.contents.element? l

theorem setGripped (g : Grip α) (v : α) : Without only gone (w.setGripped g v) (w₀.setGripped g v) := by
  cases g with
  | top _ => exact hr
  | entry _ => exact hr
  | cell i =>
    rw [World.setGripped, World.setGripped, hr.cells]
    exact hr.setCells _
  | lock l => exact hr.setHierarchy (hr.hierarchy.setContent l _)

/-! ## Other threads -/

variable (hu : gone.map Prod.fst ≠ some u)
include hu

theorem relocate (ss : List Site) :
    Without only gone { w with sites := w.sites.insert u ss } { w₀ with sites := w₀.sites.insert u ss } where
  toObjects := hr.toObjects.relocate _ _
  sitesOf v hv := by
    have hsites := hr.sitesOf v hv
    simp only [World.sitesOf, Table.get?_insert] at hsites ⊢
    split
    · rfl
    · exact hsites
  inside t s h := by
    obtain ⟨hsite, hs⟩ := hr.inside t s h
    have hne : u ≠ t := fun he => hu (by rw [h, he, Option.map_some])
    refine ⟨?_, stores_mono hs (Nat.le_refl _) (Nat.le_refl _) (Nat.le_refl _)⟩
    simp only [World.sitesOf, Table.get?_insert, if_neg hne] at hsite ⊢
    exact hsite

theorem grip? : w₀.grip? u = w.grip? u := by
  unfold World.grip?
  rw [hr.sitesOf u hu]
  match w.sitesOf u with
  | [] => rfl
  | .queue _ :: _ => rfl
  | .stack i :: _ => exact bind_eq_of_rel (hr.stackAt i) fun s s₀ hs => by rw [hs.top? (absent_ne hu _)]
  | .cache i :: _ => exact bind_eq_of_rel (hr.cacheAt i) fun k k₀ hk => by rw [hk.seen? (absent_ne hu _)]
  | .cells :: _ => simp only [hr.cells]
  | .hierarchy :: _ => simp only [hr.hierarchy.visited? (absent_ne hu _)]

theorem isFree : w₀.isFree u = w.isFree u := by rw [World.isFree, hr.sitesOf u hu, hr.grip? hu, World.isFree]

theorem answer? : w₀.answer? u = w.answer? u := by
  unfold World.answer?
  rw [hr.sitesOf u hu]
  match w.sitesOf u with
  | [] => rfl
  | .queue i :: _ => exact bind_eq_of_rel (hr.queueAt i) fun q q₀ hq => by rw [hq.answer? (absent_ne hu _)]
  | .stack i :: _ => exact bind_eq_of_rel (hr.stackAt i) fun s s₀ hs => by rw [hs.answer? (absent_ne hu _)]
  | .cache i :: _ => exact bind_eq_of_rel (hr.cacheAt i) fun k k₀ hk => by rw [hk.answer? (absent_ne hu _)]
  | .cells :: _ => simp only [hr.cells]
  | .hierarchy :: _ => simp only [hr.hierarchy.answer? (absent_ne hu _)]

theorem start? (c : Call α) : Follows (Without only gone) (w.start? u c) (w₀.start? u c) := by
  unfold World.start?
  rw [hr.isFree hu]
  refine follows_bind (follows_of_rel (rel_guard _)) fun _ _ _ _ => ?_
  have entered {w₁ w₁₀ : World α} (h₁ : Without only gone w₁ w₁₀) : Follows (Without only gone)
      (some { w₁ with sites := w₁.sites.insert u (c.site :: w₁.sitesOf u) })
      (some { w₁₀ with sites := w₁₀.sites.insert u (c.site :: w₁₀.sitesOf u) }) := by
    rw [h₁.sitesOf u hu]
    exact follows_some (h₁.relocate hu _)
  cases c with
  | queue i r =>
    refine follows_bind (follows_of_rel (hr.queueAt i)) fun q q₀ _ hq => ?_
    exact follows_bind (hq.start? (absent_ne hu _) r) fun _ _ _ hq₁ => entered (hr.setQueue hq₁)
  | stack i r =>
    refine follows_bind (follows_of_rel (hr.stackAt i)) fun s s₀ _ hs => ?_
    exact follows_bind (hs.start? (absent_ne hu _) r) fun _ _ _ hs₁ => entered (hr.setStack hs₁)
  | cache i r =>
    refine follows_bind (follows_of_rel (hr.cacheAt i)) fun k k₀ _ hk => ?_
    exact follows_bind (hk.start? (absent_ne hu _) r) fun _ _ _ hk₁ => entered (hr.setCache hk₁)
  | cells r =>
    rw [hr.cells]
    refine follows_bind (follows_of_rel (rel_refl _)) fun c _ _ hc => ?_
    subst hc
    exact entered (hr.setCells c)
  | hierarchy r =>
    exact follows_bind (hr.hierarchy.start? (absent_ne hu _) r) fun _ _ _ hh => entered (hr.setHierarchy hh)

theorem collect {a : Answer α} (ha : w.answer? u = some a) : Without only gone (w.collect u) (w₀.collect u) := by
  unfold World.answer? at ha
  unfold World.collect
  rw [hr.sitesOf u hu]
  match hs : w.sitesOf u with
  | [] => exact hr
  | .queue i :: outer =>
    rw [hs] at ha
    obtain ⟨q, hq, -⟩ := Option.bind_eq_some_iff.mp ha
    obtain ⟨q₀, hq₀, hqueue⟩ := follows_of_rel (hr.queueAt i) q hq
    have hcollected := (hr.setQueue (hqueue.collect (absent_ne hu _))).relocate hu outer
    rwa [← modify_eq_set hq (·.collect u), ← modify_eq_set hq₀ (·.collect u)] at hcollected
  | .stack i :: outer =>
    rw [hs] at ha
    obtain ⟨x, hx, -⟩ := Option.bind_eq_some_iff.mp ha
    obtain ⟨x₀, hx₀, hstack⟩ := follows_of_rel (hr.stackAt i) x hx
    have hcollected := (hr.setStack (hstack.collect (absent_ne hu _))).relocate hu outer
    rwa [← modify_eq_set hx (·.collect u), ← modify_eq_set hx₀ (·.collect u)] at hcollected
  | .cache i :: outer =>
    rw [hs] at ha
    obtain ⟨k, hk, -⟩ := Option.bind_eq_some_iff.mp ha
    obtain ⟨k₀, hk₀, hcache⟩ := follows_of_rel (hr.cacheAt i) k hk
    have hcollected := (hr.setCache (hcache.collect (absent_ne hu _))).relocate hu outer
    rwa [← modify_eq_set hk (·.collect u), ← modify_eq_set hk₀ (·.collect u)] at hcollected
  | .cells :: outer =>
    simp only [hr.cells]
    exact (hr.setCells (w.cells.collect u)).relocate hu outer
  | .hierarchy :: outer =>
    rw [hs] at ha
    obtain ⟨b, hb, -⟩ := Option.bind_eq_some_iff.mp ha
    exact (hr.setHierarchy (hr.hierarchy.collect (absent_ne hu _) hb)).relocate hu outer

theorem wake? : Follows (Without only gone) (w.wake? u) (w₀.wake? u) := by
  unfold World.wake?
  rw [hr.sitesOf u hu]
  split
  · refine follows_bind (follows_of_rel (hr.queueAt _)) fun q q₀ _ hq => ?_
    exact follows_bind (hq.wake? (absent_ne hu _)) fun _ _ _ hq₁ => follows_some (hr.setQueue hq₁)
  · exact follows_none _

variable (hsound : w.Sound)
include hsound

theorem step? [BEq α] (env : Environment) : Follows (Without only gone) (w.step? env u) (w₀.step? env u) := by
  unfold World.step?
  rw [hr.sitesOf u hu]
  match w.sitesOf u with
  | [] => exact follows_none _
  | .queue i :: _ =>
    refine follows_bind (follows_of_rel (hr.queueAt i)) fun q q₀ hq hqueue => ?_
    obtain ⟨init, hreach⟩ := hsound.queueAt i q hq
    exact follows_bind (hqueue.step? hreach.sound (absent_ne hu _) env) fun _ _ _ h₁ => follows_some (hr.setQueue h₁)
  | .stack i :: _ =>
    refine follows_bind (follows_of_rel (hr.stackAt i)) fun x x₀ hx hstack => ?_
    obtain ⟨init, hreach⟩ := hsound.stackAt i x hx
    exact follows_bind (hstack.step? hreach.sound (absent_ne hu _) env) fun _ _ _ h₁ => follows_some (hr.setStack h₁)
  | .cache i :: _ =>
    refine follows_bind (follows_of_rel (hr.cacheAt i)) fun k k₀ hk hcache => ?_
    obtain ⟨init, hreach⟩ := hsound.cacheAt i k hk
    exact follows_bind (hcache.step? hreach.sound (absent_ne hu _) env) fun _ _ _ h₁ => follows_some (hr.setCache h₁)
  | .cells :: _ =>
    rw [hr.cells]
    refine follows_bind (follows_of_rel (rel_refl _)) fun c _ _ hc => ?_
    subst hc
    exact follows_some (hr.setCells c)
  | .hierarchy :: _ =>
    exact follows_bind (hr.hierarchy.step? (absent_ne hu _) hsound.hierarchy env) fun _ _ _ h₁ =>
      follows_some (hr.setHierarchy h₁)

theorem end? (e : Ending α) : Follows (Without only gone) (w.end? u e) (w₀.end? u e) := by
  unfold World.end?
  rw [hr.sitesOf u hu]
  split
  · refine follows_bind (follows_of_rel (hr.stackAt _)) fun x x₀ hx hstack => ?_
    obtain ⟨init, hreach⟩ := hsound.stackAt _ x hx
    exact follows_bind (hstack.end? hreach.sound (absent_ne hu _) _) fun _ _ _ h₁ => follows_some (hr.setStack h₁)
  · refine follows_bind (follows_of_rel (hr.cacheAt _)) fun k k₀ _ hcache => ?_
    exact follows_bind (hcache.end? (absent_ne hu _) _) fun _ _ _ h₁ => follows_some (hr.setCache h₁)
  · rw [hr.cells]
    refine follows_bind (follows_of_rel (rel_refl _)) fun c _ _ hc => ?_
    subst hc
    exact follows_some (hr.setCells c)
  · exact follows_bind (hr.hierarchy.end? (absent_ne hu _) _) fun _ _ _ h₁ => follows_some (hr.setHierarchy h₁)
  · exact follows_none _

end Without

/-- A move of another thread, or of nobody. Nobody tries the lock of a directory, unless no call is gone. -/
theorem Without.move? [BEq α] (hr : Without only gone w w₀) (hsound : w.Sound) {m : Move α}
    (hm : ∀ u, m.thread? = some u → gone.map Prod.fst ≠ some u)
    (htry : ∀ u l aim, m = .perform u (.tryLock l aim) → gone = none ∨ ¬ w.hierarchy.IsRegistered l) :
    Follows (Without only gone) (w.move? m) (w₀.move? m) := by
  cases m with
  | addQueue items => exact follows_some (hr.addQueue _)
  | addStack items => exact follows_some (hr.addStack _)
  | addCache => exact follows_some (hr.addCache _)
  | addCell v =>
    simp only [World.move?, World.addCell, hr.cells]
    exact follows_some (hr.setCells _)
  | addLock rank v => exact follows_some (hr.setHierarchy (hr.hierarchy.addLock rank v))
  | addRegistry d e => exact follows_some (hr.setHierarchy (hr.hierarchy.addRegistry d e))
  | start u c => exact hr.start? (hm u rfl) c
  | step u env => exact hr.step? (hm u rfl) hsound env
  | wake u => exact hr.wake? (hm u rfl)
  | finish u e => exact hr.end? (hm u rfl) hsound e
  | collect u =>
    simp only [World.move?, hr.answer? (hm u rfl)]
    cases ha : w.answer? u with
    | none => exact follows_none _
    | some a => exact follows_some (hr.collect (hm u rfl) ha)
  | look u =>
    simp only [World.move?, hr.grip? (hm u rfl)]
    exact follows_map (follows_of_rel (rel_refl _)) fun _ _ _ => hr
  | change u v =>
    simp only [World.move?, hr.grip? (hm u rfl)]
    exact follows_map (follows_of_rel (rel_refl _)) fun g _ hg => hg ▸ hr.setGripped g v
  | perform u d =>
    have hd (l : LockId) (aim : Hierarchy.Aim) (he : d = .tryLock l aim) :
        absent gone .hierarchy = none ∨ ¬ w.hierarchy.IsRegistered l := by
      rcases htry u l aim (he ▸ rfl) with hnone | hregistered
      · exact .inl (hnone ▸ rfl)
      · exact .inr hregistered
    have hdeed := hr.hierarchy.perform? (absent_ne (hm u rfl) _) hsound.hierarchy hd
    exact follows_map hdeed fun _ _ hx => hr.setHierarchy hx.1
  | leak u slot =>
    simp only [World.move?, hr.isFree (hm u rfl)]
    split
    · exact follows_some (hr.setHierarchy (hr.hierarchy.clearSlot (absent_ne (hm u rfl) _) slot))
    · exact follows_none _
  | read l =>
    simp only [World.move?, hr.hierarchy.contents.element?]
    exact follows_map (follows_of_rel (rel_refl _)) fun _ _ _ => hr
  | write l v =>
    simp only [World.move?, hr.hierarchy.contents.element?]
    exact follows_map (follows_of_rel (rel_refl _)) fun _ _ _ => hr.setHierarchy (hr.hierarchy.setContent l _)
  | ceiling u => exact follows_some hr
  | queuedWriters i => exact follows_map (follows_of_rel (hr.cacheAt i)) fun _ _ _ => hr

/-! ## The call itself -/

/-- The call is made in a world that has not had it before. -/
theorem Without.opened {c : Call α} (h : w.start? t c = some w') (hc : c.asksRoom only = true) :
    Without only (some (t, c.site)) w' w := by
  obtain ⟨w₁, ha, rfl⟩ := alters_start h
  have others (s : Site) (hs : s ≠ c.site) : absent (some (t, c.site)) s = absent none s := absent_of_ne t hs
  have opens (ho : Objects only (absent (some (t, c.site))) w₁ w) (hs : w₁.stores c.site) :
      Without only (some (t, c.site)) { w₁ with sites := w₁.sites.insert t (c.site :: w.sitesOf t) } w := by
    rw [ha.sites]
    refine ⟨ho.relocate _ w.sites, fun u hu => ?_, fun u s he => ?_⟩
    · have hne : t ≠ u := fun he => hu (congrArg some he)
      rw [World.sitesOf, World.sitesOf, Table.get?_insert, if_neg hne]
    · obtain ⟨rfl, rfl⟩ := Prod.mk.inj (Option.some.inj he)
      refine ⟨?_, stores_mono hs (Nat.le_refl _) (Nat.le_refl _) (Nat.le_refl _)⟩
      rw [World.sitesOf, Table.get?_insert, if_pos rfl]
      rfl
  have same : Objects only (absent none) w w := (Without.refl w).toObjects
  cases c with
  | queue i r =>
    cases ha with
    | @queue _ q q' _ hq hn hm =>
      obtain rfl := Option.some.inj hn
      have hopened : Queue.Without only (absent (some (t, .queue i)) (.queue i)) q' q := absent_self t _ ▸ .opened hm hc
      have objects := same.setQueue others hopened
      rw [set_self hq] at objects
      exact opens objects (lt_length_set hq _)
  | stack i r =>
    cases ha with
    | @stack _ x x' _ hx hn hm =>
      obtain rfl := Option.some.inj hn
      have hopened : Stack.Without only (absent (some (t, .stack i)) (.stack i)) x' x := absent_self t _ ▸ .opened hm hc
      have objects := same.setStack others hopened
      rw [set_self hx] at objects
      exact opens objects (lt_length_set hx _)
  | cache i r =>
    cases r with
    | change ch =>
      cases ha with
      | @cache _ k k' _ hk hn hm =>
        obtain rfl := Option.some.inj hn
        have hopened : Cache.Without only (absent (some (t, .cache i)) (.cache i)) k' k := absent_self t _ ▸ .opened hm hc
        have objects := same.setCache others hopened
        rw [set_self hk] at objects
        exact opens objects (lt_length_set hk _)
    | look l => cases hc
  | cells r => cases hc
  | hierarchy r =>
    cases r with
    | registry r i =>
      cases ha with
      | @hierarchy h' _ hn hm =>
        obtain rfl := Option.some.inj hn
        have hopened : Hierarchy.Without only (absent (some (t, .hierarchy)) .hierarchy) h' w.hierarchy :=
          absent_self t _ ▸ .opened hm hc
        exact opens (same.setHierarchy others hopened) trivial
    | _ => cases hc

/-- The call has an answer of another kind. -/
inductive Differs (only : Bool) (w : World α) (t : ThreadId) : Prop
  | queue {i : Nat} {outer : List Site} {q : Queue α} :
      w.sitesOf t = .queue i :: outer → w.queueList[i]? = some q → q.Differs only t → Differs only w t
  | stack {i : Nat} {outer : List Site} {s : Stack α} :
      w.sitesOf t = .stack i :: outer → w.stackList[i]? = some s → s.Differs only t → Differs only w t
  | cache {i : Nat} {outer : List Site} {k : Cache String α} :
      w.sitesOf t = .cache i :: outer → w.cacheList[i]? = some k → k.Differs only t → Differs only w t
  | hierarchy {outer : List Site} : w.sitesOf t = .hierarchy :: outer → w.hierarchy.Differs only t → Differs only w t

/-- A step of the call changes nothing without it, or the answer is of another kind. -/
theorem Without.own [BEq α] {env : Environment} (hr : Without only (some (t, s)) w w₀) (hsound : w.Sound)
    (h : w.step? env t = some w') : Without only (some (t, s)) w' w₀ ∨ w'.Differs only t := by
  obtain ⟨hsite, hstores⟩ := hr.inside t s rfl
  obtain ⟨s', hs', ha⟩ := alters_step h
  obtain rfl : s = s' := Option.some.inj ((congrArg List.head? hsite).symm.trans hs')
  cases ha with
  | @queue i q _ _ hq hn hm =>
    obtain rfl := Option.some.inj hn
    obtain ⟨q₀, hq₀, hqueue⟩ := follows_of_rel (hr.queueAt i) q hq
    rw [absent_self] at hqueue
    rcases hqueue.own hm with hqueue' | hdiffers
    · have hset := hr.setQueue (i := i) ((absent_self t (.queue i)).symm ▸ hqueue')
      rw [set_self hq₀] at hset
      exact .inl hset
    · exact .inr (.queue hsite (List.getElem?_set_self hstores) hdiffers)
  | @stack i x _ _ hx hn hm =>
    obtain rfl := Option.some.inj hn
    obtain ⟨x₀, hx₀, hstack⟩ := follows_of_rel (hr.stackAt i) x hx
    rw [absent_self] at hstack
    rcases hstack.own hm with hstack' | hdiffers
    · have hset := hr.setStack (i := i) ((absent_self t (.stack i)).symm ▸ hstack')
      rw [set_self hx₀] at hset
      exact .inl hset
    · exact .inr (.stack hsite (List.getElem?_set_self hstores) hdiffers)
  | @cache i k _ _ hk hn hm =>
    obtain rfl := Option.some.inj hn
    obtain ⟨k₀, hk₀, hcache⟩ := follows_of_rel (hr.cacheAt i) k hk
    rw [absent_self] at hcache
    rcases hcache.own hm with hcache' | hdiffers
    · have hset := hr.setCache (i := i) ((absent_self t (.cache i)).symm ▸ hcache')
      rw [set_self hk₀] at hset
      exact .inl hset
    · exact .inr (.cache hsite (List.getElem?_set_self hstores) hdiffers)
  | cells => exact hstores.elim
  | hierarchy hn hm =>
    obtain rfl := Option.some.inj hn
    have hlocks := hr.hierarchy
    rw [absent_self] at hlocks
    rcases hlocks.own hsound.hierarchy hm with hlocks' | hdiffers
    · exact .inl (hr.setHierarchy ((absent_self t .hierarchy).symm ▸ hlocks'))
    · exact .inr (.hierarchy hsite hdiffers)

/-- The answer is taken, and nothing is left of the call. -/
theorem Without.closed {a : Answer α} (hr : Without only (some (t, s)) w w₀) (ha : w.answer? t = some a) :
    Without only none (w.collect t) w₀ := by
  obtain ⟨hsite, hstores⟩ := hr.inside t s rfl
  have others (s' : Site) (hs : s' ≠ s) : absent none s' = absent (some (t, s)) s' := (absent_of_ne t hs).symm
  have closes {w₁ : World α} (ho : Objects only (absent none) w₁ w₀) :
      Without only none { w₁ with sites := w.sites.insert t (w₀.sitesOf t) } w₀ := by
    refine ⟨ho.relocate _ w₀.sites, fun u _ => ?_, nofun⟩
    by_cases hu : t = u
    · subst hu
      rw [World.sitesOf, World.sitesOf, Table.get?_insert, if_pos rfl]
      rfl
    · have hu' := hr.sitesOf u fun he => hu (Option.some.inj he)
      rw [hu', World.sitesOf, World.sitesOf, Table.get?_insert, if_neg hu]
  unfold World.answer? at ha
  unfold World.collect
  rw [hsite] at ha ⊢
  cases s with
  | queue i =>
    obtain ⟨q, hq, ha⟩ := Option.bind_eq_some_iff.mp ha
    obtain ⟨b, hb, -⟩ := Option.bind_eq_some_iff.mp ha
    obtain ⟨q₀, hq₀, hqueue⟩ := follows_of_rel (hr.queueAt i) q hq
    rw [absent_self] at hqueue
    obtain rfl := hqueue.closed hb
    have objects := hr.toObjects.setQueue others (.same (q.collect t))
    rw [set_self hq₀, ← modify_eq_set hq (·.collect t)] at objects
    exact closes objects
  | stack i =>
    obtain ⟨x, hx, ha⟩ := Option.bind_eq_some_iff.mp ha
    obtain ⟨b, hb, -⟩ := Option.bind_eq_some_iff.mp ha
    obtain ⟨x₀, hx₀, hstack⟩ := follows_of_rel (hr.stackAt i) x hx
    rw [absent_self] at hstack
    obtain rfl := hstack.closed hb
    have objects := hr.toObjects.setStack others (.same (x.collect t))
    rw [set_self hx₀, ← modify_eq_set hx (·.collect t)] at objects
    exact closes objects
  | cache i =>
    obtain ⟨k, hk, ha⟩ := Option.bind_eq_some_iff.mp ha
    obtain ⟨b, hb, -⟩ := Option.bind_eq_some_iff.mp ha
    obtain ⟨k₀, hk₀, hcache⟩ := follows_of_rel (hr.cacheAt i) k hk
    rw [absent_self] at hcache
    obtain rfl := hcache.closed hb
    have objects := hr.toObjects.setCache others (.same (k.collect t))
    rw [set_self hk₀, ← modify_eq_set hk (·.collect t)] at objects
    exact closes objects
  | cells => exact hstores.elim
  | hierarchy =>
    obtain ⟨b, hb, -⟩ := Option.bind_eq_some_iff.mp ha
    have hlocks := hr.hierarchy
    rw [absent_self] at hlocks
    exact closes (hr.toObjects.setHierarchy others (hlocks.closed hb))

/-! ## A call with another answer -/

namespace Differs

variable (hd : w.Differs only t) (hsound : w.Sound)
include hd

theorem answer {a : Answer α} (ha : w.answer? t = some a) : a.spares only = false := by
  unfold World.answer? at ha
  cases hd with
  | queue hs hq hd =>
    rw [hs] at ha
    obtain ⟨_, hq', ha⟩ := Option.bind_eq_some_iff.mp ha
    obtain rfl := Option.some.inj (hq.symm.trans hq')
    obtain ⟨b, hb, ha⟩ := Option.bind_eq_some_iff.mp ha
    obtain rfl := Option.some.inj ha
    exact hd.answer hb
  | stack hs hx hd =>
    rw [hs] at ha
    obtain ⟨_, hx', ha⟩ := Option.bind_eq_some_iff.mp ha
    obtain rfl := Option.some.inj (hx.symm.trans hx')
    obtain ⟨b, hb, ha⟩ := Option.bind_eq_some_iff.mp ha
    obtain rfl := Option.some.inj ha
    exact hd.answer hb
  | cache hs hk hd =>
    rw [hs] at ha
    obtain ⟨_, hk', ha⟩ := Option.bind_eq_some_iff.mp ha
    obtain rfl := Option.some.inj (hk.symm.trans hk')
    obtain ⟨b, hb, ha⟩ := Option.bind_eq_some_iff.mp ha
    obtain rfl := Option.some.inj ha
    exact hd.answer hb
  | hierarchy hs hd =>
    rw [hs] at ha
    obtain ⟨b, hb, ha⟩ := Option.bind_eq_some_iff.mp ha
    obtain rfl := Option.some.inj ha
    exact hd.answer hb

include hsound

theorem others {m : Move α} (he : Evolves m w w') (ht : m.thread? ≠ some t) : w'.Differs only t := by
  have hsites := he.sitesOf t ht
  cases hd with
  | queue hs hq hd =>
    obtain ⟨q', hq', rfl | ⟨n, hn, hm⟩⟩ := (he.queueAt _).there hq
    · exact .queue (hsites.trans hs) hq' hd
    · obtain ⟨init, hreach⟩ := hsound.queueAt _ _ hq
      refine .queue (hsites.trans hs) hq' (hd.move hreach.sound hm ?_)
      rintro rfl
      exact ht hn.symm
  | stack hs hx hd =>
    obtain ⟨x', hx', rfl | ⟨n, hn, hm⟩⟩ := (he.stackAt _).there hx
    · exact .stack (hsites.trans hs) hx' hd
    · refine .stack (hsites.trans hs) hx' (hd.move hm ?_)
      rintro rfl
      exact ht hn.symm
  | cache hs hk hd =>
    obtain ⟨k', hk', rfl | ⟨n, hn, hm⟩⟩ := (he.cacheAt _).there hk
    · exact .cache (hsites.trans hs) hk' hd
    · refine .cache (hsites.trans hs) hk' (hd.move hm ?_)
      rintro rfl
      exact ht hn.symm
  | hierarchy hs hd => exact .hierarchy (hsites.trans hs) (hd.others (he.hierarchy.current? hsound.hierarchy ht))

theorem own [BEq α] {env : Environment} (h : w.step? env t = some w') : w'.Differs only t := by
  obtain ⟨s, hs', ha⟩ := alters_step h
  cases hd with
  | queue hs hq hd =>
    obtain rfl := Option.some.inj ((congrArg List.head? hs).symm.trans hs')
    cases ha with
    | queue hthere hn hm =>
      obtain rfl := Option.some.inj (hq.symm.trans hthere)
      obtain rfl := Option.some.inj hn
      obtain ⟨init, hreach⟩ := hsound.queueAt _ _ hq
      have hdiffers := hd.move hreach.sound hm nofun
      exact .queue hs (List.getElem?_set_self (List.getElem?_eq_some_iff.mp hq).1) hdiffers
  | stack hs hx hd =>
    obtain rfl := Option.some.inj ((congrArg List.head? hs).symm.trans hs')
    cases ha with
    | stack hthere hn hm =>
      obtain rfl := Option.some.inj (hx.symm.trans hthere)
      obtain rfl := Option.some.inj hn
      exact .stack hs (List.getElem?_set_self (List.getElem?_eq_some_iff.mp hx).1) (hd.move hm nofun)
  | cache hs hk hd =>
    obtain rfl := Option.some.inj ((congrArg List.head? hs).symm.trans hs')
    cases ha with
    | cache hthere hn hm =>
      obtain rfl := Option.some.inj (hk.symm.trans hthere)
      obtain rfl := Option.some.inj hn
      exact .cache hs (List.getElem?_set_self (List.getElem?_eq_some_iff.mp hk).1) (hd.move hm nofun)
  | hierarchy hs hd =>
    obtain rfl := Option.some.inj ((congrArg List.head? hs).symm.trans hs')
    cases ha with
    | hierarchy hn hm =>
      obtain rfl := Option.some.inj hn
      exact .hierarchy hs (hd.own hm)

end Differs

end

end Interlock.World
