import Interlock.World
import Interlock.Proofs.Panic.Objects
import Interlock.Proofs.Panic.Locks

/-!
# Worlds after a panic

A `Move` is whatever somebody can do in a world, and `report?` what he learns from it. Two worlds are alike if all
their objects are, where one thread may be marked. Its innermost call is then about to end, and may answer differently
in the two worlds. Alike worlds admit the same moves, which lead to alike worlds and report the same; only the answer
of the marked call can differ, and when it is taken the mark is gone.
-/

namespace Interlock.World

variable {α : Type} {mark mark' : Option ThreadId} {t u : ThreadId}

/-! ## Moves -/

inductive Move (α : Type) where
  | addQueue (items : List α)
  | addStack (items : List α)
  | addCache
  | addCell (v : α)
  | addLock (rank : Rank) (v : α)
  | addRegistry (directoryRank entryRank : Rank)
  | start (t : ThreadId) (c : Call α)
  | step (t : ThreadId) (env : Environment)
  | wake (t : ThreadId)
  | finish (t : ThreadId) (e : Ending α)
  | collect (t : ThreadId)
  /-- In a callback a thread looks at what it has in hand. -/
  | look (t : ThreadId)
  | change (t : ThreadId) (v : α)
  | perform (t : ThreadId) (d : Hierarchy.Deed)
  /-- A thread loses what is in a slot without dropping it. -/
  | leak (t : ThreadId) (slot : String)
  /-- An element is read through a guard of its lock, or by somebody who has the lock to himself. -/
  | read (l : LockId)
  | write (l : LockId) (v : α)
  | ceiling (t : ThreadId)
  | queuedWriters (i : Nat)

def move? [BEq α] (w : World α) : Move α → Option (World α)
  | .addQueue items => some (w.addQueue (.ofList items)).1
  | .addStack items => some (w.addStack (.ofList items)).1
  | .addCache => some (w.addCache {}).1
  | .addCell v => some (w.addCell v).1
  | .addLock rank v => some (w.addLock rank v).1
  | .addRegistry directoryRank entryRank => some (w.addRegistry directoryRank entryRank).1
  | .start t c => w.start? t c
  | .step t env => w.step? env t
  | .wake t => w.wake? t
  | .finish t e => w.end? t e
  | .collect t => (w.answer? t).map fun _ => w.collect t
  | .look t => (w.grip? t).map fun _ => w
  | .change t v => (w.grip? t).map fun g => w.setGripped g v
  | .perform t d => (w.hierarchy.perform? t d).map fun (hierarchy, _) => { w with hierarchy }
  | .leak t slot => if w.isFree t then some { w with hierarchy := w.hierarchy.clearSlot t slot } else none
  | .read l => (w.hierarchy.element? l).map fun _ => w
  | .write l v =>
    (w.hierarchy.element? l).map fun _ => { w with hierarchy := w.hierarchy.setContent l (.element v) }
  | .ceiling _ => some w
  | .queuedWriters i => (w.cacheList[i]?).map fun _ => w

inductive Report (α : Type) where
  | answer (a : Answer α)
  | outcome (o : Hierarchy.Outcome)
  | value (v : Option α)
  | ceiling (r : Rank)
  | count (n : UInt64)

def report? (w : World α) : Move α → Option (Report α)
  | .collect t => (w.answer? t).map .answer
  | .look t => (w.grip? t).map fun g => .value (w.gripped? g)
  | .perform t d => (w.hierarchy.perform? t d).map fun (_, o) => .outcome o
  | .read l => some (.value (w.hierarchy.element? l))
  | .ceiling t => some (.ceiling (w.hierarchy.ceiling t))
  | .queuedWriters i => (w.cacheList[i]?).map fun k => .count k.queuedWriters
  | _ => none

/-! ## Marks -/

/-- The thread whose innermost call is about to end differently, if that call is on this object. -/
def apart (w : World α) (mark : Option ThreadId) (s : Site) : Option ThreadId :=
  mark.filter fun t => (w.sitesOf t).head? = some s

/-- An object there on which a callback can run. -/
def hosts (w : World α) : Site → Prop
  | .queue _ => False
  | .stack i => i < w.stackList.length
  | .cache i => i < w.cacheList.length
  | _ => True

/-- The same objects with the same contents, held by the same threads, with the same guards, ceilings and queued
writers, and the same calls but for what the marked thread is answered. -/
structure Alike (mark : Option ThreadId) (w w' : World α) : Prop where
  queues : w'.queueList = w.queueList
  stackAt : ∀ i, Option.Rel (Stack.Alike (w.apart mark (.stack i))) w.stackList[i]? w'.stackList[i]?
  cacheAt : ∀ i, Option.Rel (Cache.Alike (w.apart mark (.cache i))) w.cacheList[i]? w'.cacheList[i]?
  cells : Cells.Alike (w.apart mark .cells) w.cells w'.cells
  hierarchy : Hierarchy.Alike (w.apart mark .hierarchy) w.hierarchy w'.hierarchy
  sites : w'.sites = w.sites
  inside : ∀ t, mark = some t → ∃ s outer, w.sitesOf t = s :: outer ∧ w.hosts s

/-- The marks of two states differ at most at one object, which the second mark can be at. -/
structure Shifts (w : World α) (mark mark' : Option ThreadId) (s : Site) : Prop where
  others : ∀ s', s' ≠ s → w.apart mark s' = w.apart mark' s'
  inside : ∀ t, mark' = some t → ∃ s outer, w.sitesOf t = s :: outer ∧ w.hosts s

section
variable {w w' : World α} {s : Site} {outer : List Site}

theorem apart_some (w : World α) (t : ThreadId) (s : Site) :
    w.apart (some t) s = if (w.sitesOf t).head? = some s then some t else none := by
  simp [apart, Option.filter]

theorem apart_head (hs : w.sitesOf t = s :: outer) : w.apart (some t) s = some t := by
  rw [apart_some, hs, List.head?_cons, if_pos rfl]

theorem apart_of_ne (hs : w.sitesOf t = s :: outer) {s' : Site} (hne : s' ≠ s) : w.apart (some t) s' = none := by
  rw [apart_some, hs, List.head?_cons, if_neg fun he => hne (Option.some.inj he).symm]

theorem apart_ne (w : World α) (hu : mark ≠ some u) (s : Site) : w.apart mark s ≠ some u :=
  fun h => hu (Option.filter_eq_some_iff.mp h).1

theorem apart_insert (w : World α) (hu : mark ≠ some u) (ss : List Site) (s : Site) :
    ({ w with sites := w.sites.insert u ss } : World α).apart mark s = w.apart mark s := by
  cases mark with
  | none => rfl
  | some t =>
    have hne : u ≠ t := fun he => hu (he ▸ rfl)
    rw [apart_some, apart_some, sitesOf, Table.get?_insert, if_neg hne, sitesOf]

theorem hosts_mono {w₁ : World α} (hosts : w.hosts s) (hstack : w.stackList.length ≤ w₁.stackList.length)
    (hcache : w.cacheList.length ≤ w₁.cacheList.length) : w₁.hosts s := by
  cases s with
  | stack i => exact Nat.lt_of_lt_of_le hosts hstack
  | cache i => exact Nat.lt_of_lt_of_le hosts hcache
  | _ => exact hosts

theorem Shifts.part (hs : w.sitesOf t = s :: outer) (hosts : w.hosts s) : w.Shifts none (some t) s where
  others _ hne := (apart_of_ne hs hne).symm
  inside _ ht := Option.some.inj ht ▸ ⟨s, outer, hs, hosts⟩

theorem Shifts.close (hs : w.sitesOf t = s :: outer) : w.Shifts (some t) none s where
  others _ hne := apart_of_ne hs hne
  inside _ ht := nomatch ht

end

namespace Alike

variable {w w' : World α}

theorem refl (w : World α) : Alike none w w where
  queues := rfl
  stackAt i := by cases w.stackList[i]? with
    | none => exact .none
    | some s => exact .some (.refl s)
  cacheAt i := by cases w.cacheList[i]? with
    | none => exact .none
    | some k => exact .some (.refl k)
  cells := .refl _
  hierarchy := .refl _
  sites := rfl
  inside _ ht := nomatch ht

theorem stay (ha : Alike mark w w') (s : Site) : w.Shifts mark mark s := ⟨fun _ _ => rfl, ha.inside⟩

theorem sitesOf (ha : Alike mark w w') (t : ThreadId) : w'.sitesOf t = w.sitesOf t := by
  rw [World.sitesOf, ha.sites, World.sitesOf]

/-! ## What is the same -/

theorem grip? (ha : Alike mark w w') (u : ThreadId) : w'.grip? u = w.grip? u := by
  unfold World.grip?
  rw [ha.sitesOf]
  match w.sitesOf u with
  | [] => rfl
  | .queue _ :: _ => rfl
  | .stack i :: _ =>
    exact bind_eq_of_rel (ha.stackAt i) fun s s' hs => by rw [hs.top?]
  | .cache i :: _ =>
    exact bind_eq_of_rel (ha.cacheAt i) fun s s' hs => by rw [hs.seen?]
  | .cells :: _ => simp only [ha.cells.held?]
  | .hierarchy :: _ => simp only [ha.hierarchy.visited?]

theorem gripped? (ha : Alike mark w w') (g : Grip α) : w'.gripped? g = w.gripped? g := by
  cases g with
  | top v => rfl
  | entry v => rfl
  | cell i => exact ha.cells.value i
  | lock l => exact ha.hierarchy.agrees.element? l

theorem isFree (ha : Alike mark w w') (u : ThreadId) : w'.isFree u = w.isFree u := by
  rw [World.isFree, ha.sitesOf, ha.grip?, World.isFree]

/-- The marked call is past its callback. -/
theorem grip?_marked (ha : Alike (some t) w w') : w.grip? t = none := by
  obtain ⟨s, outer, hs, -⟩ := ha.inside t rfl
  rw [World.grip?, hs]
  cases s with
  | queue i => rfl
  | stack i =>
    have hr := ha.stackAt i
    rw [apart_head hs] at hr
    refine bind_none_of_rel hr fun k k' hk => ?_
    rw [hk.top?_marked.1]
    rfl
  | cache i =>
    have hr := ha.cacheAt i
    rw [apart_head hs] at hr
    refine bind_none_of_rel hr fun k k' hk => ?_
    rw [hk.seen?_marked.1]
    rfl
  | cells =>
    have hr := ha.cells
    rw [apart_head hs] at hr
    simp only [hr.held?_marked.1]
    rfl
  | hierarchy =>
    have hr := ha.hierarchy
    rw [apart_head hs] at hr
    simp only [hr.visited?_marked.1]
    rfl

/-- The mark is not at an object that is still to be made. -/
theorem apart_of_not_hosts (ha : Alike mark w w') {s : Site} (hs : ¬ w.hosts s) : w.apart mark s = none := by
  cases mark with
  | none => rfl
  | some t =>
    obtain ⟨s', outer, hs', hosts⟩ := ha.inside t rfl
    exact apart_of_ne hs' fun he => hs (he ▸ hosts)

theorem unmarked (ha : Alike mark w w') (hfree : w.isFree u = true) : mark ≠ some u := by
  rintro rfl
  obtain ⟨s, outer, hs, -⟩ := ha.inside u rfl
  rw [World.isFree, ha.grip?_marked, hs] at hfree
  cases hfree

theorem answer? (ha : Alike mark w w') (hu : mark ≠ some u) : w'.answer? u = w.answer? u := by
  unfold World.answer?
  rw [ha.sitesOf]
  match w.sitesOf u with
  | [] => rfl
  | .queue _ :: _ => simp only [ha.queues]
  | .stack i :: _ =>
    exact bind_eq_of_rel (ha.stackAt i) fun s s' hs => by rw [hs.answer? (w.apart_ne hu _)]
  | .cache i :: _ =>
    exact bind_eq_of_rel (ha.cacheAt i) fun s s' hs => by rw [hs.answer? (w.apart_ne hu _)]
  | .cells :: _ => simp only [ha.cells.answer? (w.apart_ne hu _)]
  | .hierarchy :: _ => simp only [ha.hierarchy.answer? (w.apart_ne hu _)]

/-! ## Changes of one object -/

/-- A thread that is not marked makes a call or takes an answer. -/
theorem relocate (ha : Alike mark w w') (hu : mark ≠ some u) (ss : List Site) :
    Alike mark { w with sites := w.sites.insert u ss } { w' with sites := w'.sites.insert u ss } where
  queues := ha.queues
  stackAt i := by
    rw [apart_insert w hu]
    exact ha.stackAt i
  cacheAt i := by
    rw [apart_insert w hu]
    exact ha.cacheAt i
  cells := by
    rw [apart_insert w hu]
    exact ha.cells
  hierarchy := by
    rw [apart_insert w hu]
    exact ha.hierarchy
  sites := congrArg (·.insert u ss) ha.sites
  inside t ht := by
    obtain ⟨s, outer, hs, hosts⟩ := ha.inside t ht
    have hne : u ≠ t := fun he => hu (he ▸ ht)
    refine ⟨s, outer, ?_, hosts⟩
    rw [World.sitesOf, Table.get?_insert, if_neg hne]
    exact hs

theorem onQueue (ha : Alike mark w w') (queueList : List (Queue α)) :
    Alike mark { w with queueList } { w' with queueList } :=
  ⟨rfl, ha.stackAt, ha.cacheAt, ha.cells, ha.hierarchy, ha.sites, ha.inside⟩

/-- Queues run no callbacks, so they are the same. -/
theorem moveQueue (ha : Alike mark w w') (i : Nat) (next? : Queue α → Option (Queue α)) :
    Option.Rel (Alike mark)
      (w.queueList[i]?.bind fun q => (next? q).bind fun q => some { w with queueList := w.queueList.set i q })
      (w'.queueList[i]?.bind fun q => (next? q).bind fun q => some { w' with queueList := w'.queueList.set i q }) := by
  rw [ha.queues]
  refine rel_bind (rel_refl _) fun q _ hq => ?_
  subst hq
  refine rel_bind (rel_refl _) fun q _ hq => ?_
  subst hq
  exact .some (ha.onQueue _)

theorem onStack (ha : Alike mark w w') {i : Nat} (hm : w.Shifts mark mark' (.stack i)) {f f' : Stack α → Stack α}
    (hf : ∀ s s', Stack.Alike (w.apart mark (.stack i)) s s' → Stack.Alike (w.apart mark' (.stack i)) (f s) (f' s')) :
    Alike mark' { w with stackList := w.stackList.modify i f } { w' with stackList := w'.stackList.modify i f' } where
  queues := ha.queues
  stackAt := rel_modify ha.stackAt hf fun j hj =>
    congrArg Stack.Alike (hm.others (.stack j) fun he => hj (Site.stack.inj he))
  cacheAt j := hm.others (.cache j) nofun ▸ ha.cacheAt j
  cells := hm.others .cells nofun ▸ ha.cells
  hierarchy := hm.others .hierarchy nofun ▸ ha.hierarchy
  sites := ha.sites
  inside t ht := by
    obtain ⟨s, outer, hs, hosts⟩ := hm.inside t ht
    exact ⟨s, outer, hs, hosts_mono hosts (Nat.le_of_eq (List.length_modify ..).symm) (Nat.le_refl _)⟩

theorem onCache (ha : Alike mark w w') {i : Nat} (hm : w.Shifts mark mark' (.cache i))
    {f f' : Cache String α → Cache String α}
    (hf : ∀ k k', Cache.Alike (w.apart mark (.cache i)) k k' → Cache.Alike (w.apart mark' (.cache i)) (f k) (f' k')) :
    Alike mark' { w with cacheList := w.cacheList.modify i f } { w' with cacheList := w'.cacheList.modify i f' } where
  queues := ha.queues
  stackAt j := hm.others (.stack j) nofun ▸ ha.stackAt j
  cacheAt := rel_modify ha.cacheAt hf fun j hj =>
    congrArg Cache.Alike (hm.others (.cache j) fun he => hj (Site.cache.inj he))
  cells := hm.others .cells nofun ▸ ha.cells
  hierarchy := hm.others .hierarchy nofun ▸ ha.hierarchy
  sites := ha.sites
  inside t ht := by
    obtain ⟨s, outer, hs, hosts⟩ := hm.inside t ht
    exact ⟨s, outer, hs, hosts_mono hosts (Nat.le_refl _) (Nat.le_of_eq (List.length_modify ..).symm)⟩

theorem onCells (ha : Alike mark w w') (hm : w.Shifts mark mark' .cells) {c c' : Cells α}
    (hc : Cells.Alike (w.apart mark' .cells) c c') : Alike mark' { w with cells := c } { w' with cells := c' } where
  queues := ha.queues
  stackAt j := hm.others (.stack j) nofun ▸ ha.stackAt j
  cacheAt j := hm.others (.cache j) nofun ▸ ha.cacheAt j
  cells := hc
  hierarchy := hm.others .hierarchy nofun ▸ ha.hierarchy
  sites := ha.sites
  inside := hm.inside

theorem onHierarchy (ha : Alike mark w w') (hm : w.Shifts mark mark' .hierarchy) {h h' : Hierarchy α}
    (hh : Hierarchy.Alike (w.apart mark' .hierarchy) h h') :
    Alike mark' { w with hierarchy := h } { w' with hierarchy := h' } where
  queues := ha.queues
  stackAt j := hm.others (.stack j) nofun ▸ ha.stackAt j
  cacheAt j := hm.others (.cache j) nofun ▸ ha.cacheAt j
  cells := hm.others .cells nofun ▸ ha.cells
  hierarchy := hh
  sites := ha.sites
  inside := hm.inside

theorem setStack (ha : Alike mark w w') {i : Nat} (hm : w.Shifts mark mark' (.stack i)) {s s' : Stack α}
    (hs : Stack.Alike (w.apart mark' (.stack i)) s s') :
    Alike mark' { w with stackList := w.stackList.set i s } { w' with stackList := w'.stackList.set i s' } := by
  rw [set_eq_modify, set_eq_modify]
  exact ha.onStack hm fun _ _ _ => hs

theorem setCache (ha : Alike mark w w') {i : Nat} (hm : w.Shifts mark mark' (.cache i)) {k k' : Cache String α}
    (hk : Cache.Alike (w.apart mark' (.cache i)) k k') :
    Alike mark' { w with cacheList := w.cacheList.set i k } { w' with cacheList := w'.cacheList.set i k' } := by
  rw [set_eq_modify, set_eq_modify]
  exact ha.onCache hm fun _ _ _ => hk

theorem setGripped (ha : Alike mark w w') (g : Grip α) (v : α) : Alike mark (w.setGripped g v) (w'.setGripped g v) := by
  cases g with
  | top _ => exact ha
  | entry _ => exact ha
  | cell i => exact ha.onCells (ha.stay _) (ha.cells.setValue i v)
  | lock l => exact ha.onHierarchy (ha.stay _) (ha.hierarchy.setContent l _)

theorem addStack (ha : Alike mark w w') (s : Stack α) : Alike mark (w.addStack s).1 (w'.addStack s).1 where
  queues := ha.queues
  stackAt := by
    refine rel_append ha.stackAt ?_
    show Stack.Alike (w.apart mark _) s s
    rw [ha.apart_of_not_hosts (Nat.lt_irrefl _)]
    exact .refl s
  cacheAt := ha.cacheAt
  cells := ha.cells
  hierarchy := ha.hierarchy
  sites := ha.sites
  inside t ht := by
    obtain ⟨site, outer, hs, hosts⟩ := ha.inside t ht
    exact ⟨site, outer, hs, hosts_mono hosts (by simp [World.addStack]) (Nat.le_refl _)⟩

theorem addCache (ha : Alike mark w w') (k : Cache String α) : Alike mark (w.addCache k).1 (w'.addCache k).1 where
  queues := ha.queues
  stackAt := ha.stackAt
  cacheAt := by
    refine rel_append ha.cacheAt ?_
    show Cache.Alike (w.apart mark _) k k
    rw [ha.apart_of_not_hosts (Nat.lt_irrefl _)]
    exact .refl k
  cells := ha.cells
  hierarchy := ha.hierarchy
  sites := ha.sites
  inside t ht := by
    obtain ⟨site, outer, hs, hosts⟩ := ha.inside t ht
    exact ⟨site, outer, hs, hosts_mono hosts (Nat.le_refl _) (by simp [World.addCache])⟩

/-! ## Calls -/

theorem start? (ha : Alike mark w w') (u : ThreadId) (c : Call α) :
    Option.Rel (Alike mark) (w.start? u c) (w'.start? u c) := by
  unfold World.start?
  rw [ha.isFree]
  refine rel_bind (rel_guard _) fun _ _ hfree => ?_
  -- a marked thread is past its callback and makes no calls
  have hu := ha.unmarked hfree
  have entered {w₁ w₁' : World α} (h₁ : Alike mark w₁ w₁') : Option.Rel (Alike mark)
      (some { w₁ with sites := w₁.sites.insert u (c.site :: w₁.sitesOf u) })
      (some { w₁' with sites := w₁'.sites.insert u (c.site :: w₁'.sitesOf u) }) := by
    rw [h₁.sitesOf]
    exact .some (h₁.relocate hu _)
  cases c with
  | queue i r =>
    simp only [ha.queues]
    refine rel_bind (rel_refl w.queueList[i]?) fun q _ hq => ?_
    subst hq
    refine rel_bind (rel_refl (q.start? u r)) fun q₁ _ hq₁ => ?_
    subst hq₁
    exact entered (ha.onQueue _)
  | stack i r =>
    refine rel_bind (ha.stackAt i) fun s s' hs => ?_
    exact rel_bind (hs.start? (w.apart_ne hu _) r) fun _ _ hs₁ => entered (ha.setStack (ha.stay _) hs₁)
  | cache i r =>
    refine rel_bind (ha.cacheAt i) fun k k' hk => ?_
    exact rel_bind (hk.start? (w.apart_ne hu _) r) fun _ _ hk₁ => entered (ha.setCache (ha.stay _) hk₁)
  | cells r =>
    exact rel_bind (ha.cells.start? (w.apart_ne hu _) r) fun _ _ hc => entered (ha.onCells (ha.stay _) hc)
  | hierarchy r =>
    exact rel_bind (ha.hierarchy.start? (w.apart_ne hu _) r) fun _ _ hh => entered (ha.onHierarchy (ha.stay _) hh)

theorem step? [BEq α] (ha : Alike mark w w') (u : ThreadId) (env : Environment) :
    Option.Rel (Alike mark) (w.step? env u) (w'.step? env u) := by
  unfold World.step?
  rw [ha.sitesOf]
  match w.sitesOf u with
  | [] => exact .none
  | .queue i :: _ => exact ha.moveQueue i fun q => q.step? env u
  | .stack i :: _ =>
    refine rel_bind (ha.stackAt i) fun s s' hs => ?_
    exact rel_bind (hs.step? u env) fun _ _ hs₁ => .some (ha.setStack (ha.stay _) hs₁)
  | .cache i :: _ =>
    refine rel_bind (ha.cacheAt i) fun k k' hk => ?_
    exact rel_bind (hk.step? u env) fun _ _ hk₁ => .some (ha.setCache (ha.stay _) hk₁)
  | .cells :: _ => exact rel_bind (ha.cells.step? u) fun _ _ hc => .some (ha.onCells (ha.stay _) hc)
  | .hierarchy :: _ => exact rel_bind (ha.hierarchy.step? u env) fun _ _ hh => .some (ha.onHierarchy (ha.stay _) hh)

theorem wake? (ha : Alike mark w w') (u : ThreadId) : Option.Rel (Alike mark) (w.wake? u) (w'.wake? u) := by
  unfold World.wake?
  rw [ha.sitesOf]
  split
  · exact ha.moveQueue _ fun q => q.wake? u
  · exact .none

theorem end? (ha : Alike mark w w') (u : ThreadId) (e : Ending α) :
    Option.Rel (Alike mark) (w.end? u e) (w'.end? u e) := by
  unfold World.end?
  rw [ha.sitesOf]
  split
  · refine rel_bind (ha.stackAt _) fun s s' hs => ?_
    exact rel_bind (hs.end? u _) fun _ _ hs₁ => .some (ha.setStack (ha.stay _) hs₁)
  · refine rel_bind (ha.cacheAt _) fun k k' hk => ?_
    exact rel_bind (hk.end? u _) fun _ _ hk₁ => .some (ha.setCache (ha.stay _) hk₁)
  · exact rel_bind (ha.cells.end? u _) fun _ _ hc => .some (ha.onCells (ha.stay _) hc)
  · exact rel_bind (ha.hierarchy.end? u _) fun _ _ hh => .some (ha.onHierarchy (ha.stay _) hh)
  · exact .none

theorem collect (ha : Alike mark w w') (hu : mark ≠ some u) : Alike mark (w.collect u) (w'.collect u) := by
  unfold World.collect
  rw [ha.sitesOf]
  match w.sitesOf u with
  | [] => exact ha
  | .queue i :: outer =>
    simp only [ha.queues]
    exact (ha.onQueue _).relocate hu outer
  | .stack i :: outer =>
    exact (ha.onStack (ha.stay _) fun _ _ hs => hs.collect (w.apart_ne hu _)).relocate hu outer
  | .cache i :: outer =>
    exact (ha.onCache (ha.stay _) fun _ _ hk => hk.collect (w.apart_ne hu _)).relocate hu outer
  | .cells :: outer =>
    exact (ha.onCells (ha.stay _) (ha.cells.collect (w.apart_ne hu _))).relocate hu outer
  | .hierarchy :: outer =>
    exact (ha.onHierarchy (ha.stay _) (ha.hierarchy.collect (w.apart_ne hu _))).relocate hu outer

/-! ## Where runs part and meet -/

/-- A callback ends in two ways. -/
theorem ended (ha : Alike none w w') (t : ThreadId) (e e' : Interlock.Ending) :
    Option.Rel (Alike (some t)) (w.end? t (.callback e)) (w'.end? t (.callback e')) := by
  unfold World.end?
  rw [ha.sitesOf]
  match hs : w.sitesOf t with
  | [] => exact .none
  | .queue i :: _ => exact .none
  | .stack i :: _ => exact .none
  | .cache i :: _ =>
    refine rel_bind (rel_lt (ha.cacheAt i)) fun k k' ⟨hk, hosts⟩ => ?_
    refine rel_bind (hk.ended t e e') fun k₁ k₁' hk₁ => .some (ha.setCache (.part hs hosts) ?_)
    rw [apart_head hs]
    exact hk₁
  | .cells :: _ =>
    refine rel_bind (ha.cells.ended t e e') fun c c' hc => .some (ha.onCells (.part hs trivial) ?_)
    rw [apart_head hs]
    exact hc
  | .hierarchy :: _ =>
    refine rel_bind (ha.hierarchy.ended t e e') fun h h' hh => .some (ha.onHierarchy (.part hs trivial) ?_)
    rw [apart_head hs]
    exact hh

/-- A builder fails in two ways. -/
theorem unbuilt (ha : Alike none w w') (t : ThreadId) {e e' : Stack.Ending α} (he : ∀ v, e ≠ .built v)
    (he' : ∀ v, e' ≠ .built v) :
    Option.Rel (Alike (some t)) (w.end? t (.builder e)) (w'.end? t (.builder e')) := by
  unfold World.end?
  rw [ha.sitesOf]
  match hs : w.sitesOf t with
  | .stack i :: _ =>
    refine rel_bind (rel_lt (ha.stackAt i)) fun s s' ⟨hk, hosts⟩ => ?_
    refine rel_bind (hk.unbuilt t he he') fun s₁ s₁' hs₁ => .some (ha.setStack (.part hs hosts) ?_)
    rw [apart_head hs]
    exact hs₁
  | [] => exact .none
  | .queue i :: _ => exact .none
  | .cache i :: _ => exact .none
  | .cells :: _ => exact .none
  | .hierarchy :: _ => exact .none

/-- Guards are dropped in a panic and without one. -/
theorem dropped (ha : Alike none w w') (t : ThreadId) (slots : List String) (panic panic' : Option String) :
    Option.Rel (Alike (some t)) (w.start? t (.hierarchy (.drop slots panic)))
      (w'.start? t (.hierarchy (.drop slots panic'))) := by
  unfold World.start?
  rw [ha.isFree]
  refine rel_bind (rel_guard _) fun _ _ _ => ?_
  refine rel_bind (ha.hierarchy.dropped t slots panic panic') fun h h' hh => ?_
  have moved := ha.relocate (u := t) nofun (.hierarchy :: w.sitesOf t)
  have hs : ({ w with sites := w.sites.insert t (.hierarchy :: w.sitesOf t) } : World α).sitesOf t =
      .hierarchy :: w.sitesOf t := by
    rw [World.sitesOf, Table.get?_insert, if_pos rfl]
    rfl
  have parted : Alike (some t)
      { w with hierarchy := h, sites := w.sites.insert t (.hierarchy :: w.sitesOf t) }
      { w' with hierarchy := h', sites := w'.sites.insert t (.hierarchy :: w'.sitesOf t) } := by
    rw [ha.sitesOf]
    exact moved.onHierarchy (.part hs trivial) (by rwa [apart_head hs])
  exact .some parted

/-- The marked call is answered, and all difference is gone. -/
theorem closed (ha : Alike (some t) w w') : Alike none (w.collect t) (w'.collect t) := by
  obtain ⟨s, outer, hs, hosts⟩ := ha.inside t rfl
  unfold World.collect
  rw [ha.sitesOf, hs]
  cases s with
  | queue i => exact hosts.elim
  | stack i =>
    refine (ha.onStack (.close hs) fun s s' h => ?_).relocate nofun outer
    rw [apart_head hs] at h
    exact h.closed
  | cache i =>
    refine (ha.onCache (.close hs) fun k k' h => ?_).relocate nofun outer
    rw [apart_head hs] at h
    exact h.closed
  | cells =>
    have h := ha.cells
    rw [apart_head hs] at h
    exact (ha.onCells (.close hs) h.closed).relocate nofun outer
  | hierarchy =>
    have h := ha.hierarchy
    rw [apart_head hs] at h
    exact (ha.onHierarchy (.close hs) h.closed).relocate nofun outer

theorem answered (ha : Alike (some t) w w') : Option.Rel (fun _ _ => True) (w.answer? t) (w'.answer? t) := by
  obtain ⟨s, outer, hs, hosts⟩ := ha.inside t rfl
  unfold World.answer?
  rw [ha.sitesOf, hs]
  cases s with
  | queue i => exact hosts.elim
  | stack i =>
    have h := ha.stackAt i
    rw [apart_head hs] at h
    exact rel_bind h fun _ _ h => rel_bind h.answered fun _ _ _ => .some trivial
  | cache i =>
    have h := ha.cacheAt i
    rw [apart_head hs] at h
    exact rel_bind h fun _ _ h => rel_bind h.answered fun _ _ _ => .some trivial
  | cells =>
    have h := ha.cells
    rw [apart_head hs] at h
    exact rel_bind h.answered fun _ _ _ => .some trivial
  | hierarchy =>
    have h := ha.hierarchy
    rw [apart_head hs] at h
    exact rel_bind h.answered fun _ _ _ => .some trivial

/-! ## One move in alike worlds -/

theorem move? [BEq α] (ha : Alike mark w w') (m : Move α) (hm : ∀ t, mark = some t → m ≠ .collect t) :
    Option.Rel (Alike mark) (w.move? m) (w'.move? m) := by
  cases m with
  | addQueue items =>
    simp only [World.move?, World.addQueue, ha.queues]
    exact .some (ha.onQueue _)
  | addStack items => exact .some (ha.addStack _)
  | addCache => exact .some (ha.addCache _)
  | addCell v => exact .some (ha.onCells (ha.stay _) (ha.cells.add v))
  | addLock rank v => exact .some (ha.onHierarchy (ha.stay _) (ha.hierarchy.addLock rank _))
  | addRegistry d e => exact .some (ha.onHierarchy (ha.stay _) (ha.hierarchy.addRegistry d e))
  | start u c => exact ha.start? u c
  | step u env => exact ha.step? u env
  | wake u => exact ha.wake? u
  | finish u e => exact ha.end? u e
  | collect u =>
    have hu : mark ≠ some u := fun he => hm u he rfl
    simp only [World.move?, ha.answer? hu]
    exact rel_map (rel_refl _) fun _ _ _ => ha.collect hu
  | look u =>
    simp only [World.move?, ha.grip?]
    exact rel_map (rel_refl _) fun _ _ _ => ha
  | change u v =>
    simp only [World.move?, ha.grip?]
    exact rel_map (rel_refl _) fun g _ hg => hg ▸ ha.setGripped g v
  | perform u d =>
    exact rel_map (ha.hierarchy.perform? u d) fun _ _ hh => ha.onHierarchy (ha.stay _) hh.1
  | leak u slot =>
    simp only [World.move?, ha.isFree]
    split
    · exact .some (ha.onHierarchy (ha.stay _) ((Hierarchy.Alike.slotwise u).clearSlot ha.hierarchy slot))
    · exact .none
  | read l =>
    simp only [World.move?, ha.hierarchy.agrees.element?]
    exact rel_map (rel_refl _) fun _ _ _ => ha
  | write l v =>
    simp only [World.move?, ha.hierarchy.agrees.element?]
    exact rel_map (rel_refl _) fun _ _ _ => ha.onHierarchy (ha.stay _) (ha.hierarchy.setContent l _)
  | ceiling u => exact .some ha
  | queuedWriters i => exact rel_map (ha.cacheAt i) fun _ _ _ => ha

theorem report? (ha : Alike mark w w') (m : Move α) (hm : ∀ t, mark = some t → m ≠ .collect t) :
    w'.report? m = w.report? m := by
  cases m with
  | collect u =>
    have hu : mark ≠ some u := fun he => hm u he rfl
    rw [World.report?, ha.answer? hu, World.report?]
  | look u => simp only [World.report?, ha.grip?, ha.gripped?]
  | perform u d =>
    have hr := ha.hierarchy.perform? u d
    rw [World.report?, World.report?]
    generalize w.hierarchy.perform? u d = o at hr ⊢
    generalize w'.hierarchy.perform? u d = o' at hr ⊢
    cases hr with
    | none => rfl
    | some hh => exact congrArg (fun x => some (Report.outcome x)) hh.2
  | read l => simp only [World.report?, ha.hierarchy.agrees.element?]
  | ceiling u => simp only [World.report?, ha.hierarchy.ceiling]
  | queuedWriters i =>
    have hr := ha.cacheAt i
    rw [World.report?, World.report?]
    generalize w.cacheList[i]? = o at hr ⊢
    generalize w'.cacheList[i]? = o' at hr ⊢
    cases hr with
    | none => rfl
    | some hk =>
      cases hk with
      | intro _ => rfl
  | _ => rfl

theorem rejoin [BEq α] (ha : Alike (some t) w w') :
    Option.Rel (Alike none) (w.move? (.collect t)) (w'.move? (.collect t)) :=
  rel_map ha.answered fun _ _ _ => ha.closed

end Alike

end Interlock.World
