import Interlock.Proofs.Hierarchy.BatchDrop
import Interlock.Proofs.Registry.Courses

/-!
# Locks around a callback

A call that shows an entry to a callback holds the directory and the entry until the callback is over, and then drops
both guards, the entry first. In between the callback does what it likes: it takes and releases locks, leaks them, and
makes calls with callbacks of their own. What lies further out than the entry it cannot release. So what it has released
it has taken itself, and what is left when it is over decides the rest: with nothing further in than the entry both
locks are released, and otherwise neither, for good.
-/

namespace Interlock.Hierarchy

variable {α : Type}

/-! ## Runs with valid registries -/

def Move.isBuilt (m : Move α) : Bool := (Work.move m).isBuilt

namespace Record

def build? (r : Record α) (m : Move α) : Option (Record α) := if m.isBuilt then r.next? m else none

def Built (r : Record α) : Prop := Leads build? {} r

/-- The moves that leave the thread inside more than `n` calls. -/
def underway? (t : ThreadId) (n : Nat) (r : Record α) (m : Move α) : Option (Record α) :=
  (r.build? m).filter fun r' => n < (r'.state.phases t).length

section
variable {r r' : Record α} {t : ThreadId} {n : Nat} {m : Move α} {ms : List (Move α)}

theorem build?_eq (hn : r.build? m = some r') : m.isBuilt = true ∧ r.next? m = some r' := by
  unfold build? at hn
  split at hn
  · rename_i hbuilt
    exact ⟨hbuilt, hn⟩
  · cases hn

theorem underway?_eq (hn : r.underway? t n m = some r') : r.build? m = some r' ∧ n < (r'.state.phases t).length := by
  obtain ⟨hn, hdepth⟩ := Option.filter_eq_some_iff.mp hn
  exact ⟨hn, of_decide_eq_true hdepth⟩

theorem Built.reachable (hr : r.Built) : r.Reachable := Leads.map id (fun _ _ _ hn => (build?_eq hn).2) hr

theorem Built.chronicle (hr : r.Built) : ∃ c : Chronicle α, c.Reachable ∧ c.state = r.state := by
  induction hr with
  | refl => exact ⟨{}, .refl, rfl⟩
  | tail m _ hn ih =>
    obtain ⟨c, hc, hstate⟩ := ih
    obtain ⟨hbuilt, hn⟩ := build?_eq hn
    obtain ⟨h', hm, rfl⟩ := Option.map_eq_some_iff.mp hn
    have hnext : ∃ c', c.next? (.move m) = some c' ∧ c'.state = h' := by
      have hm : c.ledger.state.move? m = some h' := by
        rw [← hm, ← hstate]
        rfl
      simp only [Chronicle.next?, show (Work.move m).isBuilt = true from hbuilt, if_true, Ledger.next?, Work.move?,
        Option.bind_some, hm, Option.map_some]
      exact ⟨_, rfl, rfl⟩
    obtain ⟨c', hc', hstate'⟩ := hnext
    exact ⟨c', hc.tail _ hc', hstate'⟩

theorem Built.housed (hr : r.Built) : r.state.Housed := by
  obtain ⟨c, hc, hstate⟩ := hr.chronicle
  exact hstate ▸ hc.sound.housed

end

end Record

/-! ## The calls of a thread -/

/-- What a call answers whose callback ends so, if it can drop its guards. -/
def answerOf : Ending → Answer α
  | .finished => .visited true
  | .panicked message => .panicked message

/-- What a move does to the calls of a thread: only the innermost can change, be made or be over. -/
inductive Moves (h h' : Hierarchy α) (t : ThreadId) : Prop
  | keep (same : h'.phases t = h.phases t)
  | start (q : Request α) (made : h'.phases t = .entering q :: h.phases t)
  | step (p p' : Phase α) (outer : List (Phase α)) (notVisiting : p.isVisiting = false)
      (before : h.phases t = p :: outer) (after : h'.phases t = p' :: outer)
  | finish (entry directory : Guard) (e : Ending) (outer : List (Phase α))
      (before : h.phases t = .visiting entry directory :: outer)
      (after : h'.phases t = .releasing [entry, directory] (answerOf e) :: outer)
  | collect (a : Answer α) (before : h.phases t = .returned a :: h'.phases t)

section
variable {h h' : Hierarchy α} {t : ThreadId} {m : Move α} {env : Environment}

theorem phases_step (hf : h.Furnished) (hs : h.step? env t = some h') : ∃ p p' outer, p.isVisiting = false ∧
    h.phases t = p :: outer ∧ h'.phases t = p' :: outer := by
  obtain ⟨p, hc⟩ : ∃ p, h.calls.current? t = some p := by
    cases hc : h.calls.current? t with
    | none => simp [step?, hc] at hs
    | some p => exact ⟨p, rfl⟩
  have hp := phases_eq_cons hc
  refine ⟨p, ?_⟩
  have hvisiting : p.isVisiting = false := by
    cases p with
    | visiting e d => simp [step?, hc] at hs
    | _ => rfl
  rcases step_cases hf.registries (hf.orderly _).directory hs with ⟨h₁, p', rfl, -, arranges⟩ | ⟨p', q, rfl, -⟩
  · have hp₁ : h₁.phases t = p :: (h.phases t).tail := by rw [phases, arranges.calls, ← phases, hp]; rfl
    exact ⟨p', _, hvisiting, hp, phases_into hp₁ p'⟩
  · exact ⟨p', _, hvisiting, hp, phases_into hp p'⟩

theorem Reachable.moves (hr : h.Reachable) (hm : h.move? m = some h') : h.Moves h' t := by
  by_cases ht : m.thread? = some t
  · cases moved hm with
    | @start u q _ _ =>
      obtain rfl := Option.some.inj ht
      exact .start q (phases_start ..)
    | @step u env _ hs =>
      obtain rfl := Option.some.inj ht
      obtain ⟨p, p', outer, hvisiting, before, after⟩ := phases_step hr.furnished hs
      exact .step p p' outer hvisiting before after
    | @finish u entry directory e hc =>
      obtain rfl := Option.some.inj ht
      have hp := phases_eq_cons hc
      refine .finish entry directory e _ hp ?_
      rw [phases_into hp]
      cases e <;> rfl
    | @collect u a hc =>
      obtain rfl := Option.some.inj ht
      have hp := phases_eq_cons hc
      have hp' : (h.collect u).phases u = (h.phases u).tail := by simp [phases, collect]
      exact .collect a (hp'.symm ▸ hp)
    | @perform u d x _ hd =>
      refine .keep ?_
      rw [phases, (arranges_attempt hd).calls, ← phases]
    | _ => exact .keep rfl
  · exact .keep (hr.others hm ht).2.2

end

/-- What is outstanding further out than a lock that a thread still holds stays so, and the lock with it. -/
theorem Record.Reachable.held_outside {r r' : Record α} {t : ThreadId} {m : Move α} (hr : r.Reachable)
    (hn : r.next? m = some r') {inner outer : List Guard} {x : Guard} (hheld : r.held t = inner ++ x :: outer)
    (hx : r'.state.holder? x.lock = some t) : ∃ inner', r'.held t = inner' ++ x :: outer := by
  have hr' : r'.Reachable := Leads.tail m hr hn
  cases hr.turn hn with
  | keep _ held => exact ⟨inner, (congrFun held t).trans hheld⟩
  | push u g _ _ _ held =>
    rw [held, Function.update_apply]
    split
    · rename_i hu
      subst hu
      exact ⟨g :: inner, by rw [hheld]; rfl⟩
    · exact ⟨inner, hheld⟩
  | pop u g gs _ top held =>
    by_cases hu : t = u
    · subst hu
      rw [held, Function.update_self]
      rw [hheld] at top
      cases inner with
      | nil =>
        -- the acquisition taken off would be that of the lock
        obtain ⟨rfl, rfl⟩ := List.cons.inj top
        have hnodup := (hr.sound.linked t).nodup
        rw [hheld, List.nil_append, List.map_cons, List.nodup_cons] at hnodup
        have hmem := (hr'.sound.holds t x.lock).mp hx
        rw [held, Function.update_self] at hmem
        exact absurd hmem hnodup.1
      | cons y inner => exact ⟨inner, (List.cons.inj top).2.symm⟩
    · exact ⟨inner, by rw [held, Function.update_of_ne hu, hheld]⟩

/-! ## How often a callback runs -/

/-- Whether the callback of that call runs which the thread has made inside `n` others. -/
def runsCallback (h : Hierarchy α) (t : ThreadId) (n : Nat) : Bool := (h.phases t).reverse[n]?.any Phase.isVisiting

/-- Whether it begins when the first state becomes the second. -/
def begins (h : Hierarchy α) (t : ThreadId) (n : Nat) (h' : Hierarchy α) : Nat :=
  if !h.runsCallback t n && h'.runsCallback t n then 1 else 0

/-- How often it begins in these moves. -/
def callbacks (h : Hierarchy α) (t : ThreadId) (n : Nat) : List (Move α) → Nat
  | [] => 0
  | m :: ms =>
    match h.move? m with
    | none => 0
    | some h' => h.begins t n h' + h'.callbacks t n ms

section
variable {h h' : Hierarchy α} {t : ThreadId} {p p' : Phase α} {inside outer : List (Phase α)}

theorem runsCallback_inside (hp : h.phases t = inside ++ p :: outer) :
    h.runsCallback t outer.length = p.isVisiting := by
  simp [runsCallback, hp, List.reverse_append, List.append_assoc]

theorem runsCallback_eq (hp : h.phases t = p :: outer) : h.runsCallback t outer.length = p.isVisiting := by
  simp [runsCallback, hp]

theorem begins_of_not (after : h'.phases t = p :: outer) (hp : p.isVisiting = false) :
    h.begins t outer.length h' = 0 := by
  simp [begins, runsCallback_eq after, hp]

theorem begins_of_runs (before : h.phases t = inside ++ p :: outer) (hp : p.isVisiting = true) :
    h.begins t outer.length h' = 0 := by
  simp [begins, runsCallback_inside before, hp]

theorem begins_of_start (before : h.phases t = p :: outer) (after : h'.phases t = p' :: outer)
    (hp : p.isVisiting = false) (hp' : p'.isVisiting = true) : h.begins t outer.length h' = 1 := by
  simp [begins, runsCallback_eq before, runsCallback_eq after, hp, hp']

end

theorem Record.callbacks_cons {r r' : Record α} {m : Move α} (hn : r.next? m = some r') (t : ThreadId) (n : Nat)
    (ms : List (Move α)) :
    r.state.callbacks t n (m :: ms) = r.state.begins t n r'.state + r'.state.callbacks t n ms := by
  obtain ⟨h', hm, rfl⟩ := Option.map_eq_some_iff.mp hn
  rw [callbacks, hm]

/-! ## A call of update -/

/-- A call of update: the thread that makes it, the registry with its ranks and the name, and what the thread held, its
ceiling and its other calls at that time. -/
structure Update (α : Type) where
  thread : ThreadId
  registry : RegistryId
  made : Registry
  rank : Rank
  name : String
  held : List Guard
  ceiling : Rank
  outer : List (Phase α)

namespace Update

def request (u : Update α) : Request α := .registry u.registry (.update u.name)

def directory (u : Update α) : Guard := ⟨u.made.directory, u.ceiling⟩

def entry (u : Update α) (l : LockId) : Guard := ⟨l, u.rank⟩

/-- What the call answers when the callback ends so and has left locks held, by the ceiling then. -/
def answerLeaking (u : Update α) (ceiling : Rank) : Ending → Answer α
  | .finished => .panicked (Violation.message ⟨.release, u.made.entryRank, ceiling⟩)
  | .panicked message => .panicked message

/-- The directory lies below the ceiling of the caller, which is that of what it held. -/
structure Sited (u : Update α) (h : Hierarchy α) : Prop where
  registry : h.registries[u.registry]? = some u.made
  known : ∀ g ∈ u.directory :: u.held, g.lock < h.locks.length
  rank : h.rank u.made.directory = u.rank
  below : u.rank < u.ceiling
  ceiling : h.innermost u.held = u.ceiling

end Update

namespace Record

/-- The call has still to get the directory. -/
structure Asks (r : Record α) (u : Update α) : Prop where
  phase : ∃ p, (p = .entering u.request ∨ p = .waiting u.made.directory u.ceiling
    (.inquire u.registry (.update u.name))) ∧ r.state.phases u.thread = p :: u.outer
  held : r.held u.thread = u.held
  ceiling : r.state.ceiling u.thread = u.ceiling

/-- The call has the directory and waits for the entry that the name is bound to. -/
structure Reaches (r : Record α) (u : Update α) (l : LockId) : Prop where
  bound : r.state.binding? u.registry u.name = some l
  phase : r.state.phases u.thread = .waiting l u.rank (.visit u.directory true) :: u.outer
  held : r.held u.thread = u.directory :: u.held

/-- The callback runs on the entry that the name is bound to, both locks are held, and what lies further in has been
taken since. -/
structure Visits (r : Record α) (u : Update α) (l : LockId) : Prop where
  bound : r.state.binding? u.registry u.name = some l
  phase : ∃ inside, r.state.phases u.thread = inside ++ .visiting (u.entry l) u.directory :: u.outer
  held : ∃ inner, r.held u.thread = inner ++ u.entry l :: u.directory :: u.held

/-- The thread is in the callback itself and in no call made from there, and these acquisitions lie further in than the
entry. -/
structure Attends (r : Record α) (u : Update α) (l : LockId) (inner : List Guard) : Prop where
  bound : r.state.binding? u.registry u.name = some l
  phase : r.state.phases u.thread = .visiting (u.entry l) u.directory :: u.outer
  held : r.held u.thread = inner ++ u.entry l :: u.directory :: u.held

/-- The callback has ended so, and both guards have still to be dropped. -/
structure Leaves (r : Record α) (u : Update α) (l : LockId) (inner : List Guard) (e : Ending) : Prop where
  rank : r.state.rank l = u.made.entryRank
  phase : r.state.phases u.thread = .releasing [u.entry l, u.directory] (answerOf e) :: u.outer
  held : r.held u.thread = inner ++ u.entry l :: u.directory :: u.held

/-- Where a call stands that has had the directory, by what it has found the name bound to. The number is how often the
callback has begun. -/
inductive Decided (r : Record α) (u : Update α) : Option LockId → Nat → Prop
  | absent {n : Nat} (dropping : r.Dropping u.thread u.outer (u.held, .visited false) n) : Decided r u none 0
  | reaching {l : LockId} (reaches : r.Reaches u l) : Decided r u (some l) 0
  | visiting {l : LockId} (visits : r.Visits u l) : Decided r u (some l) 1
  | ending {l : LockId} {goal : List Guard × Answer α} {n : Nat} (dropping : r.Dropping u.thread u.outer goal n) :
      Decided r u (some l) 1

end Record

section
variable {h h' : Hierarchy α} {u : Update α} {m : Move α} {r r' : Record α} {n k : Nat}

theorem Update.Sited.move (hs : u.Sited h) (hm : h.move? m = some h') : u.Sited h' where
  registry := registry_move hm hs.registry
  known g hg := known_move hm (hs.known g hg)
  rank := (rank_move hm (hs.known u.directory List.mem_cons_self)).trans hs.rank
  below := hs.below
  ceiling := (innermost_congr fun g hg => rank_move hm (hs.known g (List.mem_cons_of_mem _ hg))).trans hs.ceiling

/-- While a directory is locked what it binds stays. -/
theorem Update.Sited.bound (hs : u.Sited h) (hh : h.Housed) (hm : h.move? m = some h') {l : LockId}
    {t : ThreadId} (hheld : h.holder? u.made.directory = some t) (hb : h.binding? u.registry u.name = some l) :
    h'.binding? u.registry u.name = some l := by
  have hs' := hs.move hm
  rw [binding?, hs.registry, Option.bind_some] at hb
  rw [binding?, hs'.registry, Option.bind_some, names_move hm (hh.directories _ _ hs.registry) hheld, hb]

end

/-! ## The stages of the call -/

namespace Record

section
variable {r r' : Record α} {u : Update α} {t : ThreadId} {m : Move α} {env : Environment} {g : Guard} {l : LockId}
variable {n k : Nat} {p : Phase α} {inner : List Guard} {e : Ending} {known : Option LockId} {ms : List (Move α)}

/-- With the directory the call has an answer, or it waits for the entry. -/
theorem takes_directory (hr : r.Built) (hs : u.Sited r.state) (held : r.held u.thread = u.held)
    (phase : r.state.phases u.thread = .waiting u.made.directory u.ceiling (.inquire u.registry (.update u.name)) ::
      u.outer) (ceiling : r.state.ceiling u.thread = u.ceiling) (hn : r.next? (.step u.thread env) = some r') :
    r.state.binding? u.registry u.name = none ∧ r'.Dropping u.thread u.outer (u.held, .visited false) 2 ∨
      ∃ l, r.state.binding? u.registry u.name = some l ∧ r'.Reaches u l := by
  obtain ⟨hstep, hheld⟩ := next?_step hn
  obtain ⟨h₁, ha, hphase₁, hproceed⟩ := step?_waiting phase hstep
  obtain ⟨-, -, hregistries, hcontent⟩ := admit?_contents ha
  obtain ⟨-, -, hrank, -, hceiling, -⟩ := admit?_eq ha
  have hnames : h₁.names u.made.directory = r.state.names u.made.directory := by
    rw [names_eq, hcontent, names_eq]
  have hbinding : r.state.binding? u.registry u.name = (r.state.names u.made.directory).get? u.name := by
    rw [binding?, hs.registry, Option.bind_some]
  have hpush (h' : Hierarchy α) (hh : ∀ k, h'.holder? k = h₁.holder? k) :
      revise r.state h' u.thread (r.held u.thread) = u.directory :: u.held := by
    rw [hr.reachable.sound.held_admitted ha hh, held, ceiling, Update.directory]
  simp only [proceed, inquire, openEntry, hnames] at hproceed
  cases hl : (r.state.names u.made.directory).get? u.name with
  | none =>
    simp only [hl, if_true] at hproceed
    rw [hproceed] at hheld
    refine .inl ⟨hbinding.trans hl, .releasing (by rw [hproceed, phases_into hphase₁]) ?_⟩
    rw [hheld.trans (hpush _ fun _ => rfl)]
    exact afterDrop_head
  | some l =>
    have hbound := hbinding.trans hl
    have hcheck : h₁.checkAcquire u.thread l = .ok u.rank := by
      rw [checkAcquire, hceiling, if_pos rfl, hrank, hs.rank, if_neg]
      rw [← hs.rank]
      exact Nat.not_le_of_lt (hr.housed.rank_lt hs.registry hbound).1
    simp only [hl, approach, hcheck] at hproceed
    rw [hproceed] at hheld
    refine .inr ⟨l, hbound, ?_, by rw [hproceed, phases_into hphase₁]; rfl, hheld.trans (hpush _ fun _ => rfl)⟩
    rw [hproceed, ← hbound]
    show (h₁.registries[u.registry]?).bind _ = _
    rw [hregistries, binding?, hs.registry, Option.bind_some, Option.bind_some]
    exact congrArg (Table.get? · u.name) hnames

theorem Asks.step (ha : r.Asks u) (hr : r.Built) (hs : u.Sited r.state) (hn : r.next? (.step u.thread env) = some r') :
    r'.Asks u ∨
      r.state.binding? u.registry u.name = none ∧ r'.Dropping u.thread u.outer (u.held, .visited false) 2 ∨
        ∃ l, r.state.binding? u.registry u.name = some l ∧ r'.Reaches u l := by
  obtain ⟨⟨p, rfl | rfl, phase⟩, held, ceiling⟩ := ha
  · obtain ⟨hstep, hheld⟩ := next?_step hn
    have hcheck : r.state.checkAcquire u.thread u.made.directory = .ok u.ceiling := by
      rw [checkAcquire, ceiling, hs.rank, if_neg (Nat.not_le_of_lt hs.below)]
    simp only [step?, Calls.current?_eq_of_cons phase, Update.request, enter, hs.registry, approach, hcheck,
      Option.some.injEq] at hstep
    rw [← hstep] at hheld
    refine .inl ⟨⟨_, .inr rfl, by rw [← hstep, phases_into phase]⟩, ?_, by rw [← hstep]; exact ceiling⟩
    exact (hheld.trans (hr.reachable.sound.held_keep fun _ => rfl)).trans held
  · exact .inr (takes_directory hr hs held phase ceiling hn)

/-- With the entry the callback begins. -/
theorem Reaches.step (hc : r.Reaches u l) (hr : r.Built) (hs : u.Sited r.state)
    (hn : r.next? (.step u.thread env) = some r') : r'.Attends u l [] := by
  obtain ⟨bound, phase, held⟩ := hc
  obtain ⟨hstep, hheld⟩ := next?_step hn
  have hsound := hr.reachable.sound
  have hdirectory : r.state.holder? u.made.directory = some u.thread :=
    hsound.holder (g := u.directory) (held ▸ List.mem_cons_self)
  have hbound := hs.bound hr.housed (m := .step u.thread env) hstep hdirectory bound
  have hceiling : r.state.ceiling u.thread = u.rank := by
    rw [(hsound.linked u.thread).eq_innermost, held]
    exact hs.rank
  obtain ⟨h₁, ha, hphase₁, hproceed⟩ := step?_waiting phase hstep
  have hholder (k : LockId) : r'.state.holder? k = h₁.holder? k := by
    rw [hproceed]
    rfl
  have hpush := hsound.held_admitted ha hholder
  refine ⟨hbound, ?_, ?_⟩
  · rw [hproceed]
    exact phases_into hphase₁ _
  · rw [hheld, hpush, hceiling, held]
    rfl

theorem Attends.visits (ha : r.Attends u l inner) : r.Visits u l := ⟨ha.bound, ⟨[], ha.phase⟩, inner, ha.held⟩

/-- While the callback runs only what it has taken itself can be released. -/
theorem Visits.next (hv : r.Visits u l) (hr : r.Built) (hs : u.Sited r.state) (hn : r.next? m = some r') :
    r'.Visits u l ∨ ∃ inner e, r'.Leaves u l inner e := by
  obtain ⟨bound, ⟨inside, phase⟩, inner, held⟩ := hv
  obtain ⟨h', hm, hr'⟩ := Option.map_eq_some_iff.mp hn
  obtain rfl : h' = r'.state := congrArg Record.state hr'
  have hr₁ : r'.Reachable := Leads.tail m hr.reachable hn
  have hholder {g : Guard} (hg : g ∈ r.held u.thread) := hr.reachable.sound.holder hg
  have hbound := hs.bound hr.housed hm (hholder (g := u.directory) (held ▸ by simp)) bound
  have hrank : r'.state.rank l = u.made.entryRank :=
    (hr.reachable.state.rank_move hm (hholder (g := u.entry l) (held ▸ by simp))).trans
      (hr.housed.entries _ _ _ _ hs.registry bound).1
  have outside {p : Phase α} (hp : p ∈ r'.state.phases u.thread) (hentry : u.entry l ∈ p.guards) :=
    hr.reachable.held_outside hn held (hr₁.state.holder (mem_owned.mpr (.inr ⟨p, hp, hentry⟩)))
  have still (inside' : List (Phase α))
      (hphase : r'.state.phases u.thread = inside' ++ .visiting (u.entry l) u.directory :: u.outer) :
      r'.Visits u l := by
    refine ⟨hbound, ⟨inside', hphase⟩, outside (p := .visiting (u.entry l) u.directory) ?_ (by simp [Phase.guards])⟩
    rw [hphase]
    simp
  -- the call lies beneath whatever is called from the callback, so only the end of the callback changes it
  cases hr.reachable.state.moves (t := u.thread) hm with
  | keep same => exact .inl (still inside (same.trans phase))
  | start q made => exact .inl (still (.entering q :: inside) (by rw [made, phase]; rfl))
  | step p p' outer notVisiting before after =>
    rw [phase] at before
    cases inside with
    | nil =>
      cases before
      cases notVisiting
    | cons q inside =>
      cases before
      exact .inl (still (p' :: inside) after)
  | finish entry directory e outer before after =>
    rw [phase] at before
    cases inside with
    | nil =>
      cases before
      obtain ⟨inner', hheld⟩ := outside (by rw [after]; exact List.mem_cons_self) (by simp [Phase.guards])
      exact .inr ⟨inner', e, hrank, after, hheld⟩
    | cons q inside =>
      cases before
      exact .inl (still (_ :: inside) after)
  | collect a before =>
    rw [phase] at before
    cases inside with
    | nil => cases before
    | cons q inside => exact .inl (still inside (List.cons.inj before).2.symm)

/-! ## When the callback has ended -/

theorem Attends.finish (ha : r.Attends u l inner) (hr : r.Built) (hs : u.Sited r.state)
    (hn : r.next? (.finish u.thread e) = some r') :
    r'.Leaves u l inner e ∧ r'.state.ceiling u.thread = r.state.ceiling u.thread := by
  obtain ⟨bound, phase, held⟩ := ha
  obtain ⟨h', hm, rfl⟩ := Option.map_eq_some_iff.mp hn
  cases moved hm with
  | finish _ hc =>
    rw [Calls.current?_eq_of_cons phase] at hc
    cases hc
    refine ⟨⟨(hr.housed.entries _ _ _ _ hs.registry bound).1, ?_, ?_⟩, rfl⟩
    · rw [phases_into phase]
      cases e <;> rfl
    · exact (hr.reachable.sound.held_keep fun _ => rfl).trans held

/-- Nothing lies further in than the entry: both locks are released. -/
theorem Leaves.balanced (hl : r.Leaves u l [] e) : r.Dropping u.thread u.outer (u.held, answerOf e) 3 := by
  obtain ⟨-, phase, held⟩ := hl
  refine .releasing phase ?_
  rw [List.foldl_cons, List.foldl_cons, List.foldl_nil, held, List.nil_append, afterDrop_head, afterDrop_head]

theorem Leaves.other (hl : r.Leaves u l (g :: inner) e) (hr : r.Reachable) {x : Guard}
    (hx : x ∈ u.entry l :: u.directory :: u.held) : (r.held u.thread).head? ≠ some x := by
  have hnodup := (hr.sound.linked u.thread).nodup.of_map
  rw [hl.held, List.cons_append, List.nodup_cons] at hnodup
  rw [hl.held, List.cons_append, List.head?_cons]
  rintro he
  cases he
  exact hnodup.1 (List.mem_append_right _ hx)

/-- With a lock further in than the entry both drops are refused. -/
theorem Leaves.leaking (hl : r.Leaves u l (g :: inner) e) (hr : r.Reachable) :
    r.Dropping u.thread u.outer (r.held u.thread, u.answerLeaking (r.state.ceiling u.thread) e) 3 := by
  refine .releasing hl.phase ?_
  rw [List.foldl_cons, List.foldl_cons, List.foldl_nil, afterDrop_other (hl.other hr (by simp)),
    afterDrop_other (hl.other hr (by simp)), ← (hr.sound.linked u.thread).eq_innermost]
  have hrank : r.state.rank (u.entry l).lock = u.made.entryRank := hl.rank
  cases e with
  | finished => simp [answerOf, Update.answerLeaking, Answer.isPanic, hrank]
  | panicked message => simp [answerOf, Update.answerLeaking, Answer.isPanic]

theorem Leaves.ending (hl : r.Leaves u l inner e) (hr : r.Reachable) : r.Decided u (some l) 1 := by
  cases inner with
  | nil => exact .ending hl.balanced
  | cons g inner => exact .ending (hl.leaking hr)

/-! ## A whole call -/

theorem Dropping.phase {outer : List (Phase α)} {goal : List Guard × Answer α} (hd : r.Dropping t outer goal n) :
    ∃ p, p.isVisiting = false ∧ r.state.phases t = p :: outer := by
  cases hd with
  | entering _ phase _ => exact ⟨_, rfl, phase⟩
  | releasing phase _ => exact ⟨_, rfl, phase⟩
  | returned phase _ => exact ⟨_, rfl, phase⟩

theorem not_collect {outer : List (Phase α)} (phase : r.state.phases t = p :: outer)
    (hn : r.underway? t outer.length m = some r') : m ≠ .collect t := by
  rintro rfl
  obtain ⟨hn, hdepth⟩ := underway?_eq hn
  obtain ⟨h', hm, rfl⟩ := Option.map_eq_some_iff.mp (build?_eq hn).2
  cases moved hm with
  | collect _ =>
    have hphases : (r.state.collect t).phases t = outer := by
      have hphases : (r.state.collect t).phases t = (r.state.phases t).tail := by simp [phases, collect]
      rw [hphases, phase, List.tail_cons]
    exact Nat.lt_irrefl _ (hphases ▸ hdepth)

theorem Dropping.underway {outer : List (Phase α)} {goal : List Guard × Answer α} (hd : r.Dropping t outer goal n)
    (hr : r.Reachable) (hn : r.underway? t outer.length m = some r') : ∃ n', r'.Dropping t outer goal n' := by
  obtain ⟨p, -, phase⟩ := hd.phase
  have hms : run? next? r [m] = some r' := by
    rw [run?, (build?_eq (underway?_eq hn).1).2]
    rfl
  have hopen : .collect t ∉ [m] := by simpa using Ne.symm (not_collect phase hn)
  obtain ⟨n', hd', -⟩ := hd.run hr hms hopen
  exact ⟨n', hd'⟩

theorem Asks.next (ha : r.Asks u) (hr : r.Built) (hs : u.Sited r.state)
    (hn : r.underway? u.thread u.outer.length m = some r') :
    r'.Asks u ∨ (∃ env, m = .step u.thread env) ∧ r'.Decided u (r.state.binding? u.registry u.name) 0 := by
  obtain ⟨p, hp, phase⟩ := ha.phase
  have hn' := (build?_eq (underway?_eq hn).1).2
  obtain ⟨h', hm, hr'⟩ := Option.map_eq_some_iff.mp hn'
  by_cases ht : m.thread? = some u.thread
  · have hbusy : r.state.isFree u.thread = false := by
      rw [isFree, Calls.current?_eq_of_cons phase]
      rcases hp with rfl | rfl <;> rfl
    obtain ⟨env, rfl⟩ := own_step hm hbusy ht (not_collect phase hn)
    rcases ha.step hr hs hn' with ha' | ⟨hbinding, dropping⟩ | ⟨l, hbinding, reaches⟩
    · exact .inl ha'
    · exact .inr ⟨⟨env, rfl⟩, hbinding ▸ .absent dropping⟩
    · exact .inr ⟨⟨env, rfl⟩, hbinding ▸ .reaching reaches⟩
  · obtain ⟨hceiling, -, hphases⟩ := hr.reachable.state.others hm ht
    have hheld := hr.reachable.held_others hn' ht
    subst hr'
    exact .inl ⟨⟨p, hp, hphases.trans phase⟩, hheld.trans ha.held, hceiling.trans ha.ceiling⟩

theorem Decided.next (hd : r.Decided u known k) (hr : r.Built) (hs : u.Sited r.state)
    (hn : r.underway? u.thread u.outer.length m = some r') :
    r'.Decided u known (k + r.state.begins u.thread u.outer.length r'.state) := by
  have hn' := (build?_eq (underway?_eq hn).1).2
  have hr₁ : r'.Reachable := Leads.tail m hr.reachable hn'
  cases hd with
  | absent dropping =>
    obtain ⟨n', dropping'⟩ := dropping.underway hr.reachable hn
    obtain ⟨p, hp, phase⟩ := dropping'.phase
    rw [begins_of_not phase hp]
    exact .absent dropping'
  | @reaching l reaches =>
    obtain ⟨h', hm, hr'⟩ := Option.map_eq_some_iff.mp hn'
    by_cases ht : m.thread? = some u.thread
    · have hbusy : r.state.isFree u.thread = false := by rw [isFree, Calls.current?_eq_of_cons reaches.phase]
      obtain ⟨env, rfl⟩ := own_step hm hbusy ht (not_collect reaches.phase hn)
      have attends := reaches.step hr hs hn'
      rw [begins_of_start reaches.phase attends.phase rfl rfl]
      exact .visiting attends.visits
    · obtain ⟨-, -, hphases⟩ := hr.reachable.state.others hm ht
      have hheld := hr.reachable.held_others hn' ht
      have hdirectory : r.state.holder? u.made.directory = some u.thread :=
        hr.reachable.sound.holder (g := u.directory) (reaches.held ▸ List.mem_cons_self)
      have hbound := hs.bound hr.housed hm hdirectory reaches.bound
      subst hr'
      have phase := hphases.trans reaches.phase
      rw [begins_of_not phase rfl]
      exact .reaching ⟨hbound, phase, hheld.trans reaches.held⟩
  | @visiting l visits =>
    obtain ⟨inside, phase⟩ := visits.phase
    rw [begins_of_runs phase rfl]
    rcases visits.next hr hs hn' with visits' | ⟨inner, e, leaves⟩
    · exact .visiting visits'
    · exact leaves.ending hr₁
  | ending dropping =>
    obtain ⟨n', dropping'⟩ := dropping.underway hr.reachable hn
    obtain ⟨p, hp, phase⟩ := dropping'.phase
    rw [begins_of_not phase hp]
    exact .ending dropping'

theorem Asks.begins (ha : r.Asks u) {h : Hierarchy α} : h.begins u.thread u.outer.length r.state = 0 := by
  obtain ⟨p, hp, phase⟩ := ha.phase
  refine begins_of_not phase ?_
  rcases hp with rfl | rfl <;> rfl

theorem Decided.begins (hd : r.Decided u known k) (hk : k = 0) {h : Hierarchy α} :
    h.begins u.thread u.outer.length r.state = 0 := by
  cases hd with
  | absent dropping =>
    obtain ⟨p, hp, phase⟩ := dropping.phase
    exact begins_of_not phase hp
  | reaching reaches => exact begins_of_not reaches.phase rfl
  | visiting _ => cases hk
  | ending _ => cases hk

theorem Built.sited (hr : r.Built) (hs : u.Sited r.state) (hn : r.build? m = some r') :
    r'.Built ∧ u.Sited r'.state := by
  obtain ⟨h', hm, hr'⟩ := Option.map_eq_some_iff.mp (build?_eq hn).2
  subst hr'
  exact ⟨hr.tail m hn, hs.move hm⟩

theorem Built.sited_run {n : Nat} (hr : r.Built) (hs : u.Sited r.state)
    (hms : run? (underway? t n) r ms = some r') : r'.Built ∧ u.Sited r'.state := by
  induction ms generalizing r with
  | nil =>
    cases hms
    exact ⟨hr, hs⟩
  | cons m ms ih =>
    obtain ⟨r₁, hn, hms⟩ := Option.bind_eq_some_iff.mp hms
    obtain ⟨hr₁, hs₁⟩ := hr.sited hs (underway?_eq hn).1
    exact ih hr₁ hs₁ hms

theorem Decided.run (hd : r.Decided u known k) (hr : r.Built) (hs : u.Sited r.state)
    (hms : run? (underway? u.thread u.outer.length) r ms = some r') :
    r'.Decided u known (k + r.state.callbacks u.thread u.outer.length ms) := by
  induction ms generalizing r k with
  | nil =>
    cases hms
    exact hd
  | cons m ms ih =>
    obtain ⟨r₁, hn, hms⟩ := Option.bind_eq_some_iff.mp hms
    obtain ⟨hbuild, -⟩ := underway?_eq hn
    obtain ⟨hr₁, hs₁⟩ := hr.sited hs hbuild
    rw [callbacks_cons (build?_eq hbuild).2, ← Nat.add_assoc]
    exact ih (hd.next hr hs hn) hr₁ hs₁ hms

/-- The call has not had the directory yet, or it has taken it in one of these moves and found the name bound as it was
then. -/
theorem Asks.run (ha : r.Asks u) (hr : r.Built) (hs : u.Sited r.state)
    (hms : run? (underway? u.thread u.outer.length) r ms = some r') :
    r'.Asks u ∧ r.state.callbacks u.thread u.outer.length ms = 0 ∨
      ∃ before env after r₁, ms = before ++ .step u.thread env :: after ∧
        run? (underway? u.thread u.outer.length) r before = some r₁ ∧ r₁.Asks u ∧
          r'.Decided u (r₁.state.binding? u.registry u.name) (r.state.callbacks u.thread u.outer.length ms) := by
  induction ms generalizing r with
  | nil =>
    cases hms
    exact .inl ⟨ha, rfl⟩
  | cons m ms ih =>
    obtain ⟨r₁, hn, hrest⟩ := Option.bind_eq_some_iff.mp hms
    obtain ⟨hbuild, -⟩ := underway?_eq hn
    obtain ⟨hr₁, hs₁⟩ := hr.sited hs hbuild
    rw [callbacks_cons (build?_eq hbuild).2]
    rcases ha.next hr hs hn with ha₁ | ⟨⟨env, rfl⟩, hd⟩
    · rw [ha₁.begins, Nat.zero_add]
      refine (ih ha₁ hr₁ hs₁ hrest).imp_right ?_
      rintro ⟨before, env, after, r₂, rfl, hbefore, ha₂, hd⟩
      refine ⟨m :: before, env, after, r₂, rfl, ?_, ha₂, hd⟩
      rw [run?, hn]
      exact hbefore
    · refine .inr ⟨[], env, ms, r, rfl, rfl, ha, ?_⟩
      rw [hd.begins rfl]
      exact hd.run hr₁ hs₁ hrest

end

end Record

end Interlock.Hierarchy
