import Interlock.Proofs.History
import Interlock.Proofs.Cache.Exclusion

/-!
# What is taken down of the calls on the cache

A `Record` gives every call a ticket of its own when it is made, and takes down under this ticket that the call
took the gate and left it, that it got into shared or exclusive mode, what it was served there, and that it
left. A look is served when it gets into shared mode, a change when it changes the table. `Advance` says what a
move does to the calls under way and to the history.
-/

namespace Interlock.Cache

abbrev Ticket := Nat

inductive Milestone (κ α : Type) where
  | called (r : Request κ α)
  | gated
  | ungated
  /-- Has got into shared or exclusive mode. -/
  | entered
  | served (r : Request κ α) (a : Answer α)
  | left
  | returned (a : Answer α)

structure Mark (κ α : Type) where
  ticket : Ticket
  what : Milestone κ α

structure Record (κ α : Type) where
  state : Cache κ α
  /-- The tickets of the calls that a thread is inside, the innermost first. -/
  tickets : ThreadId → List Ticket := fun _ => []
  issued : Nat := 0
  history : List (Mark κ α) := []

variable {κ α : Type}

/-- What a call reaches in a step, given the phases before and after it and the map before it. -/
def milestones (m : κ → Option α) : Phase κ α → Phase κ α → List (Milestone κ α)
  | .arriving _, _ => [.gated]
  | .passing _, _ => [.ungated]
  | .admitted _, .visiting key => [.entered, .served (.look (.readWith key)) (.found (m key))]
  | .admitted l, .unsharing a => [.entered, .served (.look l) a]
  | .unsharing _, _ => [.left]
  | .queueing _, _ => [.gated]
  | .counted _, _ => [.entered]
  | .uncounted _, _ => [.ungated]
  | .changing ch, .readmitting a => [.served (.change ch) a]
  | .readmitting _, _ => [.left]
  | _, _ => []

def marks (n : Option Ticket) (ms : List (Milestone κ α)) : List (Mark κ α) :=
  n.toList.flatMap fun n => ms.map (Mark.mk n)

@[simp] theorem marks_some (n : Ticket) (ms : List (Milestone κ α)) : marks (some n) ms = ms.map (Mark.mk n) :=
  List.flatMap_singleton ..

/-- A move makes a call, takes it from one phase to another or ends it, and these are the milestones that the
call reaches by that. -/
inductive Stride [DecidableEq κ] (t : ThreadId) (c c' : Cache κ α) :
    Option (Phase κ α) → Option (Phase κ α) → List (Milestone κ α) → Prop
  | makes (req : Request κ α) : (∀ p, c.calls.current? t = some p → p.isVisiting = true) → c'.map = c.map →
      Stride t c c' none (some req.opening) [.called req]
  | turns {p p' : Phase κ α} {c₁ : Cache κ α} : c.calls.current? t = some p → Turn t c p p' c₁ → c' = c₁.into t p' →
      Stride t c c' (some p) (some p') (milestones c.map p p')
  | ends {key : κ} (e : Ending) : c.calls.current? t = some (.visiting key) → c'.map = c.map →
      Stride t c c' (some (.visiting key)) (some (.unsharing (ending e))) []
  | collects {a : Answer α} : c.calls.current? t = some (.returned a) → c'.map = c.map →
      Stride t c c' (some (.returned a)) none [.returned a]

namespace Record

/-- The calls that the thread is inside, under their tickets, the innermost first. -/
def stack (r : Record κ α) (t : ThreadId) : List (Ticket × Phase κ α) := (r.tickets t).zip (r.state.calls.of t)

/-- The thread is inside the call with this ticket, which is in this phase. -/
def Underway (r : Record κ α) (t : ThreadId) (n : Ticket) (p : Phase κ α) : Prop := (n, p) ∈ r.stack t

/-- Each call under way has one ticket, which no other call has or had. -/
structure Ticketed (r : Record κ α) : Prop where
  matched : ∀ t, (r.tickets t).length = (r.state.calls.of t).length
  fresh : ∀ t, ∀ n ∈ r.tickets t, n < r.issued
  distinct : ∀ t, (r.tickets t).Nodup
  apart : ∀ t u n, n ∈ r.tickets t → n ∈ r.tickets u → t = u

theorem ticketed_start (init : Table κ α) : Ticketed ({ state := { entries := init } } : Record κ α) where
  matched _ := rfl
  fresh _ := nofun
  distinct _ := .nil
  apart _ _ _ := nofun

/-! ## Calls under way -/

theorem eq_of_mem_zip {ns : List Ticket} {ps : List (Phase κ α)} {n : Ticket} {p q : Phase κ α} (hns : ns.Nodup)
    (hp : (n, p) ∈ ns.zip ps) (hq : (n, q) ∈ ns.zip ps) : p = q := by
  induction ns generalizing ps with
  | nil => cases hp
  | cons k ns ih =>
    obtain ⟨hk, hns⟩ := List.nodup_cons.mp hns
    cases ps with
    | nil => cases hp
    | cons p' ps =>
      rw [List.zip_cons_cons, List.mem_cons] at hp hq
      rcases hp with hp | hp
      · cases hp
        rcases hq with hq | hq
        · cases hq
          rfl
        · exact absurd (List.of_mem_zip hq).1 hk
      · rcases hq with hq | hq
        · cases hq
          exact absurd (List.of_mem_zip hp).1 hk
        · exact ih hns hp hq

section
variable {r r' : Record κ α} {t u : ThreadId} {n k : Ticket} {p q : Phase κ α}

theorem Underway.mem_tickets (h : r.Underway t n p) : n ∈ r.tickets t := (List.of_mem_zip h).1

theorem Underway.mem_of (h : r.Underway t n p) : p ∈ r.state.calls.of t := (List.of_mem_zip h).2

/-- A thread's innermost call becomes another one, or is made or over, and nothing else changes. -/
theorem underway_iff (before : Option (Phase κ α)) {after : Option (Phase κ α)} {outer : List (Ticket × Phase κ α)}
    (hbefore : r.stack t = before.toList.map (n, ·) ++ outer)
    (hafter : r'.stack t = after.toList.map (n, ·) ++ outer) (houter : ∀ q, (n, q) ∉ outer)
    (others : ∀ u, u ≠ t → r'.stack u = r.stack u) (helsewhere : ∀ u, u ≠ t → n ∉ r.tickets u) :
    r'.Underway u k q ↔ (r.Underway u k q ∧ k ≠ n) ∨ (u = t ∧ k = n ∧ after = some q) := by
  by_cases hu : u = t
  · subst hu
    rw [Underway, Underway, hafter, hbefore]
    by_cases hk : k = n
    · subst hk
      simp [houter]
    · simp [hk, Ne.symm hk]
  · have hne : r.Underway u k q → k ≠ n := by
      rintro h rfl
      exact helsewhere u hu h.mem_tickets
    rw [Underway, others u hu]
    simp only [hu, false_and, or_false]
    exact ⟨fun h => ⟨h, hne h⟩, And.left⟩

namespace Ticketed

variable (hr : r.Ticketed)
include hr

theorem unique (hp : r.Underway t n p) (hq : r.Underway u n q) : t = u ∧ p = q := by
  obtain rfl := hr.apart t u n hp.mem_tickets hq.mem_tickets
  exact ⟨rfl, eq_of_mem_zip (hr.distinct t) hp hq⟩

theorem lt_issued (hp : r.Underway t n p) : n < r.issued := hr.fresh t n hp.mem_tickets

theorem notMem_issued : r.issued ∉ r.tickets t := fun h => Nat.lt_irrefl _ (hr.fresh t _ h)

theorem tickets_eq_cons (hp : r.state.calls.current? t = some p) : ∃ n ns, r.tickets t = n :: ns := by
  have hlength := hr.matched t
  rw [Calls.of_eq_cons hp] at hlength
  cases hns : r.tickets t with
  | nil =>
    rw [hns] at hlength
    cases hlength
  | cons n ns => exact ⟨n, ns, rfl⟩

end Ticketed

end

variable [DecidableEq κ]

/-- What the call that the move concerns reaches by it. -/
def reached (r : Record κ α) (c' : Cache κ α) : Move κ α → List (Milestone κ α)
  | .start _ req => [.called req]
  | .step t _ => match r.state.calls.current? t, c'.calls.current? t with
    | some p, some p' => milestones r.state.map p p'
    | _, _ => []
  | .finish _ _ => []
  | .collect t => ((r.state.answer? t).map .returned).toList

/-- The ticket of the call that the move concerns. -/
def ticket? (r : Record κ α) : Move κ α → Option Ticket
  | .start _ _ => some r.issued
  | m => (r.tickets m.thread).head?

/-- The tickets of the thread that makes the move, after it. -/
def ticketsAfter (r : Record κ α) : Move κ α → List Ticket
  | .start t _ => r.issued :: r.tickets t
  | .collect t => (r.tickets t).tail
  | m => r.tickets m.thread

def issuedAfter (r : Record κ α) : Move κ α → Nat
  | .start _ _ => r.issued + 1
  | _ => r.issued

def next? (r : Record κ α) (m : Move κ α) : Option (Record κ α) :=
  (r.state.move? m).map fun c =>
    { state := c
      tickets := Function.update r.tickets m.thread (r.ticketsAfter m)
      issued := r.issuedAfter m
      history := r.history ++ marks (r.ticket? m) (r.reached c m) }

def Reachable (init : Table κ α) (r : Record κ α) : Prop := Leads next? { state := { entries := init } } r

theorem next?_state {r r' : Record κ α} {m : Move κ α} (h : r.next? m = some r') :
    r.state.move? m = some r'.state := by
  obtain ⟨c, hm, rfl⟩ := Option.map_eq_some_iff.mp h
  exact hm

theorem next?_tickets {r r' : Record κ α} {m : Move κ α} (h : r.next? m = some r') :
    r'.tickets = Function.update r.tickets m.thread (r.ticketsAfter m) := by
  obtain ⟨c, hm, rfl⟩ := Option.map_eq_some_iff.mp h
  rfl

theorem next?_history {r r' : Record κ α} {m : Move κ α} (h : r.next? m = some r') :
    r'.history = r.history ++ marks (r.ticket? m) (r.reached r'.state m) := by
  obtain ⟨c, hm, rfl⟩ := Option.map_eq_some_iff.mp h
  rfl

theorem Reachable.state {init : Table κ α} {r : Record κ α} (hr : r.Reachable init) :
    Cache.Reachable init r.state :=
  Leads.map Record.state (fun _ _ _ h => next?_state h) hr

/-! ## What a move does to a call -/

/-- A move that concerns the thread's call with this ticket. -/
structure Advance (r r' : Record κ α) (t : ThreadId) (n : Ticket) (before after : Option (Phase κ α))
    (ms : List (Milestone κ α)) : Prop where
  stride : Stride t r.state r'.state before after ms
  was : before = none ∧ n = r.issued ∧ r'.issued = r.issued + 1 ∨
    ∃ p, before = some p ∧ r.Underway t n p ∧ r'.issued = r.issued
  now : ∀ u k q, r'.Underway u k q ↔ (r.Underway u k q ∧ k ≠ n) ∨ (u = t ∧ k = n ∧ after = some q)
  history : r'.history = r.history ++ ms.map (Mark.mk n)

section
variable {r r' : Record κ α} {t u : ThreadId} {m : Move κ α}

theorem stack_others (h : r.next? m = some r') (hu : u ≠ m.thread) : r'.stack u = r.stack u := by
  rw [stack, stack, next?_tickets h, Function.update_of_ne hu,
    (move_passage (next?_state h)).others (Ne.symm hu)]

theorem stack_thread (h : r.next? m = some r') :
    r'.stack m.thread = (r.ticketsAfter m).zip (r'.state.calls.of m.thread) := by
  rw [stack, next?_tickets h, Function.update_self]

namespace Ticketed

variable (hr : r.Ticketed)
include hr

/-- A move that takes the innermost call of the thread to another phase or ends it. -/
theorem advance_innermost {p : Phase κ α} {after : Option (Phase κ α)} {ms : List (Milestone κ α)}
    (h : r.next? m = some r') (hp : r.state.calls.current? m.thread = some p)
    (hstride : Stride m.thread r.state r'.state (some p) after ms) (hissued : r'.issued = r.issued)
    (hticket : r.ticket? m = (r.tickets m.thread).head?) (hms : r.reached r'.state m = ms)
    (hafter : ∀ n ns, r.tickets m.thread = n :: ns →
      r'.stack m.thread = after.toList.map (n, ·) ++ ns.zip (r.state.calls.of m.thread).tail) :
    ∃ n, Advance r r' m.thread n (some p) after ms := by
  obtain ⟨n, ns, htickets⟩ := hr.tickets_eq_cons hp
  have hstack : r.stack m.thread = (n, p) :: ns.zip (r.state.calls.of m.thread).tail := by
    rw [stack, htickets, Calls.of_eq_cons hp, List.zip_cons_cons, List.tail_cons]
  have hdistinct := hr.distinct m.thread
  rw [htickets, List.nodup_cons] at hdistinct
  refine ⟨n, hstride, .inr ⟨p, rfl, ?_, hissued⟩, fun u k q => ?_, ?_⟩
  · rw [Underway, hstack]
    exact List.mem_cons_self
  · refine underway_iff (some p) hstack (hafter n ns htickets) ?_ (fun u => stack_others h) ?_
    · exact fun q hq => hdistinct.1 (List.of_mem_zip hq).1
    · intro u hu hn
      refine hu (hr.apart u m.thread n hn ?_)
      rw [htickets]
      exact List.mem_cons_self
  · rw [next?_history h, hticket, htickets, List.head?_cons, marks_some, hms]

theorem advance (h : r.next? m = some r') : ∃ n before after ms, Advance r r' m.thread n before after ms := by
  have hthread := stack_thread h
  obtain ⟨c, hm, hr'⟩ := Option.map_eq_some_iff.mp h
  have hstate : r'.state = c := by rw [← hr']
  have hissued := congrArg Record.issued hr'
  rw [hstate] at hthread
  cases move_passage hm with
  | @starts t req hfree =>
    refine ⟨r.issued, none, some req.opening, [.called req], .makes req hfree ?_, .inl ⟨rfl, rfl, hissued.symm⟩,
      fun u k q => ?_, next?_history h⟩
    · rw [hstate]
      rfl
    · refine underway_iff none rfl ?_ (fun q hq => hr.notMem_issued (List.of_mem_zip hq).1)
        (fun u => stack_others h) fun u _ => hr.notMem_issued
      simpa [Move.thread, ticketsAfter, List.zip] using hthread
  | @turns t p p' c₁ env hp hturn =>
    have hreached : r.reached r'.state (.step t env) = milestones r.state.map p p' := by
      simp [reached, hstate, hp, into]
    have hafter (n : Ticket) (ns : List Ticket) (htickets : r.tickets t = n :: ns) :
        r'.stack t = (n, p') :: ns.zip (r.state.calls.of t).tail := by
      simpa [Move.thread, ticketsAfter, into, hturn.calls, htickets] using hthread
    obtain ⟨n, hadvance⟩ :=
      hr.advance_innermost h hp (.turns hp hturn hstate) hissued.symm rfl hreached hafter
    exact ⟨n, _, _, _, hadvance⟩
  | @ends t key e hp =>
    have hmap : r'.state.map = r.state.map := by
      rw [hstate]
      rfl
    have hafter (n : Ticket) (ns : List Ticket) (htickets : r.tickets t = n :: ns) :
        r'.stack t = (n, .unsharing (ending e)) :: ns.zip (r.state.calls.of t).tail := by
      simpa [Move.thread, ticketsAfter, into, htickets] using hthread
    obtain ⟨n, hadvance⟩ := hr.advance_innermost h hp (.ends e hp hmap) hissued.symm rfl rfl hafter
    exact ⟨n, _, _, _, hadvance⟩
  | @collects t a hp =>
    have hmap : r'.state.map = r.state.map := by
      rw [hstate]
      rfl
    have hreached : r.reached r'.state (.collect t) = [.returned a] := by
      simp [reached, answer?, hp]
    have hafter (n : Ticket) (ns : List Ticket) (htickets : r.tickets t = n :: ns) :
        r'.stack t = ns.zip (r.state.calls.of t).tail := by
      simpa [Move.thread, ticketsAfter, collect, htickets] using hthread
    obtain ⟨n, hadvance⟩ := hr.advance_innermost h hp (.collects hp hmap) hissued.symm rfl hreached hafter
    exact ⟨n, _, _, _, hadvance⟩

theorem matched_next (h : r.next? m = some r') :
    (r.ticketsAfter m).length = (r'.state.calls.of m.thread).length := by
  have hlength := hr.matched m.thread
  have hm := next?_state h
  generalize r'.state = c at hm ⊢
  cases move_passage hm with
  | starts req hfree => simpa [ticketsAfter, Move.thread] using hlength
  | @turns t p p' c₁ env hp hturn =>
    have hof := congrArg List.length (Calls.of_eq_cons hp)
    simpa [ticketsAfter, Move.thread, into, hturn.calls] using hlength.trans hof
  | @ends t key e hp =>
    have hof := congrArg List.length (Calls.of_eq_cons hp)
    simpa [ticketsAfter, Move.thread, into] using hlength.trans hof
  | @collects t a hp => simpa [ticketsAfter, Move.thread, collect] using congrArg (· - 1) hlength

theorem next (h : r.next? m = some r') : r'.Ticketed := by
  have htickets := next?_tickets h
  have hafter : (r.ticketsAfter m = r.issued :: r.tickets m.thread ∧ r'.issued = r.issued + 1) ∨
      ((r.ticketsAfter m).Sublist (r.tickets m.thread) ∧ r'.issued = r.issued) := by
    obtain ⟨c, hm, rfl⟩ := Option.map_eq_some_iff.mp h
    cases m with
    | start t req => exact .inl ⟨rfl, rfl⟩
    | step t env => exact .inr ⟨List.Sublist.refl _, rfl⟩
    | finish t e => exact .inr ⟨List.Sublist.refl _, rfl⟩
    | collect t => exact .inr ⟨List.tail_sublist _, rfl⟩
  have hmem (u : ThreadId) (n : Ticket) (hn : n ∈ r'.tickets u) :
      n ∈ r.tickets u ∨ (u = m.thread ∧ n = r.issued ∧ r'.issued = r.issued + 1) := by
    rw [htickets] at hn
    by_cases hu : u = m.thread
    · subst hu
      rw [Function.update_self] at hn
      rcases hafter with ⟨heq, hissued⟩ | ⟨hsub, -⟩
      · rw [heq] at hn
        rcases List.mem_cons.mp hn with rfl | hn
        · exact .inr ⟨rfl, rfl, hissued⟩
        · exact .inl hn
      · exact .inl (hsub.subset hn)
    · rw [Function.update_of_ne hu] at hn
      exact .inl hn
  refine ⟨fun u => ?_, fun u n hn => ?_, fun u => ?_, fun u v n hu hv => ?_⟩
  · rw [htickets]
    by_cases hu : u = m.thread
    · subst hu
      rw [Function.update_self]
      exact hr.matched_next h
    · rw [Function.update_of_ne hu, (move_passage (next?_state h)).others (Ne.symm hu)]
      exact hr.matched u
  · rcases hmem u n hn with hn | ⟨-, rfl, hissued⟩
    · have hlt := hr.fresh u n hn
      rcases hafter with ⟨-, hissued⟩ | ⟨-, hissued⟩
      · rw [hissued]
        exact Nat.lt_succ_of_lt hlt
      · rwa [hissued]
    · rw [hissued]
      exact Nat.lt_succ_self _
  · rw [htickets]
    by_cases hu : u = m.thread
    · subst hu
      rw [Function.update_self]
      rcases hafter with ⟨heq, -⟩ | ⟨hsub, -⟩
      · rw [heq]
        exact List.nodup_cons.mpr ⟨hr.notMem_issued, hr.distinct _⟩
      · exact hsub.nodup (hr.distinct _)
    · rw [Function.update_of_ne hu]
      exact hr.distinct u
  · rcases hmem u n hu with hu | ⟨rfl, rfl, -⟩
    · rcases hmem v n hv with hv | ⟨-, rfl, -⟩
      · exact hr.apart u v n hu hv
      · exact absurd hu hr.notMem_issued
    · rcases hmem v _ hv with hv | ⟨rfl, -, -⟩
      · exact absurd hv hr.notMem_issued
      · rfl

end Ticketed

end

theorem Ticketed.leads {r r' : Record κ α} (hr : r.Ticketed) (hl : Leads next? r r') : r'.Ticketed := by
  induction hl with
  | refl => exact hr
  | tail m _ h ih => exact ih.next h

theorem Reachable.ticketed {init : Table κ α} {r : Record κ α} (hr : r.Reachable init) : r.Ticketed :=
  (ticketed_start init).leads hr

end Record

theorem Reachable.recorded [DecidableEq κ] {init : Table κ α} {c : Cache κ α} (hr : Reachable init c) :
    ∃ r : Record κ α, r.Reachable init ∧ r.state = c :=
  Leads.lift Record.state (fun r m c hm => ⟨_, by rw [Record.next?, hm]; rfl, rfl⟩) hr

end Interlock.Cache
