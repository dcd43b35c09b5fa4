import Interlock.Proofs.History
import Interlock.Proofs.Sites

/-!
# A collection alone

A queue or a stack of a world is moved by the moves made on it, and by nothing else. So what becomes of it, what calls
on it are answered and what can be done with it next is what these moves alone make of it. The `account` of a run lists
them, each with what it reports.
-/

namespace Interlock.World

variable {α : Type}

inductive Collection (α : Type) where
  | queue (q : Queue α)
  | stack (s : Stack α)

def collection? (w : World α) : Site → Option (Collection α)
  | .queue i => (w.queueList[i]?).map .queue
  | .stack i => (w.stackList[i]?).map .stack
  | _ => none

/-! ## Moves of a collection -/

namespace Collection

/-- What a move makes of the collection if there is nothing else. A builder only looks at the top. -/
def move? (c : Collection α) (m : Move α) : Option (Collection α) :=
  match c, m with
  | .queue q, m => (m.onQueue?.bind q.move?).map .queue
  | .stack s, .look t => (s.top? t).map fun _ => .stack s
  | .stack s, m => (m.onStack?.bind s.move?).map .stack

def report? : Collection α → Move α → Option (Report α)
  | .queue q, .collect t => (q.answer? t).map fun a => .answer (.queue a)
  | .stack s, .collect t => (s.answer? t).map fun a => .answer (.stack a)
  | .stack s, .look t => (s.top? t).map fun v => .value (some v)
  | _, _ => none

/-- The move leads from one state of the collection to another and reports this. -/
def Takes (c : Collection α) (e : Move α × Option (Report α)) (c' : Collection α) : Prop :=
  c.move? e.1 = some c' ∧ c.report? e.1 = e.2

end Collection

/-- Moves, each with what it reports. -/
abbrev Log (α : Type) := List (Move α × Option (Report α))

/-- The moves of a run that are made on the object at this place. -/
def account [BEq α] (s : Site) (w : World α) : List (Move α) → Log α
  | [] => []
  | m :: ms =>
    let rest := ((w.move? m).map fun w' => account s w' ms).getD []
    if m.site? w = some s then (m, w.report? m) :: rest else rest

/-! ## One move -/

section
variable {w w' : World α} {s : Site} {c : Collection α} {m : Move α} {i : Nat}

theorem collection?_setQueue {q : Queue α} (hq : w.queueList[i]? = some q) (q' : Queue α)
    (sites : Table ThreadId (List Site)) :
    ({ w with queueList := w.queueList.set i q', sites } : World α).collection? (.queue i) = some (.queue q') := by
  have hi : i < w.queueList.length := (List.getElem?_eq_some_iff.mp hq).1
  simp [collection?, hi]

theorem collection?_setStack {s : Stack α} (hs : w.stackList[i]? = some s) (s' : Stack α)
    (sites : Table ThreadId (List Site)) :
    ({ w with stackList := w.stackList.set i s', sites } : World α).collection? (.stack i) = some (.stack s') := by
  have hi : i < w.stackList.length := (List.getElem?_eq_some_iff.mp hs).1
  simp [collection?, hi]

theorem collection?_bind {σ : Type} {o : Option σ} {put : σ → World α} {f : σ → Collection α}
    (h : ∀ x, (put x).collection? s = some (f x)) :
    (o.bind fun x => some (put x)).bind (·.collection? s) = o.map f := by
  cases o with
  | none => rfl
  | some x => exact h x

theorem site?_start {t : ThreadId} {c : Call α} (h : (Move.start t c).site? w = some s) :
    w.isFree t = true ∧ c.site = s := by simpa [Move.site?] using h

theorem answer?_queue {t : ThreadId} {outer : List Site} {q : Queue α} (hs : w.sitesOf t = .queue i :: outer)
    (hq : w.queueList[i]? = some q) : w.answer? t = (q.answer? t).map .queue := by
  simp only [World.answer?, hs, hq]
  exact Option.map_eq_bind.symm

theorem answer?_stack {t : ThreadId} {outer : List Site} {k : Stack α} (hs : w.sitesOf t = .stack i :: outer)
    (hk : w.stackList[i]? = some k) : w.answer? t = (k.answer? t).map .stack := by
  simp only [World.answer?, hs, hk]
  exact Option.map_eq_bind.symm

theorem grip?_stack {t : ThreadId} {outer : List Site} {k : Stack α} (hs : w.sitesOf t = .stack i :: outer)
    (hk : w.stackList[i]? = some k) : w.grip? t = (k.top? t).map .top := by
  simp only [World.grip?, hs, hk]
  exact Option.map_eq_bind.symm

theorem move?_onQueue [BEq α] {q : Queue α} (hq : w.queueList[i]? = some q) (hm : m.site? w = some (.queue i)) :
    (w.move? m).bind (·.collection? (.queue i)) = (Collection.queue q).move? m := by
  cases m with
  | start t c =>
    obtain ⟨hfree, hsite⟩ := site?_start hm
    cases c with
    | queue j r =>
      obtain rfl : j = i := Site.queue.inj hsite
      simp only [World.move?, World.start?, hfree, hq, guard, if_true]
      exact collection?_bind fun q' => collection?_setQueue hq q' _
    | _ => cases hsite
  | step t env =>
    obtain ⟨outer, hs⟩ := List.head?_eq_some_iff.mp hm
    simp only [World.move?, World.step?, hs, hq]
    exact collection?_bind fun q' => collection?_setQueue hq q' _
  | wake t =>
    obtain ⟨outer, hs⟩ := List.head?_eq_some_iff.mp hm
    simp only [World.move?, World.wake?, hs, hq]
    exact collection?_bind fun q' => collection?_setQueue hq q' _
  | finish t e =>
    obtain ⟨outer, hs⟩ := List.head?_eq_some_iff.mp hm
    simp only [World.move?, World.end?, hs]
    rfl
  | collect t =>
    obtain ⟨outer, hs⟩ := List.head?_eq_some_iff.mp hm
    simp only [World.move?, answer?_queue hs hq, World.collect, hs, modify_eq_set hq, Collection.move?, Move.onQueue?,
      Option.bind_some, Queue.move?]
    cases q.answer? t with
    | none => rfl
    | some a => exact collection?_setQueue hq _ _
  | look t =>
    obtain ⟨outer, hs⟩ := List.head?_eq_some_iff.mp hm
    simp only [World.move?, World.grip?, hs]
    rfl
  | _ => cases hm

theorem move?_onStack [BEq α] {k : Stack α} (hk : w.stackList[i]? = some k) (hm : m.site? w = some (.stack i)) :
    (w.move? m).bind (·.collection? (.stack i)) = (Collection.stack k).move? m := by
  cases m with
  | start t c =>
    obtain ⟨hfree, hsite⟩ := site?_start hm
    cases c with
    | stack j r =>
      obtain rfl : j = i := Site.stack.inj hsite
      simp only [World.move?, World.start?, hfree, hk, guard, if_true]
      exact collection?_bind fun k' => collection?_setStack hk k' _
    | _ => cases hsite
  | step t env =>
    obtain ⟨outer, hs⟩ := List.head?_eq_some_iff.mp hm
    simp only [World.move?, World.step?, hs, hk]
    exact collection?_bind fun k' => collection?_setStack hk k' _
  | wake t =>
    obtain ⟨outer, hs⟩ := List.head?_eq_some_iff.mp hm
    simp only [World.move?, World.wake?, hs]
    rfl
  | finish t e =>
    obtain ⟨outer, hs⟩ := List.head?_eq_some_iff.mp hm
    cases e with
    | callback e =>
      simp only [World.move?, World.end?, hs]
      rfl
    | builder e =>
      simp only [World.move?, World.end?, hs, hk]
      exact collection?_bind fun k' => collection?_setStack hk k' _
  | collect t =>
    obtain ⟨outer, hs⟩ := List.head?_eq_some_iff.mp hm
    simp only [World.move?, answer?_stack hs hk, World.collect, hs, modify_eq_set hk, Collection.move?, Move.onStack?,
      Option.bind_some, Stack.move?]
    cases k.answer? t with
    | none => rfl
    | some a => exact collection?_setStack hk _ _
  | look t =>
    obtain ⟨outer, hs⟩ := List.head?_eq_some_iff.mp hm
    simp only [World.move?, grip?_stack hs hk, Collection.move?]
    cases k.top? t with
    | none => rfl
    | some v => simp [collection?, hk]
  | _ => cases hm

theorem collection?_eq_some (h : w.collection? s = some c) :
    (∃ i q, s = .queue i ∧ w.queueList[i]? = some q ∧ c = .queue q) ∨
      ∃ i k, s = .stack i ∧ w.stackList[i]? = some k ∧ c = .stack k := by
  cases s with
  | queue i =>
    obtain ⟨q, hq, rfl⟩ := Option.map_eq_some_iff.mp h
    exact .inl ⟨i, q, rfl, hq, rfl⟩
  | stack i =>
    obtain ⟨k, hk, rfl⟩ := Option.map_eq_some_iff.mp h
    exact .inr ⟨i, k, rfl, hk, rfl⟩
  | _ => cases h

/-- A move made on a collection is possible if it is for the collection alone, and leads to the same. -/
theorem move?_on [BEq α] (hc : w.collection? s = some c) (hm : m.site? w = some s) :
    (w.move? m).bind (·.collection? s) = c.move? m := by
  obtain ⟨i, q, rfl, hq, rfl⟩ | ⟨i, k, rfl, hk, rfl⟩ := collection?_eq_some hc
  · exact move?_onQueue hq hm
  · exact move?_onStack hk hm

theorem report?_on (hc : w.collection? s = some c) (hm : m.site? w = some s) : w.report? m = c.report? m := by
  obtain ⟨i, q, rfl, hq, rfl⟩ | ⟨i, k, rfl, hk, rfl⟩ := collection?_eq_some hc
  · cases m with
    | collect t =>
      obtain ⟨outer, hs⟩ := List.head?_eq_some_iff.mp hm
      simp only [World.report?, answer?_queue hs hq, Collection.report?, Option.map_map]
      rfl
    | look t =>
      obtain ⟨outer, hs⟩ := List.head?_eq_some_iff.mp hm
      simp only [World.report?, World.grip?, hs]
      rfl
    | start | step | wake | finish => rfl
    | _ => cases hm
  · cases m with
    | collect t =>
      obtain ⟨outer, hs⟩ := List.head?_eq_some_iff.mp hm
      simp only [World.report?, answer?_stack hs hk, Collection.report?, Option.map_map]
      rfl
    | look t =>
      obtain ⟨outer, hs⟩ := List.head?_eq_some_iff.mp hm
      simp only [World.report?, grip?_stack hs hk, Collection.report?, Option.map_map]
      rfl
    | start | step | wake | finish => rfl
    | _ => cases hm

/-- Any other move leaves the collection as it is, with all who sleep in it. -/
theorem collection?_off [BEq α] (hc : w.collection? s = some c) (hm : m.site? w ≠ some s) (h : w.move? m = some w') :
    w'.collection? s = some c := by
  obtain ⟨i, q, rfl, hq, rfl⟩ | ⟨i, k, rfl, hk, rfl⟩ := collection?_eq_some hc
  · rw [collection?, (keeps h).queueAt i hm q hq, Option.map_some]
  · rw [collection?, (keeps h).stackAt i hm k hk, Option.map_some]

theorem collection?_there [BEq α] (hc : w.collection? s = some c) (h : w.move? m = some w') :
    ∃ c', w'.collection? s = some c' := by
  obtain ⟨i, q, rfl, hq, rfl⟩ | ⟨i, k, rfl, hk, rfl⟩ := collection?_eq_some hc
  · obtain ⟨q', hq', -⟩ := ((evolves h).queueAt i).there hq
    exact ⟨.queue q', Option.map_eq_some_iff.mpr ⟨q', hq', rfl⟩⟩
  · obtain ⟨k', hk', -⟩ := ((evolves h).stackAt i).there hk
    exact ⟨.stack k', Option.map_eq_some_iff.mpr ⟨k', hk', rfl⟩⟩

theorem collection?_on [BEq α] (hc : w.collection? s = some c) (hm : m.site? w = some s) (h : w.move? m = some w') :
    ∃ c', w'.collection? s = some c' ∧ c.move? m = some c' := by
  obtain ⟨c', hc'⟩ := collection?_there hc h
  exact ⟨c', hc', by rw [← move?_on hc hm, h, Option.bind_some, hc']⟩

/-! ## A run -/

/-- What a run makes of a collection its account makes of the collection alone. -/
theorem alone [BEq α] {ms : List (Move α)} (hc : w.collection? s = some c) (h : run? World.move? w ms = some w') :
    ∃ c', w'.collection? s = some c' ∧ Trace Collection.Takes c (account s w ms) c' := by
  induction ms generalizing w c with
  | nil =>
    obtain rfl := Option.some.inj h
    exact ⟨c, hc, rfl⟩
  | cons m ms ih =>
    obtain ⟨w₁, hm, h⟩ := Option.bind_eq_some_iff.mp h
    simp only [account, hm, Option.map_some, Option.getD_some]
    split
    · rename_i hsite
      obtain ⟨c₁, hc₁, hmove⟩ := collection?_on hc hsite hm
      obtain ⟨c', hc', trace⟩ := ih hc₁ h
      exact ⟨c', hc', c₁, ⟨hmove, (report?_on hc hsite).symm⟩, trace⟩
    · rename_i hsite
      exact ih (collection?_off hc hsite hm) h

end

end Interlock.World
