import Interlock.Proofs.Hierarchy.Ledger
import Interlock.Proofs.Registry.Catalog
import Interlock.Proofs.Registry.Ranks

/-!
# A chronicle of the calls on registries

A chronicle keeps beside the ledger, for each thread, how far the calls have come that it is inside, and lists what
happened: that a call was made, that it got the lock of a directory, that it was served, that its answer was taken,
and that an element was made or changed. A call is served in the step in which it takes the directory, or, if it goes
on to an entry, in the one in which it takes that. `Fits` ties the phase of a call to its stage, and `Turn` says what
one step of a call does to the stage and to the map.
-/

namespace Interlock.Hierarchy

variable {α : Type}

/-! ## What happens to a call -/

/-- A call, and the ceiling of the thread when it made it. -/
structure Asked (α : Type) where
  request : Request α
  ceiling : Rank

inductive Happening (α : Type) where
  | called (t : ThreadId) (a : Asked α)
  /-- Has got the lock of the directory. -/
  | entered (t : ThreadId) (r : RegistryId)
  | served (t : ThreadId) (r : RegistryId) (i : Inquiry α) (a : Answer α)
  | returned (t : ThreadId) (a : Answer α)
  | made (l : LockId) (v : α)
  | changed (l : LockId) (f : α → α)

def Happening.thread? : Happening α → Option ThreadId
  | .called t _ => some t
  | .entered t _ => some t
  | .served t _ _ _ => some t
  | .returned t _ => some t
  | .made _ _ => none
  | .changed _ _ => none

inductive Stage (α : Type) where
  | asked (a : Asked α)
  /-- Has the directory, and wants an entry. -/
  | inside (r : RegistryId) (i : Inquiry α) (ceiling : Rank)
  | answered (r : RegistryId) (i : Inquiry α) (ceiling : Rank) (a : Answer α)

def Stage.call : Stage α → Asked α
  | .asked a => a
  | .inside r i c => ⟨.registry r i, c⟩
  | .answered r i c _ => ⟨.registry r i, c⟩

def Stage.on : Stage α → Happening α → Stage α
  | .asked ⟨.registry r i, c⟩, .entered _ _ => .inside r i c
  | .inside r i c, .served _ _ _ a => .answered r i c a
  | s, _ => s

/-- Only an update that ran its callback may return another answer than it was served: it may end in a panic. -/
inductive Closes : Answer α → Answer α → Prop
  | same (a : Answer α) : Closes a a
  | panicked (message : String) : Closes (.visited true) (.panicked message)

/-- What happens to the calls that a thread is inside, the innermost first. A call on a registry that is refused is
never served. -/
inductive Advances (t : ThreadId) : List (Stage α) → Happening α → List (Stage α) → Prop
  | called (st : List (Stage α)) (a : Asked α) : Advances t st (.called t a) (.asked a :: st)
  | entered (st : List (Stage α)) (r : RegistryId) (i : Inquiry α) (c : Rank) :
      Advances t (.asked ⟨.registry r i, c⟩ :: st) (.entered t r) (.inside r i c :: st)
  | served (st : List (Stage α)) (r : RegistryId) (i : Inquiry α) (c : Rank) (a : Answer α) :
      Advances t (.inside r i c :: st) (.served t r i a) (.answered r i c a :: st)
  | returned (st : List (Stage α)) (r : RegistryId) (i : Inquiry α) (c : Rank) {a a' : Answer α}
      (closes : Closes a a') :
      Advances t (.answered r i c a :: st) (.returned t a') st
  | refused (st : List (Stage α)) (r : RegistryId) (i : Inquiry α) (c : Rank) (v : Violation) :
      Advances t (.asked ⟨.registry r i, c⟩ :: st) (.returned t (.violated v)) st
  | elsewhere (st : List (Stage α)) {q : Request α} (c : Rank) (a : Answer α) (hq : ∀ r i, q ≠ .registry r i) :
      Advances t (.asked ⟨q, c⟩ :: st) (.returned t a) st
  | other {e : Happening α} (st : List (Stage α)) (he : e.thread? ≠ some t) : Advances t st e st

/-- What happens in a step of a call, by the phases before and after it. -/
def happenings (t : ThreadId) : Request α → Phase α → Phase α → List (Happening α)
  | .registry r i, .waiting _ _ (.inquire _ _), .releasing _ a => [.entered t r, .served t r i a]
  | .registry r _, .waiting _ _ (.inquire _ _), _ => [.entered t r]
  | .registry r i, .waiting _ _ (.visit _ _), .releasing _ a => [.served t r i a]
  | .registry r i, .waiting _ _ (.visit _ _), .visiting _ _ => [.served t r i (.visited true)]
  | _, _, _ => []

/-! ## The chronicle -/

structure Chronicle (α : Type) where
  ledger : Ledger α := {}
  stages : ThreadId → List (Stage α) := fun _ => []
  history : List (Happening α) := []

/-- The library makes no registry but of ranks that are words and pass the check. -/
def Work.isBuilt : Work α → Bool
  | .move (.addRegistry directoryRank entryRank) =>
    directoryRank ≤ Word.max && (RegistryRanks.validate ⟨directoryRank, entryRank⟩).isOk
  | _ => true

/-- A call, its steps and its end. -/
def Work.calling (t : ThreadId) (q : Request α) (steps : Nat) : List (Work α) :=
  [.move (.start t q)] ++ List.replicate steps (.move (.step t default)) ++ [.move (.collect t)]

namespace Chronicle

def state (c : Chronicle α) : Hierarchy α := c.ledger.state

/-- What happens when the work leads to the state `h`. -/
def notes (c : Chronicle α) (w : Work α) (h : Hierarchy α) : List (Happening α) :=
  match w with
  | .move (.addLock _ v) => [.made c.state.locks.length v]
  | .move (.start t q) => [.called t ⟨q, c.state.ceiling t⟩]
  | .move (.step t _) =>
    match (c.stages t).head?, c.state.calls.current? t, h.calls.current? t with
    | some s, some p, some p' => happenings t s.call.request p p'
    | _, _, _ => []
  | .move (.collect t) => ((c.state.answer? t).map (.returned t)).toList
  | .move (.write _ l v) => [.changed l fun _ => v]
  | .move (.borrow l v) => [.changed l fun _ => v]
  | .modify _ l f => [.changed l f]
  | .amend l f => [.changed l f]
  | _ => []

def stagesAfter (c : Chronicle α) (w : Work α) (es : List (Happening α)) : ThreadId → List (Stage α) :=
  match w with
  | .move (.start t q) => Function.update c.stages t (.asked ⟨q, c.state.ceiling t⟩ :: c.stages t)
  | .move (.step t _) => Function.update c.stages t ((c.stages t).modifyHead fun s => es.foldl Stage.on s)
  | .move (.collect t) => Function.update c.stages t (c.stages t).tail
  | _ => c.stages

def next? (c : Chronicle α) (w : Work α) : Option (Chronicle α) :=
  if w.isBuilt then (c.ledger.next? w).map fun g =>
    { ledger := g
      stages := c.stagesAfter w (c.notes w g.state)
      history := c.history ++ c.notes w g.state }
  else none

def Reachable (c : Chronicle α) : Prop := Leads next? {} c

theorem next?_eq {c c' : Chronicle α} {w : Work α} (hn : c.next? w = some c') : w.isBuilt = true ∧
    c.ledger.next? w = some c'.ledger ∧ c'.stages = c.stagesAfter w (c.notes w c'.state) ∧
      c'.history = c.history ++ c.notes w c'.state := by
  unfold next? at hn
  split at hn
  · rename_i hw
    obtain ⟨g, hg, rfl⟩ := Option.map_eq_some_iff.mp hn
    exact ⟨hw, hg, rfl, rfl⟩
  · cases hn

theorem Reachable.ledger {c : Chronicle α} (hc : c.Reachable) : c.ledger.Reachable :=
  Leads.map Chronicle.ledger (fun _ _ _ hn => (next?_eq hn).2.1) hc

theorem Reachable.state {c : Chronicle α} (hc : c.Reachable) : Hierarchy.Reachable c.state := hc.ledger.state

end Chronicle

/-! ## Phases and stages -/

/-- The guards can be released one after another, from the first on. -/
def Chained (h : Hierarchy α) : Rank → List Guard → Prop
  | _, [] => True
  | c, g :: gs => c = h.rank g.lock ∧ h.Chained g.previous gs

/-- A call in this phase is not on a registry. -/
inductive Phase.Elsewhere : Phase α → Prop
  | entering {q : Request α} (hq : ∀ r i, q ≠ .registry r i) : Elsewhere (.entering q)
  | waiting (l : LockId) (previous : Rank) (aim : Aim) : Elsewhere (.waiting l previous (.hold aim))
  | releasing (gs : List Guard) (a : Answer α) : Elsewhere (.releasing gs a)
  | returned (a : Answer α) : Elsewhere (.returned a)

/-- How far a call of the thread has come that is in this phase. -/
inductive Fits (h : Hierarchy α) (t : ThreadId) : Phase α → Stage α → Prop
  | elsewhere {p : Phase α} {q : Request α} {c : Rank} (hq : ∀ r i, q ≠ .registry r i) (hp : p.Elsewhere) :
      Fits h t p (.asked ⟨q, c⟩)
  | entering {r : RegistryId} {i : Inquiry α} {c : Rank} {d : Registry} (hd : h.registries[r]? = some d)
      (hc : h.ceiling t = c) : Fits h t (.entering (.registry r i)) (.asked ⟨.registry r i, c⟩)
  | refused {r : RegistryId} {i : Inquiry α} {c : Rank} {d : Registry} (hd : h.registries[r]? = some d)
      (hc : c ≤ h.rank d.directory) :
      Fits h t (.releasing [] (.violated ⟨.acquire, h.rank d.directory, c⟩)) (.asked ⟨.registry r i, c⟩)
  | turnedAway {r : RegistryId} {i : Inquiry α} {c : Rank} {d : Registry} (hd : h.registries[r]? = some d)
      (hc : c ≤ h.rank d.directory) :
      Fits h t (.returned (.violated ⟨.acquire, h.rank d.directory, c⟩)) (.asked ⟨.registry r i, c⟩)
  | waiting {r : RegistryId} {i : Inquiry α} {c : Rank} {d : Registry} (hd : h.registries[r]? = some d)
      (hc : h.rank d.directory < c) : Fits h t (.waiting d.directory c (.inquire r i)) (.asked ⟨.registry r i, c⟩)
  | reaching {r : RegistryId} {i : Inquiry α} {c : Rank} {d : Registry} {name : String} {callback : Bool} {l : LockId}
      (hd : h.registries[r]? = some d) (hc : h.rank d.directory < c) (hi : i.entry? = some (name, callback))
      (hl : h.binding? r name = some l) :
      Fits h t (.waiting l (h.rank d.directory) (.visit ⟨d.directory, c⟩ callback)) (.inside r i c)
  | visiting {r : RegistryId} {c : Rank} {d : Registry} {name : String} {l : LockId} (hd : h.registries[r]? = some d)
      (hc : h.rank d.directory < c) (hl : h.binding? r name = some l) :
      Fits h t (.visiting ⟨l, h.rank d.directory⟩ ⟨d.directory, c⟩) (.answered r (.update name) c (.visited true))
  | releasing {r : RegistryId} {i : Inquiry α} {c : Rank} {d : Registry} {a : Answer α} {gs : List Guard}
      (hd : h.registries[r]? = some d) (hc : h.rank d.directory < c) (ha : ∀ v, a ≠ .violated v)
      (hgs : h.Chained (h.ceiling t) gs) : Fits h t (.releasing gs a) (.answered r i c a)
  /-- After the callback; guards that it has left behind may be in the way. -/
  | ending {r : RegistryId} {c : Rank} {d : Registry} {name : String} {gs : List Guard} {a : Answer α}
      (hd : h.registries[r]? = some d) (hc : h.rank d.directory < c) (closes : Closes (.visited true) a) :
      Fits h t (.releasing gs a) (.answered r (.update name) c (.visited true))
  | returned {r : RegistryId} {i : Inquiry α} {c : Rank} {d : Registry} {a a' : Answer α}
      (hd : h.registries[r]? = some d) (hc : h.rank d.directory < c) (ha : ∀ v, a ≠ .violated v)
      (closes : Closes a a') :
      Fits h t (.returned a') (.answered r i c a)

/-- What a step of a call does to its stage, with what happens, and to the map. -/
inductive Turn (h : Hierarchy α) (t : ThreadId) (h' : Hierarchy α) : Stage α → List (Happening α) → Stage α → Prop
  | rests (s : Stage α) (same : h'.catalog = h.catalog) : Turn h t h' s [] s
  | enters {r : RegistryId} {d : Registry} (i : Inquiry α) (c : Rank) (hd : h.registries[r]? = some d)
      (free : h.holder? d.directory = none) (same : h'.catalog = h.catalog) :
      Turn h t h' (.asked ⟨.registry r i, c⟩) [.entered t r] (.inside r i c)
  | serves {r : RegistryId} {d : Registry} {i : Inquiry α} {a : Answer α} (c : Rank) (hd : h.registries[r]? = some d)
      (free : h.holder? d.directory = none) (serves : h.catalog.Serves r i a h'.catalog) :
      Turn h t h' (.asked ⟨.registry r i, c⟩) [.entered t r, .served t r i a] (.answered r i c a)
  | reaches {r : RegistryId} {i : Inquiry α} {a : Answer α} (c : Rank) (serves : h.catalog.Serves r i a h'.catalog) :
      Turn h t h' (.inside r i c) [.served t r i a] (.answered r i c a)

/-! ## A step of a call -/

section Step
variable {h h₁ h' : Hierarchy α} {t : ThreadId} {env : Environment} {p : Phase α} {rest : List (Phase α)} {s : Stage α}

theorem Turn.foldl {es : List (Happening α)} {s' : Stage α} (ht : Turn h t h' s es s') : es.foldl Stage.on s = s' := by
  cases ht <;> rfl

theorem happenings_elsewhere {q : Request α} (hq : ∀ r i, q ≠ .registry r i) (p p' : Phase α) :
    happenings t q p p' = [] := by
  cases q with
  | registry r i => exact absurd rfl (hq r i)
  | lock l aim => rfl
  | drop slots panic => rfl

/-- Only a call that takes a directory can change what is bound. -/
theorem content?_step (hs : h.step? env t = some h')
    (hp : ∀ l previous r i, h.calls.current? t ≠ some (.waiting l previous (.inquire r i))) (k : LockId) :
    h'.content? k = h.content? k := by
  cases stepped hs with
  | @enters r _ => exact content?_congr (locks_enter h t r)
  | @admitted l previous q h₁ g hc ha =>
    have hadmitted := (admit?_contents ha).2.2.2 k
    cases q with
    | hold aim => exact (content?_congr (locks_deliver h₁ t g aim)).trans hadmitted
    | inquire r i => exact absurd hc (hp l previous r i)
    | visit directory callback => cases callback <;> exact hadmitted
  | @drops gs a _ => exact content?_dropNext h t gs a k

theorem Reachable.rank_step (hr : h.Reachable) (hs : h.step? env t = some h') {l : LockId}
    (hl : h.rank l < Rank.unbounded) : h'.rank l = h.rank l := by
  obtain ⟨u, transfer, -⟩ := hr.transfer (m := .step t env) hs
  exact transfer.shift.rank hl

/-- A call that is not on a registry goes on as such. -/
theorem step_elsewhere (hp : h.phases t = p :: rest) (he : p.Elsewhere) (hs : h.step? env t = some h') :
    ∃ p', h'.phases t = p' :: rest ∧ p'.Elsewhere := by
  have hcurrent : h.calls.current? t = some p := Calls.current?_eq_of_cons hp
  cases he with
  | @entering q hq =>
    simp only [step?, hcurrent, Option.some.injEq] at hs
    subst hs
    cases q with
    | lock l aim =>
      simp only [enter, approach]
      split
      · exact ⟨_, phases_into hp _, .waiting l _ aim⟩
      · exact ⟨_, phases_into hp _, .releasing [] _⟩
    | drop slots panic =>
      exact ⟨_, phases_into ((quiet_takeOut t slots h).2.trans hp) _, .releasing _ _⟩
    | registry r i => exact absurd rfl (hq r i)
  | waiting l previous aim =>
    obtain ⟨h₁, -, hp₁, rfl⟩ := step?_waiting hp hs
    have hp₂ := (phases_deliver h₁ t t ⟨l, previous⟩ aim).trans hp₁
    exact ⟨_, phases_into hp₂ _, .returned .done⟩
  | releasing gs a =>
    simp only [step?, hcurrent, Option.some.injEq] at hs
    subst hs
    cases gs with
    | nil => exact ⟨_, phases_into hp _, .returned a⟩
    | cons g gs =>
      simp only [dropNext]
      split
      · exact ⟨_, phases_into (h := h.release t g a.isPanic) hp _, .releasing gs a⟩
      · exact ⟨_, phases_into hp _, .releasing gs _⟩
  | returned a => simp [step?, hcurrent] at hs

theorem Chained.congr {c : Rank} {gs : List Guard} (hrank : ∀ g ∈ gs, h'.rank g.lock = h.rank g.lock)
    (hc : h.Chained c gs) : h'.Chained c gs := by
  induction gs generalizing c with
  | nil => trivial
  | cons g gs ih =>
    exact ⟨hc.1.trans (hrank g List.mem_cons_self).symm, ih (fun x hx => hrank x (List.mem_cons_of_mem g hx)) hc.2⟩

/-- The step of a call that takes the directory. -/
theorem Housed.enters (hh : h.Housed) {r : RegistryId} {i : Inquiry α} {c : Rank} {d : Registry}
    (hd : h.registries[r]? = some d) (hc : h.rank d.directory < c)
    (hp : h.phases t = .waiting d.directory c (.inquire r i) :: rest) (hs : h.step? env t = some h') :
    h'.Housed ∧ ∃ p' s', h'.phases t = p' :: rest ∧
      Turn h t h' (.asked ⟨.registry r i, c⟩) (happenings t (.registry r i) (.waiting d.directory c (.inquire r i)) p') s' ∧
        h'.Fits t p' s' := by
  obtain ⟨h₁, ha, hp₁, rfl⟩ := step?_waiting hp hs
  obtain ⟨hh₁, hregistries, hcatalog⟩ := hh.admitted ha
  obtain ⟨-, free, hrank, -, hceiling, -⟩ := admit?_eq ha
  have hd₁ : h₁.registries[r]? = some d := hregistries ▸ hd
  have hin : h₁.ceiling t = h₁.rank d.directory := by rw [hceiling, if_pos rfl, hrank]
  have hc₁ : h₁.rank d.directory < c := by rwa [hrank]
  rcases hh₁.inquire (g := ⟨d.directory, c⟩) hd₁ rfl hin env i with
    ⟨a, h₂, hstate, hcalls, hceiling₂, hregistries₂, hrank₂, hh₂, hserves⟩ |
    ⟨name, callback, l, hi, hl, hstate⟩
  · have hp₂ : h₂.phases t = .waiting d.directory c (.inquire r i) :: rest := by rw [phases, hcalls, ← phases, hp₁]
    have hd₂ : h₂.registries[r]? = some d := hregistries₂ ▸ hd₁
    have hrank' : h₂.rank d.directory = h₁.rank d.directory := hrank₂ _ (hh₁.ranks r d hd₁).2
    have hc₂ : h₂.rank d.directory < c := by rwa [hrank']
    simp only [proceed, hstate]
    refine ⟨hh₂.into t _, _, .answered r i c a, phases_into hp₂ _, ?_, ?_⟩
    · rw [hcatalog] at hserves
      exact .serves c hd free hserves
    · refine .releasing hd₂ hc₂ hserves.not_violated ⟨?_, trivial⟩
      exact (hceiling₂.trans hin).trans hrank'.symm
  · simp only [proceed, hstate]
    refine ⟨hh₁.into t _, _, .inside r i c, phases_into hp₁ _, ?_, ?_⟩
    · exact .enters i c hd free hcatalog
    · rw [hin]
      exact .reaching (h := h₁.into t _) hd₁ hc₁ hi hl

/-- The step of a call that takes an entry. -/
theorem Housed.reaches (hh : h.Housed) {r : RegistryId} {i : Inquiry α} {c : Rank} {d : Registry} {name : String}
    {callback : Bool} {l : LockId} (hd : h.registries[r]? = some d) (hc : h.rank d.directory < c)
    (hi : i.entry? = some (name, callback)) (hl : h.binding? r name = some l)
    (hp : h.phases t = .waiting l (h.rank d.directory) (.visit ⟨d.directory, c⟩ callback) :: rest)
    (hs : h.step? env t = some h') : h'.Housed ∧ ∃ p' s', h'.phases t = p' :: rest ∧
      Turn h t h' (.inside r i c)
        (happenings t (.registry r i) (.waiting l (h.rank d.directory) (.visit ⟨d.directory, c⟩ callback)) p') s' ∧
        h'.Fits t p' s' := by
  obtain ⟨h₁, ha, hp₁, rfl⟩ := step?_waiting hp hs
  obtain ⟨hh₁, hregistries, hcatalog⟩ := hh.admitted ha
  obtain ⟨-, -, hrank, -, hceiling, -⟩ := admit?_eq ha
  have hd₁ : h₁.registries[r]? = some d := hregistries ▸ hd
  have hnames : h.catalog.names r name = some l := hl
  have hl₁ : h₁.binding? r name = some l := (congrFun (congrFun (congrArg Catalog.names hcatalog) r) name).trans hl
  have hc₁ : h₁.rank d.directory < c := by rwa [hrank]
  cases i with
  | get name' =>
    cases hi
    refine ⟨hh₁.into t _, _, .answered r (.get name) c (.value (h₁.element? l)), phases_into hp₁ _, .reaches c ?_, ?_⟩
    · have hvalue : h₁.element? l = h.catalog.lookup r name := by
        rw [Catalog.lookup, hnames, Option.bind_some]
        exact congrFun (congrArg Catalog.value hcatalog) l
      have hserves := Catalog.Serves.get (c := h.catalog) (r := r) name
      rw [← hvalue] at hserves
      nth_rewrite 2 [← hcatalog] at hserves
      exact hserves
    · refine .releasing (h := h₁.into t _) hd₁ hc₁ (by simp) ⟨?_, ?_, trivial⟩
      · exact (hceiling t).trans ((if_pos rfl).trans (hrank l).symm)
      · exact (hrank d.directory).symm
  | update name' =>
    cases hi
    refine ⟨hh₁.into t _, _, .answered r (.update name) c (.visited true), phases_into hp₁ _, .reaches c ?_, ?_⟩
    · have hserves := Catalog.Serves.update (c := h.catalog) (r := r) name
      rw [hnames] at hserves
      nth_rewrite 2 [← hcatalog] at hserves
      exact hserves
    · rw [← hrank]
      exact .visiting (h := h₁.into t _) hd₁ hc₁ hl₁
  | _ => cases hi

/-- What one step of a call does. -/
theorem Reachable.turn (hr : h.Reachable) (hh : h.Housed) (hp : h.phases t = p :: rest) (hfit : h.Fits t p s)
    (hs : h.step? env t = some h') : h'.Housed ∧ ∃ p' s', h'.phases t = p' :: rest ∧
      Turn h t h' s (happenings t s.call.request p p') s' ∧ h'.Fits t p' s' := by
  have hcurrent : h.calls.current? t = some p := Calls.current?_eq_of_cons hp
  have hregistries := registries_step hs
  have hrank (l : LockId) (hl : h.rank l < Rank.unbounded) : h'.rank l = h.rank l := hr.rank_step hs hl
  have hdirectory {r : RegistryId} {d : Registry} (hd : h.registries[r]? = some d) :
      h'.registries[r]? = some d ∧ h'.rank d.directory = h.rank d.directory :=
    ⟨hregistries ▸ hd, hrank _ (hh.ranks r d hd).2⟩
  -- all steps but two leave the contents of the locks as they are
  have rests (hinquire : ∀ l previous r i, p ≠ .waiting l previous (.inquire r i)) :
      h'.Housed ∧ h'.catalog = h.catalog := by
    have hcontent := content?_step hs fun l previous r i he =>
      hinquire l previous r i (Option.some.inj (hcurrent.symm.trans he))
    exact ⟨hh.of_content hregistries hrank hcontent, catalog_congr hregistries hcontent⟩
  cases hfit with
  | @elsewhere _ q c hq he =>
    obtain ⟨hhoused, hcatalog⟩ := rests fun l previous r i heq => by
      rw [heq] at he
      cases he
    obtain ⟨p', hp', he'⟩ := step_elsewhere hp he hs
    refine ⟨hhoused, p', .asked ⟨q, c⟩, hp', ?_, .elsewhere hq he'⟩
    show Turn h t h' _ (happenings t q p p') _
    rw [happenings_elsewhere hq]
    exact .rests _ hcatalog
  | @entering r i c d hd hc =>
    obtain ⟨hhoused, hcatalog⟩ := rests (by simp)
    simp only [step?, hcurrent, Option.some.injEq] at hs
    subst hs
    subst hc
    refine ⟨hhoused, ?_⟩
    simp only [enter, hd, approach, checkAcquire]
    by_cases hle : h.ceiling t ≤ h.rank d.directory
    · rw [if_pos hle]
      exact ⟨_, _, phases_into hp _, .rests _ rfl, .refused hd hle⟩
    · rw [if_neg hle]
      exact ⟨_, _, phases_into hp _, .rests _ rfl, .waiting hd (Nat.lt_of_not_le hle)⟩
  | @refused r i c d hd hc =>
    simp only [step?, hcurrent, dropNext, Option.some.injEq] at hs
    subst hs
    exact ⟨(rests (by simp)).1, _, _, phases_into hp _, .rests _ rfl, .turnedAway hd hc⟩
  | turnedAway _ _ => simp [step?, hcurrent] at hs
  | waiting hd hc => exact hh.enters hd hc hp hs
  | reaching hd hc hi hl => exact hh.reaches hd hc hi hl hp hs
  | visiting _ _ _ => simp [step?, hcurrent] at hs
  | @releasing r i c d a gs hd hc ha hgs =>
    obtain ⟨hhoused, hcatalog⟩ := rests (by simp)
    obtain ⟨hd', hrank'⟩ := hdirectory hd
    simp only [step?, hcurrent, Option.some.injEq] at hs
    subst hs
    refine ⟨hhoused, ?_⟩
    rw [← hrank'] at hc
    cases gs with
    | nil => exact ⟨_, _, phases_into hp _, .rests _ hcatalog, .returned hd' hc ha (.same a)⟩
    | cons g gs =>
      have hcheck : h.checkRelease t g = .ok () := if_pos hgs.1
      simp only [dropNext, hcheck] at hcatalog hd' hc ⊢
      refine ⟨_, _, phases_into (h := h.release t g a.isPanic) hp _, .rests _ hcatalog, .releasing hd' hc ha ?_⟩
      have hchained : ((h.release t g a.isPanic).into t (.releasing gs a)).Chained g.previous gs :=
        hgs.2.congr fun x _ => rank_release h t g a.isPanic x.lock
      have hceiling : (h.release t g a.isPanic).ceiling t = g.previous := by rw [ceiling_release, if_pos rfl]
      exact hceiling ▸ hchained
  | @ending r c d name gs a hd hc closes =>
    obtain ⟨hhoused, hcatalog⟩ := rests (by simp)
    obtain ⟨hd', hrank'⟩ := hdirectory hd
    simp only [step?, hcurrent, Option.some.injEq] at hs
    subst hs
    refine ⟨hhoused, ?_⟩
    rw [← hrank'] at hc
    cases gs with
    | nil => exact ⟨_, _, phases_into hp _, .rests _ hcatalog, .returned hd' hc (by simp) closes⟩
    | cons g gs =>
      cases hcheck : h.checkRelease t g with
      | ok =>
        simp only [dropNext, hcheck] at hcatalog hd' hc ⊢
        exact ⟨_, _, phases_into (h := h.release t g a.isPanic) hp _, .rests _ hcatalog, .ending hd' hc closes⟩
      | error v =>
        simp only [dropNext, hcheck] at hcatalog hd' hc ⊢
        refine ⟨_, _, phases_into hp _, .rests _ hcatalog, .ending hd' hc ?_⟩
        cases closes with
        | same _ => exact .panicked v.message
        | panicked message => exact .panicked message
  | returned _ _ _ _ => simp [step?, hcurrent] at hs

end Step

end Interlock.Hierarchy
