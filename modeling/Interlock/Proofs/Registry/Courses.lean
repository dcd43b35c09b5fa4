import Interlock.Proofs.Registry.Chronicle

/-!
# The course of the calls on registries

In every state of a chronicle the phase of each call fits its stage, and the map is housed in the locks
(`Chronicle.Sound`). `Stride` says what one move adds to the history: something aside of the calls, or that a call is
made, goes on by a turn, or is over.
-/

namespace Interlock.Hierarchy

variable {α : Type}

section
variable {h h' : Hierarchy α} {t u : ThreadId} {m : Move α} {l : LockId} {p : Phase α} {s : Stage α}

/-- Nobody changes the names in a directory that is held, not even the holder. -/
theorem names_move (hm : h.move? m = some h') (hl : h.IsDirectory l) (hheld : h.holder? l = some u) :
    h'.names l = h.names l := by
  have hc := hl.content?
  rw [names_eq, names_eq]
  cases moved hm with
  | @step t env _ hs =>
    rcases content_step hs hc with ⟨-, hsame⟩ | ⟨e, -, -, hfree, -⟩
    · rw [hsame, hc]
    · rw [hheld] at hfree
      cases hfree
  | write _ _ =>
    rw [content_move hm hc, hc, edit?]
    split <;> rfl
  | borrow _ _ =>
    rw [content_move hm hc, hc, edit?]
    split <;> rfl
  | _ => rw [content_move hm hc, hc]; rfl

/-- A call stays where it is in a move that leaves the registries and what the call has in hand. -/
theorem Fits.keep (hf : h.Fits t p s) (hh : h.Housed)
    (hd : ∀ (r : RegistryId) (d : Registry), h.registries[r]? = some d →
      h'.registries[r]? = some d ∧ h'.rank d.directory = h.rank d.directory)
    (hg : ∀ g ∈ p.guards, h'.rank g.lock = h.rank g.lock ∧ (h.IsDirectory g.lock → h'.names g.lock = h.names g.lock))
    (hc : p.isVisiting = true ∨ h'.ceiling t = h.ceiling t) : h'.Fits t p s := by
  have bound {r : RegistryId} {d : Registry} {name : String} (hr : h.registries[r]? = some d) {c : Rank}
      (hmem : ⟨d.directory, c⟩ ∈ p.guards) : h'.binding? r name = h.binding? r name := by
    rw [binding?_eq (hd r d hr).1, binding?_eq hr, (hg _ hmem).2 (hh.directories r d hr)]
  cases hf with
  | elsewhere hq he => exact .elsewhere hq he
  | entering hr hceiling =>
    rcases hc with hv | hc
    · cases hv
    · exact .entering (hd _ _ hr).1 (hc.trans hceiling)
  | refused hr hle =>
    obtain ⟨hr', hrank⟩ := hd _ _ hr
    rw [← hrank] at hle ⊢
    exact .refused hr' hle
  | turnedAway hr hle =>
    obtain ⟨hr', hrank⟩ := hd _ _ hr
    rw [← hrank] at hle ⊢
    exact .turnedAway hr' hle
  | waiting hr hlt =>
    obtain ⟨hr', hrank⟩ := hd _ _ hr
    exact .waiting hr' (hrank ▸ hlt)
  | reaching hr hlt hi hl =>
    obtain ⟨hr', hrank⟩ := hd _ _ hr
    rw [← bound hr (Multiset.mem_singleton_self _)] at hl
    rw [← hrank] at hlt ⊢
    exact .reaching hr' hlt hi hl
  | @visiting _ c _ _ _ hr hlt hl =>
    obtain ⟨hr', hrank⟩ := hd _ _ hr
    rw [← bound hr (c := c) (by simp [Phase.guards])] at hl
    rw [← hrank] at hlt ⊢
    exact .visiting hr' hlt hl
  | releasing hr hlt ha hgs =>
    rcases hc with hv | hc
    · cases hv
    · obtain ⟨hr', hrank⟩ := hd _ _ hr
      exact .releasing hr' (hrank ▸ hlt) ha (hc ▸ hgs.congr fun g hmem => (hg g hmem).1)
  | ending hr hlt closes =>
    obtain ⟨hr', hrank⟩ := hd _ _ hr
    exact .ending hr' (hrank ▸ hlt) closes
  | returned hr hlt ha closes =>
    obtain ⟨hr', hrank⟩ := hd _ _ hr
    exact .returned hr' (hrank ▸ hlt) ha closes

/-- Calls of a thread stay where they are that are in their callbacks, or any if the move leaves its ceiling. -/
theorem Reachable.fits_move (hr : h.Reachable) (hh : h.Housed) (hm : h.move? m = some h') {ps : List (Phase α)}
    {st : List (Stage α)} (hfits : List.Forall₂ (h.Fits t) ps st) (hps : ∀ p ∈ ps, p ∈ h.phases t)
    (hc : (∀ p ∈ ps, p.isVisiting = true) ∨ h'.ceiling t = h.ceiling t) : List.Forall₂ (h'.Fits t) ps st := by
  obtain ⟨v, transfer, -⟩ := hr.transfer hm
  have hrank (l : LockId) (hl : h.rank l < Rank.unbounded) : h'.rank l = h.rank l := transfer.shift.rank hl
  refine ((List.forall₂_and_left _ _).mpr ⟨fun _ hp => hp, hfits⟩).imp fun p s ⟨hp, hfit⟩ => ?_
  refine hfit.keep hh (fun r d hd => ⟨registry_move hm hd, hrank _ (hh.ranks r d hd).2⟩) (fun g hg => ?_) ?_
  · have hheld := hr.holder (mem_owned.mpr (.inr ⟨p, hps p hp, hg⟩))
    exact ⟨hrank _ (hr.ceiling_le_rank hheld).2, fun hdir => names_move hm hdir hheld⟩
  · exact hc.imp_left fun hv => hv p hp

end

/-! ## The invariant -/

/-- What happens, to the map. -/
inductive Catalog.Happens (c : Catalog α) : Happening α → Catalog α → Prop
  | called (t : ThreadId) (a : Asked α) : Happens c (.called t a) c
  | entered (t : ThreadId) (r : RegistryId) : Happens c (.entered t r) c
  | served (t : ThreadId) {r : RegistryId} {i : Inquiry α} {a : Answer α} {c' : Catalog α} (hs : c.Serves r i a c') :
      Happens c (.served t r i a) c'
  | returned (t : ThreadId) (a : Answer α) : Happens c (.returned t a) c
  | made {l : LockId} (v : α) (fresh : c.value l = none) : Happens c (.made l v) (c.assign l v)
  | changed {l : LockId} {v : α} (f : α → α) (hv : c.value l = some v) : Happens c (.changed l f) (c.assign l (f v))

namespace Chronicle

structure Sound (c : Chronicle α) : Prop where
  housed : c.state.Housed
  fits : ∀ t, List.Forall₂ (c.state.Fits t) (c.state.phases t) (c.stages t)

/-- What a move adds to the history, and what it does to the stages of the calls and to the map. -/
inductive Stride (c c' : Chronicle α) : List (Happening α) → Prop
  | aside {es : List (Happening α)} (nobody : ∀ e ∈ es, e.thread? = none) (stages : c'.stages = c.stages)
      (replay : Trace Catalog.Happens c.state.catalog es c'.state.catalog) : Stride c c' es
  | called (t : ThreadId) (a : Asked α) (stages : c'.stages = Function.update c.stages t (.asked a :: c.stages t))
      (same : c'.state.catalog = c.state.catalog) : Stride c c' [.called t a]
  | turned {t : ThreadId} {s s' : Stage α} {st : List (Stage α)} {es : List (Happening α)}
      (before : c.stages t = s :: st) (stages : c'.stages = Function.update c.stages t (s' :: st))
      (turn : Turn c.state t c'.state s es s') : Stride c c' es
  | returned {t : ThreadId} {s : Stage α} {st : List (Stage α)} {a : Answer α} (before : c.stages t = s :: st)
      (fits : c.state.Fits t (.returned a) s) (stages : c'.stages = Function.update c.stages t st)
      (same : c'.state.catalog = c.state.catalog) : Stride c c' [.returned t a]

theorem sound_start : Sound ({} : Chronicle α) where
  housed := ⟨nofun, nofun, nofun, nofun, nofun⟩
  fits _ := .nil

section Next
variable {c c' : Chronicle α} {w : Work α} {m : Move α} {t : ThreadId}

theorem next?_move (hn : c.next? w = some c') : ∃ m, w.move? c.state = some m ∧ c.state.move? m = some c'.state := by
  obtain ⟨-, hledger, -⟩ := next?_eq hn
  obtain ⟨m, h', hw, hm, he⟩ := Ledger.next?_eq hledger
  refine ⟨m, hw, ?_⟩
  rw [state, state, hm, he]
  rfl

/-- The calls of all threads fit if those of the thread do that moves. -/
theorem Sound.fits_of (hs : c.Sound) (hr : c.state.Reachable) (hm : c.state.move? m = some c'.state)
    (hthread : m.thread? = some t) (hstages : ∀ u, t ≠ u → c'.stages u = c.stages u)
    (ht : List.Forall₂ (c'.state.Fits t) (c'.state.phases t) (c'.stages t)) (u : ThreadId) :
    List.Forall₂ (c'.state.Fits u) (c'.state.phases u) (c'.stages u) := by
  by_cases hu : t = u
  · exact hu ▸ ht
  · have hne : m.thread? ≠ some u := fun he => hu (Option.some.inj (hthread.symm.trans he))
    obtain ⟨hceiling, -, hphases⟩ := hr.others hm hne
    rw [hphases, hstages u hu]
    exact hr.fits_move hs.housed hm (hs.fits u) (fun _ hp => hp) (.inr hceiling)

theorem Sound.innermost (hs : c.Sound) {p : Phase α} {rest : List (Phase α)} (hphases : c.state.phases t = p :: rest) :
    ∃ s st, c.state.Fits t p s ∧ List.Forall₂ (c.state.Fits t) rest st ∧ c.stages t = s :: st := by
  have hfits := hs.fits t
  rw [hphases] at hfits
  exact List.forall₂_cons_left_iff.mp hfits

/-- The calls in whose callbacks another one was made keep their stages. -/
theorem Sound.outer (hs : c.Sound) (hr : c.state.Reachable) (hm : c.state.move? m = some c'.state) {p : Phase α}
    {rest : List (Phase α)} {st : List (Stage α)} (hphases : c.state.phases t = p :: rest)
    (hrest : List.Forall₂ (c.state.Fits t) rest st) : List.Forall₂ (c'.state.Fits t) rest st := by
  refine hr.fits_move hs.housed hm hrest (fun q hq => ?_) (.inl (hr.poised t p rest hphases).2)
  rw [hphases]
  exact List.mem_cons_of_mem p hq

/-- A move that no call notices. -/
theorem Sound.fits_aside (hs : c.Sound) (hr : c.state.Reachable) (hm : c.state.move? m = some c'.state)
    (hphases : ∀ u, c'.state.phases u = c.state.phases u) (hstages : c'.stages = c.stages)
    (hc : ∀ u, (∀ p ∈ c.state.phases u, p.isVisiting = true) ∨ c'.state.ceiling u = c.state.ceiling u) (u : ThreadId) :
    List.Forall₂ (c'.state.Fits u) (c'.state.phases u) (c'.stages u) := by
  rw [hphases, hstages]
  exact hr.fits_move hs.housed hm (hs.fits u) (fun _ hp => hp) (hc u)

/-- An element is changed. -/
theorem Sound.changed (hs : c.Sound) (hr : c.state.Reachable) (hm : c.state.move? m = some c'.state) {l : LockId}
    {v : α} (f : α → α) (hv : c.state.element? l = some v) (he : c'.state = c.state.setContent l (.element (f v)))
    (stages : c'.stages = c.stages) : c'.Sound ∧ c.Stride c' [.changed l f] := by
  have hcatalog := hs.housed.catalog_setElement hv (f v)
  refine ⟨⟨?_, hs.fits_aside hr hm (fun u => ?_) stages fun u => .inr ?_⟩, .aside ?_ stages ⟨_, .changed f hv, ?_⟩⟩
  · rw [he]
    exact hs.housed.setElement hv (f v)
  · rw [he]
    rfl
  · rw [he]
    rfl
  · simp [Happening.thread?]
  · show c.state.catalog.assign l (f v) = c'.state.catalog
    rw [he, hcatalog]

/-- A move of a thread that is in no call, or in a callback, and leaves what the locks protect. -/
theorem Sound.idle (hs : c.Sound) (hr : c.state.Reachable) (hm : c.state.move? m = some c'.state)
    (hthread : m.thread? = some t) (hfree : c.state.isFree t = true) (hcalls : c'.state.calls = c.state.calls)
    (hregistries : c'.state.registries = c.state.registries)
    (hcontent : ∀ l, c'.state.content? l = c.state.content? l) (stages : c'.stages = c.stages) :
    c'.Sound ∧ c.Stride c' [] := by
  obtain ⟨v, transfer, -⟩ := hr.transfer hm
  have hphases (u : ThreadId) : c'.state.phases u = c.state.phases u := by rw [phases, hcalls, phases]
  refine ⟨⟨hs.housed.of_content hregistries (fun l hl => transfer.shift.rank hl) hcontent,
    hs.fits_of hr hm hthread (fun u _ => by rw [stages]) ?_⟩, .aside (by simp) stages ?_⟩
  · rw [hphases, stages]
    exact hr.fits_move hs.housed hm (hs.fits t) (fun _ hp => hp) (.inl (visiting_of_isFree (hr.poised t) hfree))
  · exact (catalog_congr hregistries hcontent).symm

/-- A call goes on. -/
theorem Sound.step (hs : c.Sound) (hr : c.state.Reachable) {env : Environment}
    (hn : c.next? (.move (.step t env)) = some c') (hm : c.state.move? (.step t env) = some c'.state) :
    c'.Sound ∧ ∃ es, c'.history = c.history ++ es ∧ c.Stride c' es := by
  obtain ⟨-, -, hstages, hhistory⟩ := next?_eq hn
  cases hphases : c.state.phases t with
  | nil =>
    have hnone : c.state.step? env t = none := by
      have hcurrent : c.state.calls.current? t = none := by rw [← Calls.head?_of]; exact congrArg List.head? hphases
      rw [step?, hcurrent]
    rw [move?, hnone] at hm
    cases hm
  | cons p rest =>
    obtain ⟨s, st, hfit, hrest, hbefore⟩ := hs.innermost hphases
    obtain ⟨hhoused, p', s', hphases', hturn, hfit'⟩ := hr.turn hs.housed hphases hfit hm
    have hnotes : c.notes (.move (.step t env)) c'.state = happenings t s.call.request p p' := by
      simp only [notes, hbefore, Calls.current?_eq_of_cons hphases, Calls.current?_eq_of_cons hphases', List.head?_cons]
    have hstages : c'.stages = Function.update c.stages t (s' :: st) := by
      rw [hstages, stagesAfter, hnotes, hbefore, List.modifyHead_cons, hturn.foldl]
    refine ⟨⟨hhoused, hs.fits_of hr hm rfl (fun u hu => ?_) ?_⟩, _, hhistory, ?_⟩
    · rw [hstages, Function.update_of_ne (Ne.symm hu)]
    · rw [hphases', hstages, Function.update_self]
      exact .cons hfit' (hs.outer hr hm hphases hrest)
    · rw [hnotes]
      exact .turned hbefore hstages hturn

theorem fits_entering {h : Hierarchy α} {q : Request α} (ha : h.admits t q = true) :
    h.Fits t (.entering q) (.asked ⟨q, h.ceiling t⟩) := by
  cases q with
  | registry r i =>
    have hlt : r < h.registries.length := of_decide_eq_true ha
    exact .entering (List.getElem?_eq_getElem hlt) rfl
  | lock l aim => exact .elsewhere nofun (.entering nofun)
  | drop slots panic => exact .elsewhere nofun (.entering nofun)

/-- The callback of a call is over. -/
theorem fits_ended {h : Hierarchy α} {entry directory : Guard} {s : Stage α}
    (hf : h.Fits t (.visiting entry directory) s)
    {a : Answer α} (closes : Closes (.visited true) a) :
    (h.into t (.releasing [entry, directory] a)).Fits t (.releasing [entry, directory] a) s := by
  cases hf with
  | elsewhere _ he => cases he
  | visiting hd hlt _ => exact .ending (h := h.into t _) hd hlt closes

theorem Sound.start (hs : c.Sound) (hr : c.state.Reachable) {q : Request α}
    (hn : c.next? (.move (.start t q)) = some c') (hm : c.state.move? (.start t q) = some c'.state) :
    c'.Sound ∧ c.Stride c' [.called t ⟨q, c.state.ceiling t⟩] := by
  obtain ⟨-, -, hstages, -⟩ := next?_eq hn
  have hm' := hm
  generalize he : c'.state = h' at hm'
  cases moved hm' with
  | start hfree hadmits =>
    have hcatalog : c'.state.catalog = c.state.catalog := by
      rw [he]
      rfl
    have hphases : c'.state.phases t = .entering q :: c.state.phases t := by
      rw [he]
      exact phases_start ..
    have hfit : c'.state.Fits t (.entering q) (.asked ⟨q, c.state.ceiling t⟩) := by
      rw [he]
      exact fits_entering (h := { c.state with calls := c.state.calls.start t (.entering q) }) hadmits
    refine ⟨⟨?_, hs.fits_of hr hm rfl (fun u hu => ?_) ?_⟩, .called t _ hstages hcatalog⟩
    · rw [he]
      exact hs.housed.of_content rfl (fun _ _ => rfl) fun _ => rfl
    · rw [hstages, stagesAfter, Function.update_of_ne (Ne.symm hu)]
    · rw [hphases, hstages, stagesAfter, Function.update_self]
      exact .cons hfit (hr.fits_move hs.housed hm (hs.fits t) (fun _ hp => hp)
        (.inl (visiting_of_isFree (hr.poised t) hfree)))

theorem Sound.finish (hs : c.Sound) (hr : c.state.Reachable) {e : Ending}
    (hn : c.next? (.move (.finish t e)) = some c') (hm : c.state.move? (.finish t e) = some c'.state) :
    c'.Sound ∧ c.Stride c' [] := by
  have hstages : c'.stages = c.stages := (next?_eq hn).2.2.1
  have hm' := hm
  generalize he : c'.state = h' at hm'
  cases moved hm' with
  | @finish _ entry directory _ hcurrent =>
    obtain ⟨a, closes, he⟩ : ∃ a, Closes (.visited true) a ∧
        c'.state = c.state.into t (.releasing [entry, directory] a) := by
      cases e with
      | finished => exact ⟨_, .same _, he⟩
      | panicked message => exact ⟨_, .panicked message, he⟩
    have hbefore := phases_eq_cons hcurrent
    obtain ⟨s, st, hfit, hrest, hst⟩ := hs.innermost hbefore
    have hcatalog : c'.state.catalog = c.state.catalog := by
      rw [he]
      rfl
    refine ⟨⟨?_, hs.fits_of hr hm rfl (fun u _ => congrFun hstages u) ?_⟩, .aside (by simp) hstages hcatalog.symm⟩
    · rw [he]
      exact hs.housed.into t _
    · rw [hstages, hst, he, phases_into hbefore]
      refine .cons (fits_ended hfit closes) ?_
      rw [← he]
      exact hs.outer hr hm hbefore hrest

theorem Sound.collect (hs : c.Sound) (hr : c.state.Reachable)
    (hn : c.next? (.move (.collect t)) = some c') (hm : c.state.move? (.collect t) = some c'.state) :
    c'.Sound ∧ ∃ es, c'.history = c.history ++ es ∧ c.Stride c' es := by
  obtain ⟨-, -, hstages, hhistory⟩ := next?_eq hn
  have hm' := hm
  generalize he : c'.state = h' at hm'
  cases moved hm' with
  | @collect _ a hcurrent =>
    have hbefore := phases_eq_cons hcurrent
    obtain ⟨s, st, hfit, hrest, hst⟩ := hs.innermost hbefore
    have hcatalog : c'.state.catalog = c.state.catalog := by
      rw [he]
      rfl
    have hanswer : c.state.answer? t = some a := by rw [answer?, hcurrent]
    rw [notes, hanswer, Option.map_some, Option.toList_some] at hhistory
    have hstages : c'.stages = Function.update c.stages t st := by rw [hstages, stagesAfter, hst, List.tail_cons]
    refine ⟨⟨?_, hs.fits_of hr hm rfl (fun u hu => ?_) ?_⟩, _, hhistory, .returned hst hfit hstages hcatalog⟩
    · rw [he]
      exact hs.housed.of_content rfl (fun _ _ => rfl) fun _ => rfl
    · rw [hstages, Function.update_of_ne (Ne.symm hu)]
    · rw [he, phases_collect, hstages, Function.update_self, ← he]
      exact hs.outer hr hm hbefore hrest

theorem Sound.move (hs : c.Sound) (hr : c.state.Reachable) (hn : c.next? (.move m) = some c')
    (hm : c.state.move? m = some c'.state) : c'.Sound ∧ ∃ es, c'.history = c.history ++ es ∧ c.Stride c' es := by
  obtain ⟨hbuilt, -, hstages, hhistory⟩ := next?_eq hn
  cases m with
  | start t q =>
    obtain ⟨hsound, hstride⟩ := hs.start hr hn hm
    exact ⟨hsound, _, hhistory, hstride⟩
  | step t env => exact hs.step hr hn hm
  | finish t e =>
    obtain ⟨hsound, hstride⟩ := hs.finish hr hn hm
    exact ⟨hsound, _, hhistory, hstride⟩
  | collect t => exact hs.collect hr hn hm
  | addLock rank v =>
    have he := Option.some.inj hm
    have hcatalog := hs.housed.catalog_addLock rank v
    have hfresh : c.state.element? c.state.locks.length = none := by rw [element?_eq, content?_length]; rfl
    rw [he] at hcatalog
    refine ⟨⟨he ▸ hs.housed.addLock rank v, hs.fits_aside hr hm (fun u => ?_) hstages fun u => .inr ?_⟩, _, hhistory,
      .aside ?_ hstages ⟨_, .made v hfresh, hcatalog.symm⟩⟩
    · exact he ▸ rfl
    · exact he ▸ rfl
    · simp [notes, Happening.thread?]
  | addRegistry directoryRank entryRank =>
    have he := Option.some.inj hm
    have hcatalog := hs.housed.catalog_addRegistry directoryRank entryRank
    rw [he] at hcatalog
    simp only [Work.isBuilt, Bool.and_eq_true, decide_eq_true_eq] at hbuilt
    obtain ⟨hword, hvalid⟩ := hbuilt
    have hvalid : (RegistryRanks.mk directoryRank entryRank).Valid := by
      refine RegistryRanks.valid_of_validate ?_
      cases hv : RegistryRanks.validate ⟨directoryRank, entryRank⟩ with
      | ok => rfl
      | error f =>
        rw [hv] at hvalid
        cases hvalid
    have hbounded : directoryRank < Rank.unbounded := Nat.lt_of_le_of_ne hword hvalid.2
    refine ⟨⟨he ▸ hs.housed.addRegistry hvalid.1 hbounded, hs.fits_aside hr hm (fun u => ?_) hstages fun u => .inr ?_⟩, _,
      hhistory, .aside (fun _ he => absurd he List.not_mem_nil) hstages hcatalog.symm⟩
    · exact he ▸ rfl
    · exact he ▸ rfl
  | perform t d =>
    have hm' := hm
    generalize he : c'.state = h' at hm'
    cases moved hm' with
    | perform hfree hd =>
      have arranged := arranges_attempt hd
      refine And.imp_right (fun hstride => ⟨_, hhistory, hstride⟩) (hs.idle hr hm rfl hfree ?_ ?_ (fun l => ?_) hstages)
      · exact he ▸ arranged.calls
      · exact he ▸ arranged.registries
      · exact he ▸ content?_attempt hd l
  | leak t slot =>
    have hm' := hm
    generalize he : c'.state = h' at hm'
    cases moved hm' with
    | leak hfree =>
      refine And.imp_right (fun hstride => ⟨_, hhistory, hstride⟩) (hs.idle hr hm rfl hfree ?_ ?_ (fun l => ?_) hstages)
      · exact he ▸ rfl
      · exact he ▸ rfl
      · exact he ▸ rfl
  | write t l v =>
    have hm' := hm
    generalize he : c'.state = h' at hm'
    cases moved hm' with
    | write _ hw =>
      obtain ⟨hsound, hstride⟩ := hs.changed hr hm (fun _ => v) hw he hstages
      exact ⟨hsound, _, hhistory, hstride⟩
  | borrow l v =>
    have hm' := hm
    generalize he : c'.state = h' at hm'
    cases moved hm' with
    | borrow _ hw =>
      obtain ⟨hsound, hstride⟩ := hs.changed hr hm (fun _ => v) hw he hstages
      exact ⟨hsound, _, hhistory, hstride⟩

/-- **What one move does** to the calls, to the history and to the map. -/
theorem Sound.next (hs : c.Sound) (hr : c.state.Reachable) (hn : c.next? w = some c') :
    c'.Sound ∧ ∃ es, c'.history = c.history ++ es ∧ c.Stride c' es := by
  obtain ⟨m, hw, hm⟩ := next?_move hn
  obtain ⟨-, -, hstages, hhistory⟩ := next?_eq hn
  cases w with
  | move m' =>
    cases hw
    exact hs.move hr hn hm
  | modify t l f =>
    obtain ⟨v, hv, rfl⟩ := Option.map_eq_some_iff.mp hw
    have hm' := hm
    generalize he : c'.state = h' at hm'
    cases moved hm' with
    | write _ _ =>
      obtain ⟨hsound, hstride⟩ := hs.changed hr hm f hv he hstages
      exact ⟨hsound, _, hhistory, hstride⟩
  | amend l f =>
    obtain ⟨v, hv, rfl⟩ := Option.map_eq_some_iff.mp hw
    have hm' := hm
    generalize he : c'.state = h' at hm'
    cases moved hm' with
    | borrow _ _ =>
      obtain ⟨hsound, hstride⟩ := hs.changed hr hm f hv he hstages
      exact ⟨hsound, _, hhistory, hstride⟩

end Next

theorem Sound.fits_of_mem {c : Chronicle α} (hs : c.Sound) {t : ThreadId} {p : Phase α}
    (hp : p ∈ c.state.phases t) : ∃ s, c.state.Fits t p s := by
  have hfits := hs.fits t
  generalize c.stages t = st at hfits
  generalize c.state.phases t = ps at hp hfits
  induction hfits with
  | nil => cases hp
  | @cons _ s _ _ hfit _ ih =>
    rcases List.mem_cons.mp hp with rfl | hp
    · exact ⟨s, hfit⟩
    · exact ih hp

theorem Reachable.sound {c : Chronicle α} (hc : c.Reachable) : c.Sound := by
  induction hc with
  | refl => exact sound_start
  | tail w hc hn ih => exact (ih.next (Chronicle.Reachable.state hc) hn).1

/-- The last move of a run. -/
theorem Reachable.stride {c c' : Chronicle α} {w : Work α} (hc : c.Reachable) (hn : c.next? w = some c') :
    ∃ es, c'.history = c.history ++ es ∧ c.Stride c' es := (hc.sound.next hc.state hn).2

/-! ## Courses and the replay -/

section Stride
variable {c c' : Chronicle α} {es : List (Happening α)} {t : ThreadId}

theorem trace_nobody (st : List (Stage α)) (nobody : ∀ e ∈ es, e.thread? = none) : Trace (Advances t) st es st := by
  induction es with
  | nil => rfl
  | cons e es ih =>
    have he : e.thread? ≠ some t := by simp [nobody e List.mem_cons_self]
    exact ⟨st, .other st he, ih fun e he => nobody e (List.mem_cons_of_mem _ he)⟩

theorem Stride.course (hs : c.Stride c' es) (t : ThreadId) : Trace (Advances t) (c.stages t) es (c'.stages t) := by
  have other {u : ThreadId} (hu : u ≠ t) {e : Happening α} (he : e.thread? = some u) (st : List (Stage α)) :
      Advances t st e st := .other st (by simpa [he] using hu)
  cases hs with
  | aside nobody stages _ => exact stages ▸ trace_nobody _ nobody
  | called u a stages _ =>
    rw [stages]
    by_cases hu : u = t
    · subst hu
      rw [Function.update_self]
      exact ⟨_, .called _ a, rfl⟩
    · rw [Function.update_of_ne (Ne.symm hu)]
      exact ⟨_, other hu rfl _, rfl⟩
  | @turned u s s' st _ before stages turn =>
    rw [stages]
    by_cases hu : u = t
    · subst hu
      rw [Function.update_self, before]
      cases turn with
      | rests _ _ => rfl
      | enters i k _ _ _ => exact ⟨_, .entered st _ i k, rfl⟩
      | serves k _ _ _ => exact ⟨_, .entered st _ _ k, _, .served st _ _ k _, rfl⟩
      | reaches k _ => exact ⟨_, .served st _ _ k _, rfl⟩
    · rw [Function.update_of_ne (Ne.symm hu)]
      cases turn with
      | rests _ _ => rfl
      | enters i k _ _ _ => exact ⟨_, other hu rfl _, rfl⟩
      | serves k _ _ _ => exact ⟨_, other hu rfl _, _, other hu rfl _, rfl⟩
      | reaches k _ => exact ⟨_, other hu rfl _, rfl⟩
  | @returned u s st a before fits stages _ =>
    rw [stages]
    by_cases hu : u = t
    · subst hu
      rw [Function.update_self, before]
      cases fits with
      | elsewhere hq _ => exact ⟨st, .elsewhere st _ a hq, rfl⟩
      | turnedAway _ _ => exact ⟨st, .refused st _ _ _ _, rfl⟩
      | returned _ _ _ closes => exact ⟨st, .returned st _ _ _ closes, rfl⟩
    · rw [Function.update_of_ne (Ne.symm hu)]
      exact ⟨_, other hu rfl _, rfl⟩

theorem Stride.replay (hs : c.Stride c' es) : Trace Catalog.Happens c.state.catalog es c'.state.catalog := by
  cases hs with
  | aside _ _ replay => exact replay
  | called u a _ same => exact same ▸ ⟨_, .called u a, rfl⟩
  | @turned u _ _ _ _ _ _ turn =>
    cases turn with
    | rests _ same => exact same.symm
    | @enters r _ _ _ _ _ same => exact same ▸ ⟨_, .entered u r, rfl⟩
    | serves _ _ _ serves => exact ⟨_, .entered u _, _, .served u serves, rfl⟩
    | reaches _ serves => exact ⟨_, .served u serves, rfl⟩
  | @returned u _ _ a _ _ _ same => exact same ▸ ⟨_, .returned u a, rfl⟩

end Stride

/-- Each call on a registry gets the directory, is served once, after that, and its answer is taken after that; or it
is refused, and that is all. -/
theorem Reachable.course {c : Chronicle α} (hc : c.Reachable) (t : ThreadId) :
    Trace (Advances t) [] c.history (c.stages t) := by
  induction hc with
  | refl => rfl
  | tail w hc hn ih =>
    obtain ⟨es, hhistory, hstride⟩ := Reachable.stride hc hn
    rw [hhistory]
    exact trace_append.mpr ⟨_, ih, hstride.course t⟩

/-- Serving the calls one after another, in the order of the history, explains all answers. -/
theorem Reachable.replay {c : Chronicle α} (hc : c.Reachable) : Trace Catalog.Happens {} c.history c.state.catalog := by
  induction hc with
  | refl => rfl
  | tail w hc hn ih =>
    obtain ⟨es, hhistory, hstride⟩ := Reachable.stride hc hn
    rw [hhistory]
    exact trace_append.mpr ⟨_, ih, hstride.replay⟩

/-! ## The order of serving -/

def entrants (r : RegistryId) (es : List (Happening α)) : List ThreadId :=
  es.filterMap fun
    | .entered t r' => if r' = r then some t else none
    | _ => none

def served (r : RegistryId) (es : List (Happening α)) : List ThreadId :=
  es.filterMap fun
    | .served t r' _ _ => if r' = r then some t else none
    | _ => none

/-- A call of the thread has got the directory and is still to be served. -/
def IsInside (c : Chronicle α) (r : RegistryId) (t : ThreadId) : Prop := ∃ i k, Stage.inside r i k ∈ c.stages t

/-- All that got the directory are served in that order, but for the last one, which may still be inside. -/
def InOrder (c : Chronicle α) (r : RegistryId) : Prop :=
  ∃ pending : Option ThreadId, entrants r c.history = served r c.history ++ pending.toList ∧
    ∀ t, pending = some t ↔ c.IsInside r t

section Order
variable {c c' : Chronicle α} {r : RegistryId} {t : ThreadId}

theorem not_inside_of_visiting {h : Hierarchy α} {ps : List (Phase α)} {st : List (Stage α)}
    (hfits : List.Forall₂ (h.Fits t) ps st) (hv : ∀ p ∈ ps, p.isVisiting = true) (i : Inquiry α) (k : Rank) :
    Stage.inside r i k ∉ st := by
  induction hfits with
  | nil => exact List.not_mem_nil
  | @cons p s ps st hfit _ ih =>
    intro hmem
    rcases List.mem_cons.mp hmem with rfl | hmem
    · have hp := hv p List.mem_cons_self
      cases hfit
      cases hp
    · exact ih (fun q hq => hv q (List.mem_cons_of_mem p hq)) hmem

/-- Who is inside holds the directory. -/
theorem Sound.holder (hs : c.Sound) (hr : c.state.Reachable) {d : Registry} (hd : c.state.registries[r]? = some d)
    (ht : c.IsInside r t) : c.state.holder? d.directory = some t := by
  obtain ⟨i, k, hmem⟩ := ht
  cases hphases : c.state.phases t with
  | nil =>
    have hfits := hs.fits t
    rw [hphases, List.forall₂_nil_left_iff] at hfits
    rw [hfits] at hmem
    cases hmem
  | cons p rest =>
    obtain ⟨s, st, hfit, hrest, hbefore⟩ := hs.innermost hphases
    rw [hbefore] at hmem
    rcases List.mem_cons.mp hmem with rfl | hmem
    · cases hfit with
      | reaching hd' _ _ _ =>
        rw [hd] at hd'
        cases hd'
        refine hr.holder (g := ⟨d.directory, k⟩) (mem_owned.mpr (.inr ⟨_, hphases ▸ List.mem_cons_self, ?_⟩))
        exact Multiset.mem_singleton_self _
    · exact absurd hmem (not_inside_of_visiting hrest (hr.poised t p rest hphases).2 i k)

theorem entrants_append (r : RegistryId) (es es' : List (Happening α)) :
    entrants r (es ++ es') = entrants r es ++ entrants r es' := List.filterMap_append

theorem served_append (r : RegistryId) (es es' : List (Happening α)) :
    served r (es ++ es') = served r es ++ served r es' := List.filterMap_append

theorem InOrder.append (ho : c.InOrder r) (before after : Option ThreadId) {es : List (Happening α)}
    (hhistory : c'.history = c.history ++ es) (hbefore : ∀ t, before = some t ↔ c.IsInside r t)
    (hafter : ∀ t, after = some t ↔ c'.IsInside r t)
    (he : before.toList ++ entrants r es = served r es ++ after.toList) : c'.InOrder r := by
  obtain ⟨pending, horder, hpending⟩ := ho
  obtain rfl : pending = before := Option.ext fun t => (hpending t).trans (hbefore t).symm
  refine ⟨after, ?_, hafter⟩
  rw [hhistory, entrants_append, served_append, horder, List.append_assoc, he, List.append_assoc]

/-- Nobody enters or leaves. -/
theorem InOrder.keep (ho : c.InOrder r) {es : List (Happening α)} (hhistory : c'.history = c.history ++ es)
    (hentrants : entrants r es = []) (hserved : served r es = [])
    (hinside : ∀ t, c'.IsInside r t ↔ c.IsInside r t) : c'.InOrder r := by
  obtain ⟨pending, -, hpending⟩ := id ho
  refine ho.append pending pending hhistory hpending (fun t => (hpending t).trans (hinside t).symm) ?_
  rw [hentrants, hserved, List.append_nil, List.nil_append]

theorem isInside_update {s : Stage α} {st : List (Stage α)} {u : ThreadId} (hst : ∀ i k, Stage.inside r i k ∉ st)
    (stages : c'.stages = Function.update c.stages t (s :: st)) :
    c'.IsInside r u ↔ if u = t then ∃ i k, s = .inside r i k else c.IsInside r u := by
  unfold IsInside
  rw [stages, Function.update_apply]
  split
  · simp [hst, eq_comm]
  · rfl

theorem Sound.tail (hs : c.Sound) (hr : c.state.Reachable) {s : Stage α} {st : List (Stage α)}
    (hbefore : c.stages t = s :: st) (i : Inquiry α) (k : Rank) : Stage.inside r i k ∉ st := by
  have hfits := hs.fits t
  rw [hbefore] at hfits
  obtain ⟨p, rest, -, hrest, hphases⟩ := List.forall₂_cons_right_iff.mp hfits
  exact not_inside_of_visiting hrest (hr.poised t p rest hphases).2 i k

theorem InOrder.turn (ho : c.InOrder r) (hs : c.Sound) (hr : c.state.Reachable) {s s' : Stage α} {st : List (Stage α)}
    {es : List (Happening α)} (hhistory : c'.history = c.history ++ es) (before : c.stages t = s :: st)
    (stages : c'.stages = Function.update c.stages t (s' :: st)) (turn : Turn c.state t c'.state s es s') :
    c'.InOrder r := by
  have hst := hs.tail (r := r) hr before
  have hinside (u : ThreadId) := isInside_update (u := u) hst stages
  have hhere : c.IsInside r t ↔ ∃ i k, s = .inside r i k := by simp [IsInside, before, hst, eq_comm]
  have nobody {r' : RegistryId} {d : Registry} (hd : c.state.registries[r']? = some d)
      (free : c.state.holder? d.directory = none) (u : ThreadId) : ¬ c.IsInside r' u := fun hu => by
    rw [hs.holder hr hd hu] at free
    cases free
  -- an event of another registry is none of this one
  have elsewhere (hentrants : entrants r es = []) (hserved : served r es = []) (hs₀ : ∀ i k, s ≠ .inside r i k)
      (hs' : ∀ i k, s' ≠ .inside r i k) : c'.InOrder r := by
    refine ho.keep hhistory hentrants hserved fun u => (hinside u).trans ?_
    split
    · rename_i hu
      rw [hu, hhere]
      simp [hs₀, hs']
    · rfl
  cases turn with
  | rests _ _ =>
    refine ho.keep hhistory rfl rfl fun u => (hinside u).trans ?_
    split
    · rename_i hu
      rw [hu, hhere]
    · rfl
  | @enters r' _ i k hd free _ =>
    by_cases hr' : r' = r
    · subst hr'
      have hnobody := nobody hd free
      refine ho.append none (some t) hhistory (fun u => by simp [hnobody]) (fun u => ?_)
        (by simp [entrants, served])
      rw [hinside u]
      split
      · rename_i hu
        simp [hu]
      · rename_i hu
        simp [Ne.symm hu, hnobody]
    · exact elsewhere (by simp [entrants, hr']) (by simp [served]) nofun (by simp [hr'])
  | @serves r' _ i a k hd free _ =>
    by_cases hr' : r' = r
    · subst hr'
      have hnobody := nobody hd free
      refine ho.append none none hhistory (fun u => by simp [hnobody]) (fun u => ?_)
        (by simp [entrants, served])
      rw [hinside u]
      split
      · simp
      · simp [hnobody]
    · exact elsewhere (by simp [entrants, hr']) (by simp [served, hr']) nofun nofun
  | @reaches r' i a k _ =>
    by_cases hr' : r' = r
    · subst hr'
      obtain ⟨pending, -, hpending⟩ := id ho
      obtain rfl : pending = some t := (hpending t).mpr (hhere.mpr ⟨i, k, rfl⟩)
      refine ho.append (some t) none hhistory hpending (fun u => ?_) (by simp [entrants, served])
      rw [hinside u]
      split
      · simp
      · rename_i hu
        simp [← hpending, Ne.symm hu]
    · exact elsewhere (by simp [entrants]) (by simp [served, hr']) (by simp [hr']) nofun

theorem InOrder.next (ho : c.InOrder r) (hs : c.Sound) (hr : c.state.Reachable) {es : List (Happening α)}
    (hhistory : c'.history = c.history ++ es) (hstride : c.Stride c' es) : c'.InOrder r := by
  cases hstride with
  | aside nobody stages _ =>
    refine ho.keep hhistory ?_ ?_ fun u => by rw [IsInside, stages, IsInside]
    · refine List.filterMap_eq_nil_iff.mpr fun e he => ?_
      have := nobody e he
      cases e <;> first | rfl | cases this
    · refine List.filterMap_eq_nil_iff.mpr fun e he => ?_
      have := nobody e he
      cases e <;> first | rfl | cases this
  | called t a stages _ =>
    refine ho.keep hhistory rfl rfl fun u => ?_
    unfold IsInside
    rw [stages, Function.update_apply]
    split
    · rename_i hu
      simp [hu]
    · rfl
  | turned before stages turn => exact ho.turn hs hr hhistory before stages turn
  | @returned t s st a before fits stages _ =>
    refine ho.keep hhistory rfl rfl fun u => ?_
    unfold IsInside
    rw [stages, Function.update_apply]
    split
    · rename_i hu
      have hs' (i : Inquiry α) (k : Rank) : Stage.inside r i k ≠ s := by
        rintro rfl
        cases fits
      simp [hu, before, hs']
    · rfl

end Order

/-- Calls on one registry are served in the order in which they get the directory. -/
theorem Reachable.inOrder {c : Chronicle α} (hc : c.Reachable) (r : RegistryId) : c.InOrder r := by
  induction hc with
  | refl => exact ⟨none, rfl, fun t => by simp [IsInside]⟩
  | tail w hc hn ih =>
    obtain ⟨es, hhistory, hstride⟩ := Reachable.stride hc hn
    exact ih.next (Reachable.sound hc) (Reachable.state hc) hhistory hstride

end Chronicle

end Interlock.Hierarchy
