import Interlock.Proofs.Exhaustion.Worlds

/-!
# A call that finds no room leaves no trace

The moves during a call are those of the call itself and those of the other threads. If the call finds no room, or asks
for nothing but room, the others are possible without it, too, and lead to the same world (`Same`) as the one after the
call. From there on nobody can tell that the call was made.
-/

namespace Interlock

/-- The same locks with the same contents, held by the same threads, with the same slots, ceilings and calls. -/
structure Hierarchy.Same {α : Type} (h h' : Hierarchy α) : Prop extends SameContents h h' where
  holder : ∀ l, h'.holder? l = h.holder? l
  standing : ∀ t, h'.standing t = h.standing t
  calls : h'.calls = h.calls

theorem Hierarchy.Same.lacks {α : Type} {h h' : Hierarchy α} (hs : h.Same h') : Lacks none h h' :=
  ⟨hs.toSameContents, hs.holder, fun t _ => hs.standing t, hs.calls, nofun⟩

namespace World

variable {α : Type} {only : Bool} {t u : ThreadId} {s : Site}

/-- The same objects and the same calls. -/
structure Same (w w' : World α) : Prop where
  queueList : w'.queueList = w.queueList
  stackList : w'.stackList = w.stackList
  cacheList : w'.cacheList = w.cacheList
  cells : w'.cells = w.cells
  hierarchy : w.hierarchy.Same w'.hierarchy
  sitesOf : ∀ t, w'.sitesOf t = w.sitesOf t

/-- Moves that lead from one world to another while a thread is in a call. It makes steps of the call, and nobody tries
the lock of a directory, which only the registry itself can name. -/
inductive During [BEq α] (t : ThreadId) (w : World α) : List (Move α) → World α → Prop
  | nil : During t w [] w
  | snoc {ms : List (Move α)} {w₁ w₂ : World α} (m : Move α) : During t w ms w₁ → w₁.move? m = some w₂ →
      (m.thread? = some t → ∃ env, m = .step t env) →
      (∀ u l aim, m = .perform u (.tryLock l aim) → ¬ w₁.hierarchy.IsRegistered l) → During t w (ms ++ [m]) w₂

/-- The moves that are not of the thread. -/
def others (t : ThreadId) (ms : List (Move α)) : List (Move α) := ms.filter fun m => m.thread? ≠ some t

/-! ## Nothing is gone -/

section
variable {w w' : World α}

theorem eq_of_rel {σ : Type} {R : σ → σ → Prop} {l l' : List σ} (h : ∀ i : Nat, Option.Rel R l[i]? l'[i]?)
    (hR : ∀ s s', R s s' → s' = s) : l' = l := by
  refine List.ext_getElem? fun i => ?_
  have hi := h i
  generalize l[i]? = o at hi ⊢
  generalize l'[i]? = o' at hi ⊢
  cases hi with
  | none => rfl
  | some hs => rw [hR _ _ hs]

theorem Without.same (hr : Without only none w w') : Same w w' where
  queueList := eq_of_rel (R := Queue.Without only none) hr.queueAt fun _ _ hq => by
    cases hq
    rfl
  stackList := eq_of_rel (R := Stack.Without only none) hr.stackAt fun _ _ hs => by
    cases hs
    rfl
  cacheList := eq_of_rel (R := Cache.Without only none) hr.cacheAt fun _ _ hk => by
    cases hk
    rfl
  cells := hr.cells
  hierarchy := by
    obtain ⟨a, ha, -, hr⟩ := hr.hierarchy
    obtain rfl := Option.map_eq_none_iff.mp ha
    exact ⟨hr.contents, hr.holder, fun t => hr.standing t nofun, hr.calls⟩
  sitesOf t := hr.sitesOf t nofun

namespace Same

theorem without (hs : Same w w') : Without false none w w' := by
  have same : Without false none w w := .refl w
  refine ⟨⟨?_, ?_, ?_, hs.cells, ⟨none, rfl, nofun, hs.hierarchy.lacks⟩⟩, fun t _ => hs.sitesOf t, nofun⟩
  · rw [hs.queueList]
    exact same.queueAt
  · rw [hs.stackList]
    exact same.stackAt
  · rw [hs.cacheList]
    exact same.cacheAt

theorem symm (hs : Same w w') : Same w' w := by
  have hh := hs.hierarchy.lacks.symm
  exact ⟨hs.queueList.symm, hs.stackList.symm, hs.cacheList.symm, hs.cells.symm,
    ⟨hh.contents, hh.holder, fun t => hh.standing t nofun, hh.calls⟩, fun t => (hs.sitesOf t).symm⟩

variable (hs : Same w w')
include hs

theorem move? [BEq α] (hsound : w.Sound) (hsound' : w'.Sound) (m : Move α) : Option.Rel Same (w.move? m) (w'.move? m) := by
  have follows {w w' : World α} (hs : Same w w') (hsound : w.Sound) : Follows Same (w.move? m) (w'.move? m) :=
    follows_mono (hs.without.move? hsound (fun _ _ => nofun) fun _ _ _ _ => .inl rfl) fun _ _ _ hr => hr.same
  exact rel_of_follows (follows hs hsound) (follows hs.symm hsound')

theorem report? (hsound : w.Sound) (m : Move α) : w'.report? m = w.report? m := by
  have hr := hs.without
  have free (u : ThreadId) : (none : Option (ThreadId × Site)).map Prod.fst ≠ some u := nofun
  cases m with
  | collect u => rw [World.report?, hr.answer? (free u), World.report?]
  | look u => simp only [World.report?, hr.grip? (free u), hr.gripped?]
  | perform u d =>
    have hperform := hs.hierarchy.lacks.perform? (free u) hsound.hierarchy (d := d) fun _ _ _ => rfl
    rw [World.report?, World.report?]
    generalize w.hierarchy.perform? u d = o at hperform ⊢
    generalize w'.hierarchy.perform? u d = o' at hperform ⊢
    cases hperform with
    | none => rfl
    | some hx => exact congrArg (fun x => some (Report.outcome x)) hx.2
  | read l => simp only [World.report?, hr.hierarchy.contents.element?]
  | ceiling u => simp only [World.report?, Hierarchy.ceiling, hs.hierarchy.standing]
  | queuedWriters i => simp only [World.report?, hs.cacheList]
  | _ => rfl

theorem run? [BEq α] (hsound : w.Sound) (hsound' : w'.Sound) (ms : List (Move α)) :
    Option.Rel (fun v v' => Same v v' ∧ v.Sound) (Interlock.run? World.move? w ms)
      (Interlock.run? World.move? w' ms) := by
  induction ms generalizing w w' with
  | nil => exact .some ⟨hs, hsound⟩
  | cons m ms ih =>
    have hnext := hs.move? hsound hsound' m
    simp only [Interlock.run?]
    cases hm : w.move? m with
    | none =>
      rw [hm] at hnext
      cases hm' : w'.move? m with
      | none => exact .none
      | some _ => rw [hm'] at hnext; cases hnext
    | some v =>
      rw [hm] at hnext
      cases hm' : w'.move? m with
      | none => rw [hm'] at hnext; cases hnext
      | some v' =>
        rw [hm'] at hnext
        cases hnext with
        | some h => exact ih h (hsound.evolves (evolves hm)) (hsound'.evolves (evolves hm'))

end Same

end

/-! ## During the call -/

section
variable [BEq α] {w w' w₁ w₀ : World α} {ms : List (Move α)} {m : Move α} {a : Answer α} {c : Call α} {i : Nat}

/-- A run in which nobody tries a lock at all. -/
theorem during_of_run (hrun : run? move? w ms = some w') (hown : ∀ m ∈ ms, m.thread? = some t → ∃ env, m = .step t env)
    (htry : ∀ u l aim, .perform u (.tryLock l aim) ∉ ms) : During t w ms w' := by
  induction ms using List.reverseRecOn generalizing w' with
  | nil =>
    obtain rfl := Option.some.inj hrun
    exact .nil
  | append_singleton ms m ih =>
    rw [run?_append] at hrun
    obtain ⟨w₁, hrun, hm⟩ := Option.bind_eq_some_iff.mp hrun
    have hlast : m ∈ ms ++ [m] := by simp
    have before := ih hrun (fun n hn => hown n (List.mem_append_left _ hn)) fun u l aim hn =>
      htry u l aim (List.mem_append_left _ hn)
    exact before.snoc m hm (hown m hlast) fun u l aim he => (htry u l aim (he ▸ hlast)).elim

namespace During

variable (hd : During t w ms w')
include hd

theorem run : run? move? w ms = some w' := by
  induction hd with
  | nil => rfl
  | snoc m _ hm _ _ ih => rw [run?_append, ih, Option.bind_some, hm]

theorem sound (hsound : w.Sound) : w'.Sound := by
  induction hd with
  | nil => exact hsound
  | snoc m _ hm _ _ ih => exact ih.evolves (evolves hm)

/-- The others go on as they would without the call, until it gets an answer of another kind. -/
theorem without (hsound : w.Sound) (hr : Without only (some (t, s)) w w₁) :
    (∃ w₀, run? move? w₁ (others t ms) = some w₀ ∧ Without only (some (t, s)) w' w₀) ∨ w'.Differs only t := by
  induction hd with
  | nil => exact .inl ⟨w₁, rfl, hr⟩
  | @snoc ms w₁ w₂ m hd hm hown htry ih =>
    have hsound₁ := hd.sound hsound
    by_cases ht : m.thread? = some t
    · have hothers : others t (ms ++ [m]) = others t ms := by simp [others, ht]
      rw [hothers]
      obtain ⟨env, rfl⟩ := hown ht
      rcases ih with ⟨w₀, hrun, hr⟩ | hdiffers
      · rcases hr.own hsound₁ hm with hr' | hdiffers
        · exact .inl ⟨w₀, hrun, hr'⟩
        · exact .inr hdiffers
      · exact .inr (hdiffers.own hsound₁ hm)
    · have hothers : others t (ms ++ [m]) = others t ms ++ [m] := by simp [others, ht]
      rw [hothers, run?_append]
      rcases ih with ⟨w₀, hrun, hr⟩ | hdiffers
      · have hne (u : ThreadId) (hu : m.thread? = some u) : (some (t, s)).map Prod.fst ≠ some u :=
          fun he => ht (hu.trans he.symm)
        obtain ⟨w₀', hm', hr'⟩ := hr.move? hsound₁ hne (fun u l aim he => .inr (htry u l aim he)) w₂ hm
        exact .inl ⟨w₀', by rw [hrun, Option.bind_some, hm'], hr'⟩
      · exact .inr (hdiffers.others hsound₁ (evolves hm) ht)

end During

/-- A thread that makes no move keeps its ceiling and its guards. -/
theorem others_keep (hsound : w.Sound) (hrun : run? move? w (others t ms) = some w') :
    w'.hierarchy.ceiling t = w.hierarchy.ceiling t ∧ w'.hierarchy.owned t = w.hierarchy.owned t := by
  induction ms generalizing w with
  | nil =>
    obtain rfl := Option.some.inj hrun
    exact ⟨rfl, rfl⟩
  | cons m ms ih =>
    by_cases ht : m.thread? = some t
    · exact ih hsound (by simpa [others, ht] using hrun)
    · have hothers : others t (m :: ms) = m :: others t ms := by simp [others, ht]
      rw [hothers] at hrun
      obtain ⟨w₁, hm, hrun⟩ := Option.bind_eq_some_iff.mp hrun
      obtain ⟨hceiling, howned⟩ := ih (hsound.evolves (evolves hm)) hrun
      obtain ⟨hceiling₁, howned₁, -⟩ := (evolves hm).hierarchy.others hsound.hierarchy ht
      exact ⟨hceiling.trans hceiling₁, howned.trans howned₁⟩

/-! ## Writing where there is a value -/

/-- The call of the thread is to write at the key of the cache, or has found an old value there. -/
structure Writes (t : ThreadId) (i : Nat) (key : String) (v : α) (w : World α) : Prop where
  site : (w.sitesOf t).head? = some (.cache i)
  phase : ∃ k p, w.cacheList[i]? = some k ∧ k.calls.current? t = some p ∧ p.Writes key v

namespace Writes

variable {key : String} {v : α}

omit [BEq α] in
theorem opened (h : w.start? t (.cache i (.change (.write key v))) = some w') : Writes t i key v w' := by
  have hsites := sitesOf_start h
  obtain ⟨w₁, ha, rfl⟩ := alters_start h
  cases ha with
  | @cache _ k k' _ hk hn hm =>
    obtain rfl := Option.some.inj hn
    refine ⟨?_, k', .queueing (.write key v), List.getElem?_set_self (List.getElem?_eq_some_iff.mp hk).1, ?_, .queueing⟩
    · rw [hsites]
      rfl
    · have hbegun : ({ k with calls := k.calls.start t (.queueing (.write key v)) } : Cache String α).calls.current? t =
          some (.queueing (.write key v)) := by rw [Calls.current?_start, if_pos rfl]
      change k.start? t (.change (.write key v)) = some k' at hm
      unfold Cache.start? at hm
      dsimp only at hm
      split at hm
      · exact Option.some.inj hm ▸ hbegun
      · exact Option.some.inj hm ▸ hbegun
      · cases hm

theorem own {env : Environment} (hw : Writes t i key v w)
    (hkey : ∀ k, w.cacheList[i]? = some k → k.entries.contains key = true) (h : w.step? env t = some w') : Writes t i key v w' := by
  obtain ⟨hsite, k, p, hk, hp, hwrites⟩ := hw
  obtain ⟨s, hs, ha⟩ := alters_step h
  obtain rfl := Option.some.inj (hsite.symm.trans hs)
  cases ha with
  | @cache _ _ k' _ hthere hn hm =>
    obtain rfl := Option.some.inj (hk.symm.trans hthere)
    obtain rfl := Option.some.inj hn
    obtain ⟨p', hp', hwrites'⟩ := hwrites.step hp (hkey _ hk) hm
    exact ⟨hsite, k', p', List.getElem?_set_self (List.getElem?_eq_some_iff.mp hk).1, hp', hwrites'⟩

omit [BEq α] in
theorem others (hw : Writes t i key v w) (he : Evolves m w w') (ht : m.thread? ≠ some t) : Writes t i key v w' := by
  obtain ⟨hsite, k, p, hk, hp, hwrites⟩ := hw
  have hsite' := (congrArg List.head? (he.sitesOf t ht)).trans hsite
  obtain ⟨k', hk', rfl | ⟨n, hn, hm⟩⟩ := (he.cacheAt i).there hk
  · exact ⟨hsite', k', p, hk', hp, hwrites⟩
  · have hne : n.thread ≠ t := fun he => ht (hn ▸ congrArg some he)
    exact ⟨hsite', k', p, hk', (Cache.current?_others (Cache.move_passage hm) hne).trans hp, hwrites⟩

theorem during (hw : Writes t i key v w) (hd : During t w ms w')
    (hkey : ∀ ns v k, ns <+: ms → run? move? w ns = some v → v.cacheList[i]? = some k → k.entries.contains key = true) :
    Writes t i key v w' := by
  induction hd with
  | nil => exact hw
  | @snoc ms w₁ w₂ m hd hm hown _ ih =>
    have hwrites := ih fun ns v k hns => hkey ns v k (hns.trans (List.prefix_append ms [m]))
    by_cases ht : m.thread? = some t
    · obtain ⟨env, rfl⟩ := hown ht
      exact hwrites.own (fun k hk => hkey ms w₁ k (List.prefix_append ms _) hd.run hk) hm
    · exact hwrites.others (evolves hm) ht

omit [BEq α] in
theorem answer (hw : Writes t i key v w) (ha : w.answer? t = some a) : ∃ old, a = .cache (.found (some old)) := by
  obtain ⟨hsite, k, p, hk, hp, hwrites⟩ := hw
  obtain ⟨outer, hs⟩ := List.head?_eq_some_iff.mp hsite
  unfold answer? at ha
  rw [hs] at ha
  obtain ⟨_, hthere, ha⟩ := Option.bind_eq_some_iff.mp ha
  obtain rfl := Option.some.inj (hk.symm.trans hthere)
  obtain ⟨b, hb, ha⟩ := Option.bind_eq_some_iff.mp ha
  obtain rfl := Option.some.inj ha
  simp only [Cache.answer?, hp] at hb
  cases hwrites with
  | returned old =>
    obtain rfl := Option.some.inj hb
    exact ⟨old, rfl⟩
  | _ => cases hb

end Writes

/-! ## No trace -/

/-- **A call that finds no room leaves no trace.** Whatever room there is for it and for other threads, and whatever
these do meanwhile: after a call that has found no room (or, with `only`, that asked for nothing but room, whatever it
found), the world is the same as if the call had not been made. All objects are as the other threads alone would have
left them, mutexes and sleepers included, the thread has the ceiling and the guards that it had before, and all runs
from there are the same. Writing where there is a value needs no room. -/
theorem refused_leaves_no_trace (hw : w.Reachable) (hstart : w.start? t c = some w₁) (hd : During t w₁ ms w')
    (ha : w'.answer? t = some a) :
    (∀ only, c.asksRoom only = true → a.spares only = true →
      ∃ w₀, run? move? w (others t ms) = some w₀ ∧ Same w₀ (w'.collect t) ∧
        (w'.collect t).hierarchy.ceiling t = w.hierarchy.ceiling t ∧
        (w'.collect t).hierarchy.owned t = w.hierarchy.owned t ∧
        (∀ ns, Option.Rel Same (run? move? w₀ ns) (run? move? (w'.collect t) ns)) ∧
        ∀ ns n, (run? move? (w'.collect t) ns).bind (·.report? n) = (run? move? w₀ ns).bind (·.report? n)) ∧
      ∀ i key v, c = .cache i (.change (.write key v)) →
        (∀ ns w₂ k, ns <+: ms → run? move? w₁ ns = some w₂ → w₂.cacheList[i]? = some k → k.entries.contains key = true) →
        ∃ old, a = .cache (.found (some old)) := by
  have hsound := hw.sound
  have hsound₁ : w₁.Sound := hsound.evolves (evolves (m := .start t c) hstart)
  have hsound' := hd.sound hsound₁
  refine ⟨fun only hc hspares => ?_, fun i key v hc hkey => ?_⟩
  · rcases hd.without hsound₁ (.opened hstart hc) with ⟨w₀, hrun, hr⟩ | hdiffers
    · have same := (hr.closed ha).same.symm
      have hcollect : w'.move? (.collect t) = some (w'.collect t) := by rw [move?, ha, Option.map_some]
      have hreach : w₀.Reachable := hw.run _ hrun
      have hruns := same.run? hreach.sound (hsound'.evolves (evolves hcollect))
      obtain ⟨hceiling, howned⟩ := others_keep hsound hrun
      refine ⟨w₀, hrun, same, ?_, ?_, fun ns => ?_, fun ns n => ?_⟩
      · rw [← hceiling, Hierarchy.ceiling, same.hierarchy.standing, Hierarchy.ceiling]
      · rw [← howned, Hierarchy.owned, same.hierarchy.standing, Hierarchy.phases, same.hierarchy.calls]
        rfl
      · exact rel_mono (hruns ns) fun _ _ h => h.1
      · exact bind_eq_of_rel (hruns ns) fun _ _ h => h.1.report? h.2 n
    · rw [hdiffers.answer ha] at hspares
      cases hspares
  · subst hc
    exact ((Writes.opened hstart).during hd hkey).answer ha

/-- A consumer falls asleep in an empty queue. -/
def dozing : List (Move Nat) :=
  [.addQueue [], .addRegistry 40 20, .start 2 (.queue 0 .waitPop), .step 2 default]

/-- The world that moves lead to, if they are possible. -/
def after (ms : List (Move Nat)) : World Nat := (run? move? {} ms).getD {}

/-- There is no room for an element, and meanwhile somebody asks how many entries a registry has. -/
def meanwhile : List (Move Nat) :=
  [.step 1 .refusing, .start 3 (.hierarchy (.registry 0 .len)), .step 3 default, .step 1 default]

theorem refused_leaves_no_trace_push : ∃ w w₁ w' w₀ : World Nat, w.Reachable ∧
    w.start? 1 (.queue 0 (.push 5)) = some w₁ ∧ During 1 w₁ meanwhile w' ∧
    w'.answer? 1 = some (.queue (.exhausted .refused)) ∧ run? move? w (others 1 meanwhile) = some w₀ ∧
    Same w₀ (w'.collect 1) ∧ w₀.queueList.map (·.sleepers) = [[2]] := by
  have reached : (after dozing).Reachable := Leads.refl.run dozing rfl
  have started : (after dozing).start? 1 (.queue 0 (.push 5)) =
      some (after (dozing ++ [.start 1 (.queue 0 (.push 5))])) := rfl
  have during : During 1 (after (dozing ++ [.start 1 (.queue 0 (.push 5))])) meanwhile
      (after (dozing ++ [.start 1 (.queue 0 (.push 5))] ++ meanwhile)) :=
    during_of_run rfl (by simp [meanwhile, Move.thread?]) (by simp [meanwhile])
  obtain ⟨w₀, hrun, same, -⟩ := (refused_leaves_no_trace reached started during rfl).1 false rfl rfl
  refine ⟨_, _, _, w₀, reached, started, during, rfl, hrun, same, ?_⟩
  rw [← same.queueList]
  rfl

end

end World

end Interlock
