import Interlock.Proofs.Registry.Callback

/-!
# Balance of locks around a callback

What the thread holds when the callback is over decides what becomes of the directory and the entry. With nothing
further in than the entry both are released, and the thread has what it had before the call. With a lock further in both
drops are refused, and the two locks are stuck; what lies further in can still be released, and then the ceiling is the
rank of the entry for good.
-/

namespace Interlock.Hierarchy

variable {α : Type}

namespace Record

/-! ## Locks that stay -/

/-- The entry is held by the thread for good, with the directory and all that it held before the call. -/
structure Leaks (r : Record α) (u : Update α) (l : LockId) : Prop where
  stuck : r.state.tenancy l = .stuck u.thread
  rank : r.state.rank l = u.made.entryRank
  held : ∃ inner, r.held u.thread = inner ++ u.entry l :: u.directory :: u.held

section
variable {r r' : Record α} {u : Update α} {l : LockId} {m : Move α} {ms : List (Move α)} {g : Guard}
variable {inner : List Guard} {e : Ending}

theorem Leaks.next (hl : r.Leaks u l) (hr : r.Reachable) (hn : r.next? m = some r') : r'.Leaks u l := by
  obtain ⟨inner, hheld⟩ := hl.held
  obtain ⟨h', hm, hr'⟩ := Option.map_eq_some_iff.mp hn
  obtain rfl : h' = r'.state := congrArg Record.state hr'
  have hstuck : r'.state.tenancy l = .stuck u.thread := hr.state.stuck_move hm hl.stuck
  exact ⟨hstuck, (hr.state.rank_move hm (of_tenancy_stuck hl.stuck).1).trans hl.rank,
    hr.held_outside hn hheld (x := u.entry l) (of_tenancy_stuck hstuck).1⟩

theorem Leaks.run (hl : r.Leaks u l) (hr : r.Reachable) (hms : run? next? r ms = some r') : r'.Leaks u l := by
  induction ms generalizing r with
  | nil =>
    cases hms
    exact hl
  | cons m ms ih =>
    obtain ⟨r₁, hn, hms⟩ := Option.bind_eq_some_iff.mp hms
    exact ih (hl.next hr hn) (Leads.tail m hr hn) hms

theorem Leaves.refusesDrop (hl : r.Leaves u l (g :: inner) e) (hr : r.Reachable) :
    r.state.RefusesDrop u.thread (u.entry l) := by
  have hentry : u.entry l ∈ r.held u.thread := by
    rw [hl.held]
    simp
  have hcheck := (hr.sound.isStack u.thread).checkRelease hentry
  rw [mayRelease, if_neg (hl.other hr (by simp))] at hcheck
  exact ⟨_, _, _, Calls.current?_eq_of_cons hl.phase, hcheck⟩

theorem Leaves.next (hl : r.Leaves u l (g :: inner) e) (hr : r.Reachable) (hn : r.next? m = some r') :
    r'.Leaves u l (g :: inner) e ∧ (∀ env, m ≠ .step u.thread env) ∨ r'.Leaks u l := by
  obtain ⟨h', hm, hr'⟩ := Option.map_eq_some_iff.mp hn
  obtain rfl : h' = r'.state := congrArg Record.state hr'
  have hholder : r.state.holder? l = some u.thread := hr.sound.holder (g := u.entry l) (by rw [hl.held]; simp)
  have hrank : r'.state.rank l = u.made.entryRank := (hr.state.rank_move hm hholder).trans hl.rank
  have hc := Calls.current?_eq_of_cons hl.phase
  by_cases ht : m.thread? = some u.thread
  · have hbusy : r.state.isFree u.thread = false := by rw [isFree, hc]
    have hne : m ≠ .collect u.thread := by
      rintro rfl
      simp [move?, answer?, hc] at hm
    obtain ⟨env, rfl⟩ := own_step hm hbusy ht hne
    have hstuck : r'.state.tenancy l = .stuck u.thread := ((hl.refusesDrop hr).stuck hr.state hm).1
    exact .inr ⟨hstuck, hrank, hr.held_outside hn hl.held (x := u.entry l) (of_tenancy_stuck hstuck).1⟩
  · have hphases := (hr.state.others hm ht).2.2
    refine .inl ⟨⟨hrank, hphases.trans hl.phase, (hr.held_others hn ht).trans hl.held⟩, ?_⟩
    rintro env rfl
    exact ht rfl

theorem Leaves.run (hl : r.Leaves u l (g :: inner) e) (hr : r.Reachable) (hms : run? next? r ms = some r') :
    (∀ env, .step u.thread env ∉ ms) ∨ r'.Leaks u l := by
  induction ms generalizing r with
  | nil => exact .inl fun _ => List.not_mem_nil
  | cons m ms ih =>
    obtain ⟨r₁, hn, hms⟩ := Option.bind_eq_some_iff.mp hms
    have hr₁ : r₁.Reachable := Leads.tail m hr hn
    -- the first move of the thread is the drop of the entry, and moves of others do not matter
    rcases hl.next hr hn with ⟨hl₁, hm⟩ | hleaks
    · refine (ih hl₁ hr₁ hms).imp_left fun hrest env hmem => ?_
      rcases List.mem_cons.mp hmem with he | hmem
      · exact hm env he.symm
      · exact hrest env hmem
    · exact .inr (hleaks.run hr₁ hms)

/-- What lies further in than the entry can be released in order, and then the ceiling is the rank of the entry. -/
theorem Leaks.released (hl : r.Leaks u l) (hr : r.Reachable) (hfree : r.state.isFree u.thread = true) {ds : List Deed}
    (hheld : r.held u.thread = inner ++ u.entry l :: u.directory :: u.held)
    (hds : List.Forall₂ (r.state.ReleasedBy u.thread) inner ds) :
    ∃ h', r.state.performAll? u.thread ds = some (h', ds.map fun _ => .done) ∧
      h'.ceiling u.thread = u.made.entryRank ∧ h'.holder? l = some u.thread ∧
        h'.holder? u.made.directory = some u.thread := by
  have hlinked := hr.sound.linked u.thread
  have hnodup := hlinked.nodup
  rw [hheld] at hlinked hnodup
  rw [List.map_append, List.nodup_append] at hnodup
  obtain ⟨h', hall, hceiling, hholder⟩ := hlinked.releases hfree hds
  have stays {x : Guard} (hx : x ∈ u.entry l :: u.directory :: u.held) : h'.holder? x.lock = some u.thread := by
    rw [hholder, if_neg fun hin => hnodup.2.2 _ hin _ (List.mem_map_of_mem hx) rfl]
    exact hr.sound.holder (by rw [hheld]; exact List.mem_append_right _ hx)
  exact ⟨h', hall, hceiling.trans hl.rank, stays (x := u.entry l) (by simp), stays (x := u.directory) (by simp)⟩

end

end Record

/-! ## An unknown name -/

section
variable {h h₁ : Hierarchy α} {t : ThreadId} {l : LockId} {g : Guard} {previous : Rank} {u : Update α}

/-- A lock that is taken and released at once is as before. -/
theorem locks_release_admitted (ha : h.admit? t l previous = some (h₁, g)) :
    (h₁.release t g false).locks = h.locks := by
  obtain ⟨k, hk, hfree, rfl, rfl⟩ := admit?_eq_some ha
  obtain ⟨hlt, rfl⟩ := List.getElem?_eq_some_iff.mp hk
  refine List.ext_getElem? fun j => ?_
  simp only [release, setCeiling, setStanding, List.getElem?_modify, List.getElem?_set]
  by_cases hj : l = j
  · subst hj
    simp [hlt, Mutex.release, ← hfree]
  · simp [hj]

theorem standing_release_admitted (ha : h.admit? t l (h.ceiling t) = some (h₁, g)) (v : ThreadId) :
    (h₁.release t g false).standing v = h.standing v := by
  obtain ⟨rfl, -, -, -, hceiling, hslots, -⟩ := admit?_eq ha
  have hc : (h₁.release t ⟨l, h.ceiling t⟩ false).ceiling v = h.ceiling v := by
    rw [ceiling_release, hceiling]
    by_cases hv : t = v
    · rw [if_pos hv, hv]
    · rw [if_neg hv, if_neg hv]
  have hs : ((h₁.release t ⟨l, h.ceiling t⟩ false).standing v).slots = (h.standing v).slots := by
    rw [slots_release, hslots]
  exact congrArg₂ Standing.mk hc hs

/-- While nobody else moves an unknown name changes nothing. -/
theorem completes_unknown (hfree : h.isFree u.thread = true) (hs : u.Sited h) (hc : h.ceiling u.thread = u.ceiling)
    (hknown : u.made.directory < h.locks.length) (hh : h.holder? u.made.directory = none)
    (hb : h.binding? u.registry u.name = none) : ∃ h', h.Completes u.thread u.request (.visited false) h' ∧
      h'.locks = h.locks ∧ (∀ v, h'.standing v = h.standing v) ∧ h'.registries = h.registries ∧ h'.calls = h.calls := by
  obtain ⟨h₁, ha⟩ := admit?_of_free u.thread (h.ceiling u.thread) hknown hh
  have hcalls : h₁.calls = h.calls := (arranges_admitted ha).calls
  obtain ⟨-, -, hregistries, hcontent⟩ := admit?_contents ha
  obtain ⟨-, -, hrank, -, hceiling, -⟩ := admit?_eq ha
  have hadmits : h.admits u.thread u.request = true := by
    simp [admits, Update.request, (List.getElem?_eq_some_iff.mp hs.registry).1]
  have hcheck : h.checkAcquire u.thread u.made.directory = .ok (h.ceiling u.thread) := by
    rw [checkAcquire, hs.rank, hc, if_neg (Nat.not_le_of_lt hs.below)]
  have hrelease : h₁.checkRelease u.thread ⟨u.made.directory, h.ceiling u.thread⟩ = .ok () := by
    refine checkRelease_of_eq ?_
    rw [hceiling, if_pos rfl, hrank]
  have hnames : (h₁.names u.made.directory).get? u.name = none := by
    rw [binding?, hs.registry, Option.bind_some] at hb
    rw [names_eq, hcontent, ← names_eq, hb]
  refine ⟨h₁.release u.thread ⟨u.made.directory, h.ceiling u.thread⟩ false, ?_, locks_release_admitted ha,
    standing_release_admitted ha, hregistries, hcalls⟩
  -- it asks for the directory, gets it, finds nothing and drops the guard
  have asks (env : Environment) : (h.calling u.thread (.entering u.request)).step? env u.thread =
      some (h.calling u.thread (.waiting u.made.directory (h.ceiling u.thread)
        (.inquire u.registry (.update u.name)))) := by
    have hregistry : (h.calling u.thread (.entering u.request)).registries[u.registry]? = some u.made := hs.registry
    have hcheck' : (h.calling u.thread (.entering u.request)).checkAcquire u.thread u.made.directory = _ := hcheck
    simp only [step?, current?_calling, Update.request, enter] at hregistry hcheck' ⊢
    simp only [hregistry, approach, hcheck', into_calling]
  have finds (env : Environment) : (h.calling u.thread (.waiting u.made.directory (h.ceiling u.thread)
      (.inquire u.registry (.update u.name)))).step? env u.thread =
        some (h₁.calling u.thread (.releasing [⟨u.made.directory, h.ceiling u.thread⟩] (.visited false))) := by
    have hnames' (c : Calls (Phase α)) : ((h₁.inCalls c).names u.made.directory).get? u.name = none := hnames
    simp only [step?, current?_calling]
    rw [calling, admit?_inCalls, ha, Option.map_some, Option.map_some]
    simp only [proceed, inquire, openEntry, hnames', if_true, ← hcalls]
    exact congrArg some (into_calling _)
  rw [completes_iff hfree hadmits, answers_of_step (answer?_calling _) asks, answers_of_step (answer?_calling _) finds,
    answers_dropped hrelease, answers_refused]
  exact ⟨rfl, rfl⟩

end

/-! ## The balance -/

/-- The call of update that the thread makes now. -/
def Record.update (r : Record α) (t : ThreadId) (registry : RegistryId) (d : Registry) (name : String) : Update α where
  thread := t
  registry := registry
  made := d
  rank := r.state.rank d.directory
  name := name
  held := r.held t
  ceiling := r.state.ceiling t
  outer := r.state.phases t

/-- The call and these moves lead from the first state to the second, and its answer is not taken on the way. -/
def Update.Runs (u : Update α) (r : Record α) (ms : List (Move α)) (r' : Record α) : Prop :=
  run? (Record.underway? u.thread u.outer.length) r (.start u.thread u.request :: ms) = some r'

/-- How often the callback of the call has begun after these moves. -/
def Update.begun (u : Update α) (r : Record α) (ms : List (Move α)) : Nat :=
  r.state.callbacks u.thread u.outer.length (.start u.thread u.request :: ms)

/-- What a call of update does with the locks of its thread. -/
structure Record.Balances (r : Record α) (u : Update α) : Prop where
  /-- While nobody else moves an unknown name changes nothing. -/
  unknown : r.state.holder? u.made.directory = none → r.state.binding? u.registry u.name = none →
    ∃ h', r.state.Completes u.thread u.request (.visited false) h' ∧ h'.locks = r.state.locks ∧
      (∀ v, h'.standing v = r.state.standing v) ∧ h'.registries = r.state.registries ∧ h'.calls = r.state.calls
  /-- The name is bound or not when the call takes the directory, and on that depends whether there is a callback, which
  runs once. -/
  course : ∀ ms r', u.Runs r ms r' → r'.Asks u ∧ u.begun r ms = 0 ∨
    ∃ before env after r₁, ms = before ++ .step u.thread env :: after ∧ u.Runs r before r₁ ∧ r₁.Asks u ∧
      r'.Decided u (r₁.state.binding? u.registry u.name) (u.begun r ms)
  misses : ∀ ms r₁ env r₂, u.Runs r ms r₁ → r₁.Asks u → r₁.state.binding? u.registry u.name = none →
    r₁.next? (.step u.thread env) = some r₂ → r₂.Asks u ∨ r₂.Settles u.thread 2 (.visited false) u.held u.ceiling
  begins : ∀ ms r₁ l env r₂, u.Runs r ms r₁ → r₁.Reaches u l → r₁.next? (.step u.thread env) = some r₂ →
    r₂.Attends u l [] ∧ r₂.state.ceiling u.thread = u.made.entryRank
  /-- Whatever the callback does with what is further out than the entry is refused. -/
  during : ∀ ms r₁ l, u.Runs r ms r₁ → r₁.Visits u l → r₁.state.holder? l = some u.thread ∧
    r₁.state.ceiling u.thread ≤ u.made.entryRank ∧ ∀ g ∈ u.directory :: u.held, r₁.state.Kept u.thread g.lock
  balanced : ∀ ms r₁ l e r₂, u.Runs r ms r₁ → r₁.Attends u l [] → r₁.next? (.finish u.thread e) = some r₂ →
    r₂.Settles u.thread 3 (answerOf e) u.held u.ceiling
  /-- With a lock further in than the entry nothing is released, and after the first of the two drops the entry stays
  with the thread, whatever is done. What is further in can still be released. -/
  leaking : ∀ ms r₁ l g inner e r₂, u.Runs r ms r₁ → r₁.Attends u l (g :: inner) →
    r₁.next? (.finish u.thread e) = some r₂ →
      r₂.Settles u.thread 3 (u.answerLeaking (r₁.state.rank g.lock) e) (r₁.held u.thread) (r₁.state.rank g.lock) ∧
      ∀ ms r₃, run? Record.next? r₂ ms = some r₃ → (∃ env, .step u.thread env ∈ ms) → r₃.Leaks u l ∧
        ∀ inner ds, r₃.held u.thread = inner ++ u.entry l :: u.directory :: u.held →
          r₃.state.isFree u.thread = true → List.Forall₂ (r₃.state.ReleasedBy u.thread) inner ds →
            ∃ h', r₃.state.performAll? u.thread ds = some (h', ds.map fun _ => .done) ∧
              h'.ceiling u.thread = u.made.entryRank ∧ h'.holder? l = some u.thread ∧
                h'.holder? u.made.directory = some u.thread

section
variable {r r₁ r₂ : Record α} {u : Update α} {l : LockId} {env : Environment} {e : Ending} {ms : List (Move α)}
variable {g : Guard} {inner : List Guard}

theorem Update.Runs.asked (hms : u.Runs r ms r₁) (hr : r.Built) (hheld : u.held = r.held u.thread)
    (hceiling : u.ceiling = r.state.ceiling u.thread) (houter : u.outer = r.state.phases u.thread) :
    ∃ r₀, r.underway? u.thread u.outer.length (.start u.thread u.request) = some r₀ ∧ r₀.Asks u ∧
      run? (Record.underway? u.thread u.outer.length) r₀ ms = some r₁ := by
  obtain ⟨r₀, hn, hms⟩ := Option.bind_eq_some_iff.mp hms
  refine ⟨r₀, hn, ?_, hms⟩
  obtain ⟨h', hm, rfl⟩ := Option.map_eq_some_iff.mp (Record.build?_eq (Record.underway?_eq hn).1).2
  cases moved hm with
  | start _ _ =>
    refine ⟨⟨_, .inl rfl, ?_⟩, ?_, hceiling.symm⟩
    · rw [houter]
      exact phases_calling r.state u.thread _
    · exact (hr.reachable.sound.held_keep fun _ => rfl).trans hheld.symm

theorem Record.Asks.course (ha : r.Asks u) (hr : r.Built) (hs : u.Sited r.state)
    (hn : r₁.underway? u.thread u.outer.length (.start u.thread u.request) = some r)
    (hms : run? (underway? u.thread u.outer.length) r ms = some r₂) : r₂.Asks u ∧ u.begun r₁ ms = 0 ∨
      ∃ before env after r', ms = before ++ .step u.thread env :: after ∧ u.Runs r₁ before r' ∧ r'.Asks u ∧
        r₂.Decided u (r'.state.binding? u.registry u.name) (u.begun r₁ ms) := by
  have hbegun : u.begun r₁ ms = r.state.callbacks u.thread u.outer.length ms := by
    rw [Update.begun, callbacks_cons (build?_eq (underway?_eq hn).1).2, ha.begins, Nat.zero_add]
  rw [hbegun]
  refine (ha.run hr hs hms).imp_right ?_
  rintro ⟨before, env, after, r', rfl, hbefore, ha', hd⟩
  refine ⟨before, env, after, r', rfl, ?_, ha', hd⟩
  rw [Update.Runs, run?, hn]
  exact hbefore

theorem Record.Asks.misses (ha : r.Asks u) (hr : r.Built) (hs : u.Sited r.state)
    (hb : r.state.binding? u.registry u.name = none) (hn : r.next? (.step u.thread env) = some r₁) :
    r₁.Asks u ∨ r₁.Settles u.thread 2 (.visited false) u.held u.ceiling := by
  refine (ha.step hr hs hn).imp_right ?_
  rintro (⟨-, dropping⟩ | ⟨l, hl, -⟩)
  · obtain ⟨h', hm, rfl⟩ := Option.map_eq_some_iff.mp hn
    have hs' := hs.move hm
    have hr' : Record.Reachable _ := Leads.tail _ hr.reachable hn
    have settles := dropping.settles hr' fun g hg => hs'.known g (List.mem_cons_of_mem _ hg)
    rwa [hs'.ceiling] at settles
  · rw [hb] at hl
    cases hl

theorem Record.Visits.during (hv : r.Visits u l) (hr : r.Built) (hs : u.Sited r.state) :
    r.state.holder? l = some u.thread ∧ r.state.ceiling u.thread ≤ u.made.entryRank ∧
      ∀ g ∈ u.directory :: u.held, r.state.Kept u.thread g.lock := by
  obtain ⟨inner, held⟩ := hv.held
  have hholder : r.state.holder? l = some u.thread :=
    hr.reachable.sound.holder (g := u.entry l) (by rw [held]; simp)
  have hincreasing := (hr.reachable.sound.linked u.thread).increasing
  rw [held, List.map_append, List.pairwise_append, List.map_cons, List.pairwise_cons] at hincreasing
  refine ⟨hholder, ?_, fun g hg => ?_⟩
  · rw [← (hr.housed.entries _ _ _ _ hs.registry hv.bound).1]
    exact (hr.reachable.state.ceiling_le_rank hholder).1
  · have hg' : g ∈ r.held u.thread := by
      rw [held]
      exact List.mem_append_right _ (List.mem_cons_of_mem _ hg)
    exact hr.reachable.state.kept hholder (hr.reachable.sound.holder hg')
      (hincreasing.2.1.1 _ (List.mem_map_of_mem hg))

theorem Record.Leaves.settles_balanced (hl : r.Leaves u l [] e) (hr : r.Reachable) (hs : u.Sited r.state) :
    r.Settles u.thread 3 (answerOf e) u.held u.ceiling := by
  have settles := hl.balanced.settles hr fun g hg => hs.known g (List.mem_cons_of_mem _ hg)
  rwa [hs.ceiling] at settles

theorem Record.Leaves.settles_leaking (hl : r.Leaves u l (g :: inner) e) (hr : r.Reachable) :
    r.Settles u.thread 3 (u.answerLeaking (r.state.ceiling u.thread) e) (r.held u.thread)
      (r.state.ceiling u.thread) := by
  have settles := (hl.leaking hr).settles hr fun x hx => lt_of_holder? (hr.sound.holder hx)
  rwa [← (hr.sound.linked u.thread).eq_innermost] at settles

theorem Record.Reaches.begins (hc : r.Reaches u l) (hr : r.Built) (hs : u.Sited r.state)
    (hn : r.next? (.step u.thread env) = some r₁) :
    r₁.Attends u l [] ∧ r₁.state.ceiling u.thread = u.made.entryRank := by
  have attends := hc.step hr hs hn
  obtain ⟨hr₁, hs₁⟩ := hr.sited hs (m := .step u.thread env) hn
  refine ⟨attends, ?_⟩
  rw [(hr₁.reachable.sound.linked u.thread).eq_innermost, attends.held]
  exact (hr₁.housed.entries _ _ _ _ hs₁.registry attends.bound).1

theorem Record.Built.balances (hr : r.Built) (hs : u.Sited r.state) (hfree : r.state.isFree u.thread = true)
    (hheld : u.held = r.held u.thread) (hceiling : u.ceiling = r.state.ceiling u.thread)
    (houter : u.outer = r.state.phases u.thread) : r.Balances u := by
  have reached {ms : List (Move α)} {r₁ : Record α} (hms : u.Runs r ms r₁) : r₁.Built ∧ u.Sited r₁.state :=
    hr.sited_run hs hms
  refine ⟨fun hh hb => ?_, fun ms r' hms => ?_, fun ms r₁ env r₂ hms ha hb hn => ?_, fun ms r₁ l env r₂ hms hc hn => ?_,
    fun ms r₁ l hms hv => ?_, fun ms r₁ l e r₂ hms ha hn => ?_, fun ms r₁ l g inner e r₂ hms ha hn => ?_⟩
  · exact completes_unknown hfree hs hceiling.symm (hs.known u.directory List.mem_cons_self) hh hb
  · obtain ⟨r₀, hn, ha, hrest⟩ := hms.asked hr hheld hceiling houter
    obtain ⟨hr₀, hs₀⟩ := hr.sited hs (Record.underway?_eq hn).1
    exact ha.course hr₀ hs₀ hn hrest
  · obtain ⟨hr₁, hs₁⟩ := reached hms
    exact ha.misses hr₁ hs₁ hb hn
  · obtain ⟨hr₁, hs₁⟩ := reached hms
    exact hc.begins hr₁ hs₁ hn
  · obtain ⟨hr₁, hs₁⟩ := reached hms
    exact hv.during hr₁ hs₁
  · obtain ⟨hr₁, hs₁⟩ := reached hms
    obtain ⟨hr₂, hs₂⟩ := hr₁.sited hs₁ (m := .finish u.thread e) hn
    exact (ha.finish hr₁ hs₁ hn).1.settles_balanced hr₂.reachable hs₂
  · obtain ⟨hr₁, hs₁⟩ := reached hms
    obtain ⟨hr₂, -⟩ := hr₁.sited hs₁ (m := .finish u.thread e) hn
    obtain ⟨leaves, hceiling⟩ := ha.finish hr₁ hs₁ hn
    refine ⟨?_, fun ms r₃ hms hstep => ?_⟩
    · have hlinked := hr₁.reachable.sound.linked u.thread
      rw [ha.held] at hlinked
      rw [ha.held, ← leaves.held, ← hlinked.1, ← hceiling]
      exact leaves.settles_leaking hr₂.reachable
    · have hr₃ : r₃.Reachable := Leads.run hr₂.reachable _ hms
      obtain ⟨env, hstep⟩ := hstep
      have leaks := (leaves.run hr₂.reachable hms).resolve_left fun hnone => hnone env hstep
      exact ⟨leaks, fun inner ds hheld hfree hds => leaks.released hr₃ hfree hheld hds⟩

end

/-- **Update balances its locks, whatever the callback does.** -/
theorem update_balances_locks {r : Record α} (hr : r.Built) {t : ThreadId} (hfree : r.state.isFree t = true)
    {registry : RegistryId} {d : Registry} (hd : r.state.registries[registry]? = some d)
    (hc : r.state.rank d.directory < r.state.ceiling t) (name : String) :
    r.Balances (r.update t registry d name) := by
  have hlinked := hr.reachable.sound.linked t
  have hknown : d.directory < r.state.locks.length := lt_of_content? (hr.housed.directories _ _ hd).content?
  have hs : (r.update t registry d name).Sited r.state := {
    registry := hd
    known := fun g hg => by
      rcases List.mem_cons.mp hg with rfl | hg
      · exact hknown
      · exact lt_of_holder? (hr.reachable.sound.holder hg)
    rank := rfl
    below := hc
    ceiling := hlinked.eq_innermost.symm }
  exact hr.balances hs hfree rfl rfl rfl

/-- A thread has a lock and knows of a name. -/
def aboutToUpdate : List (Move Nat) :=
  [.addLock 50 0, .addRegistry 30 20, .addLock 10 0, .start 1 (.registry 0 (.insert "k" 7))] ++
    List.replicate 4 (.step 1 default) ++ [.collect 1] ++ Move.taking 1 0 "outer"

/-- The callback fails to release the outer lock and leaves another one held. -/
def leavingOneHeld : List (Move Nat) :=
  List.replicate 3 (.step 1 default) ++ [.perform 1 (.unlock "outer")] ++ Move.taking 1 2 "inner" ++
    [.finish 1 .finished] ++ List.replicate 3 (.step 1 default)

theorem update_balances_locks_leaving_one_held : ∃ r r' : Record Nat, r.Built ∧
    r.held 1 = [⟨0, Rank.unbounded⟩] ∧ r.state.binding? 0 "k" = some 3 ∧
    (r.update 1 0 ⟨1, 20⟩ "k").Runs r leavingOneHeld r' ∧ (r.update 1 0 ⟨1, 20⟩ "k").begun r leavingOneHeld = 1 ∧
    r'.held 1 = [⟨2, 20⟩, ⟨3, 30⟩, ⟨1, 50⟩, ⟨0, Rank.unbounded⟩] ∧ r'.state.ceiling 1 = 10 ∧
    r'.state.tenancy 3 = .stuck 1 ∧ (r'.state.answer? 1).map Answer.isPanic = some true ∧
    r.Balances (r.update 1 0 ⟨1, 20⟩ "k") := by
  let u (r : Record Nat) := r.update 1 0 ⟨1, 20⟩ "k"
  let runs (r : Record Nat) := run? (Record.underway? 1 (u r).outer.length) r (.start 1 (u r).request :: leavingOneHeld)
  let sees (r : Record Nat) := (r.held 1, r.state.binding? 0 "k", (u r).begun r leavingOneHeld)
  let site (r : Record Nat) := (r.state.isFree 1, r.state.registries[0]?, r.state.rank 1, r.state.ceiling 1)
  let seesThen (r : Record Nat) :=
    (r.held 1, r.state.ceiling 1, r.state.tenancy 3, (r.state.answer? 1).map Answer.isPanic)
  have hrun : (run? Record.build? {} aboutToUpdate).map sees = some ([⟨0, Rank.unbounded⟩], some 3, 1) := by
    decide +kernel
  have hsite : (run? Record.build? {} aboutToUpdate).map site = some (true, some ⟨1, 20⟩, 30, 50) := by
    decide +kernel
  have hthen : ((run? Record.build? {} aboutToUpdate).bind runs).map seesThen =
      some ([⟨2, 20⟩, ⟨3, 30⟩, ⟨1, 50⟩, ⟨0, Rank.unbounded⟩], 10, .stuck 1, some true) := by decide +kernel
  obtain ⟨r, hr, hsees⟩ := Option.map_eq_some_iff.mp hrun
  rw [hr, Option.map_some, Option.some.injEq] at hsite
  rw [hr, Option.bind_some] at hthen
  obtain ⟨r', hr', hthen⟩ := Option.map_eq_some_iff.mp hthen
  simp only [sees, site, seesThen, Prod.mk.injEq] at hsees hsite hthen
  obtain ⟨hheld, hbinding, hbegun⟩ := hsees
  obtain ⟨hfree, hregistry, hrank, hceiling⟩ := hsite
  obtain ⟨hheld', hceiling', htenancy, hpanic⟩ := hthen
  have hr : r.Built := Leads.refl.run _ hr
  have hbelow : r.state.rank 1 < r.state.ceiling 1 := by
    rw [hrank, hceiling]
    decide
  exact ⟨r, r', hr, hheld, hbinding, hr', hbegun, hheld', hceiling', htenancy, hpanic,
    update_balances_locks hr hfree hregistry hbelow "k"⟩

end Interlock.Hierarchy
