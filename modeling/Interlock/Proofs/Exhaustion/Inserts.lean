import Interlock.Proofs.Exhaustion.Locks

/-!
# An insertion that finds no room

A registry asks for room with its directory in hand. Refused, it has only to release the directory, which gives the
thread its ceiling back. So the state without the call stays the same, step by step, until the name is bound. When the
answer is taken there is no difference between the two states.
-/

namespace Interlock.Hierarchy

variable {α : Type} {only : Bool} {t u : ThreadId} {env : Environment}

section
variable {h h' h₀ h₀' : Hierarchy α} {a : Absent α}

/-! ## The call itself -/

/-- The call of the thread goes on, and the state without it stays as it is. -/
theorem Lacks.turn (hr : Lacks (some a) h h₀) {a' : Absent α} (ht : a'.thread = a.thread) (contents : SameContents h' h)
    (holder : ∀ l, (if a.holds l then none else h.holder? l) = if a'.holds l then none else h'.holder? l)
    (standing : ∀ u, a.thread ≠ u → h'.standing u = h.standing u)
    (calls : h.calls.finish a.thread = h'.calls.finish a.thread) (stands : a'.Stands h' h₀) :
    Lacks (some a') h' h₀ where
  contents := by
    refine ⟨fun l => ?_, fun l => ?_, ?_⟩
    · rw [hr.contents.rank, contents.rank]
    · rw [hr.contents.content, contents.content]
    · rw [hr.contents.registries, contents.registries]
  holder l := (hr.holder l).trans (holder l)
  standing u hu := by
    have hne : a.thread ≠ u := fun he => hu (congrArg some (ht.trans he))
    rw [hr.standing u fun he => hne (Option.some.inj he), standing u hne]
  calls := by
    rw [hr.calls]
    simp only [Option.elim_some, ht]
    exact calls
  absent x hx := Option.some.inj hx ▸ stands

theorem standing_eq {s s' : Standing} (hc : s'.ceiling = s.ceiling) (hs : s'.slots = s.slots) : s' = s := by
  obtain ⟨c, x⟩ := s
  obtain ⟨c', x'⟩ := s'
  obtain rfl : c' = c := hc
  obtain rfl : x' = x := hs
  rfl

namespace Lacks

theorem opened {r : RegistryId} {i : Inquiry α} (hstart : h₀.start? t (.registry r i) = some h) :
    Lacks (some ⟨t, .entering (.registry r i), h₀.ceiling t⟩) h h₀ := by
  unfold Hierarchy.start? at hstart
  split at hstart
  · cases hstart
    exact ⟨⟨fun _ => rfl, fun _ => rfl, rfl⟩, fun _ => rfl, fun _ _ => rfl, (Calls.finish_start_self ..).symm,
      fun a ha => Option.some.inj ha ▸ ⟨by simp, rfl, rfl, nofun⟩⟩
  · cases hstart

variable (hr : Lacks (some a) h h₀)
include hr

/-- The call goes on with nothing in hand. -/
theorem advance (hnone : a.hand? = none) {p : Phase α} (hp : (Absent.mk a.thread p a.ceiling).hand? = none) :
    Lacks (some ⟨a.thread, p, a.ceiling⟩) (h.into a.thread p) h₀ := by
  have ha := hr.absent a rfl
  have hbefore : (Absent.mk a.thread p a.ceiling).before = a.before := by rw [Absent.before, Absent.before, hnone, hp]
  refine hr.turn rfl ⟨fun _ => rfl, fun _ => rfl, rfl⟩ (fun l => ?_) (fun _ _ => rfl) (Calls.finish_move_self ..).symm ?_
  · simp only [Absent.holds, hnone, hp]
    rfl
  · refine ⟨by rw [Hierarchy.into, Calls.current?_move, if_pos rfl], ha.ceiling, ?_, fun g hg => ?_⟩
    · rw [hbefore]
      exact ha.standing
    · rw [hp] at hg
      cases hg

/-- The lock is taken, and the call has it in hand to release it. -/
theorem acquired (hnone : a.hand? = none) {l : LockId} {g : Guard} {h₁ : Hierarchy α}
    (htaken : h.admit? a.thread l a.ceiling = some (h₁, g)) (b : Answer α) :
    Lacks (some ⟨a.thread, .releasing [g] b, h.rank l⟩) (h₁.into a.thread (.releasing [g] b)) h₀ := by
  have ha := hr.absent a rfl
  obtain ⟨-, -, hregs, hcontent⟩ := admit?_contents htaken
  obtain ⟨rfl, hfree, hrank, hholder, hceiling, hslots, hcalls⟩ := admit?_eq htaken
  refine hr.turn rfl ⟨fun k => (hrank k).symm, fun k => (hcontent k).symm, hregs.symm⟩ (fun k => ?_) (fun u hu => ?_) ?_ ?_
  · have hhand : (Absent.mk a.thread (.releasing [⟨l, a.ceiling⟩] b) (h.rank l)).holds k = decide (l = k) := rfl
    have hthere : (h₁.into a.thread (.releasing [⟨l, a.ceiling⟩] b)).holder? k = h₁.holder? k := rfl
    rw [hhand, hthere, hholder]
    simp only [Absent.holds, hnone]
    by_cases hk : l = k
    · subst hk
      simp [hfree]
    · simp [hk]
  · refine standing_eq ?_ (hslots u)
    exact (hceiling u).trans (if_neg hu)
  · rw [Hierarchy.into, Calls.finish_move_self, hcalls]
  · refine ⟨by rw [Hierarchy.into, Calls.current?_move, if_pos rfl], ?_, ?_, ?_⟩
    · exact (hceiling a.thread).trans (if_pos rfl)
    · rw [ha.standing]
      refine standing_eq ?_ (hslots a.thread).symm
      rw [Absent.before, hnone]
      rfl
    · intro x hx
      obtain rfl := Option.some.inj hx
      exact ⟨(hholder l).trans (if_pos rfl), (hrank l).symm⟩

/-- What the call has in hand is released. -/
theorem released {g : Guard} (hg : a.hand? = some g) (b : Bool) (c : Answer α) :
    Lacks (some ⟨a.thread, .releasing [] c, g.previous⟩)
      ((h.release a.thread g b).into a.thread (.releasing [] c)) h₀ := by
  have ha := hr.absent a rfl
  refine hr.turn rfl ⟨fun k => (rank_release h a.thread g b k).symm,
    fun k => (content?_release h a.thread g b k).symm, rfl⟩ (fun k => ?_) (fun u hu => ?_) ?_ ?_
  · have hthere : ((h.release a.thread g b).into a.thread (.releasing [] c)).holder? k =
        (h.release a.thread g b).holder? k := rfl
    rw [hthere, holder?_release]
    simp only [Absent.holds, hg]
    by_cases hk : g.lock = k <;> simp [hk, Absent.hand?]
  · exact (standing_release ..).trans (if_neg hu)
  · exact (Calls.finish_move_self ..).symm
  · refine ⟨by rw [Hierarchy.into, Calls.current?_move, if_pos rfl], ?_, ?_, nofun⟩
    · exact (ceiling_release ..).trans (if_pos rfl)
    · rw [ha.standing]
      have hthere : ((h.release a.thread g b).into a.thread (.releasing [] c)).standing a.thread =
          (h.release a.thread g b).standing a.thread := rfl
      rw [hthere, standing_release, if_pos rfl, Absent.before, Absent.before, hg]
      rfl

/-- A step of the call changes nothing without it, or the answer is of another kind. -/
theorem own (hs : h.Recorded) (spares : a.Spares only h) (hstep : h.step? env a.thread = some h') :
    (∃ a', a'.thread = a.thread ∧ a'.Spares only h' ∧ Lacks (some a') h' h₀) ∨ h'.Differs only a.thread := by
  have ha := hr.absent a rfl
  obtain ⟨t, p, c⟩ := a
  have hspares := spares.phase
  have differs (h₁ : Hierarchy α) {p : Phase α} (hp : p.differs only = true) : (h₁.into t p).Differs only t :=
    ⟨p, by rw [Hierarchy.into, Calls.current?_move, if_pos rfl], hp⟩
  unfold Hierarchy.step? at hstep
  rw [ha.phase] at hstep
  cases p with
  | entering q =>
    cases hstep
    cases q with
    | registry r i =>
      obtain rfl := only_of_asksRoom hspares
      simp only [Hierarchy.enter]
      split
      · rename_i k hk
        unfold Hierarchy.approach
        split
        · rename_i previous hc
          obtain rfl : previous = c := (checkAcquire_ok hc).1.trans ha.ceiling
          refine .inl ⟨⟨t, .waiting k.directory previous (.inquire r i), previous⟩, rfl, ⟨hspares, ?_⟩, hr.advance rfl rfl⟩
          intro l hl
          obtain rfl : k.directory = l := Option.some.inj hl
          exact ⟨k, List.mem_of_getElem? hk, rfl⟩
        · exact .inr (differs _ rfl)
      · exact .inr (differs _ rfl)
    | _ => cases hspares
  | waiting l previous q =>
    obtain ⟨x, hx, rfl⟩ := Option.map_eq_some_iff.mp hstep
    obtain ⟨h₁, g⟩ := x
    obtain ⟨⟨hprevious, -⟩, -⟩ := hs.poised t _ _ (phases_eq_cons ha.phase)
    obtain rfl : previous = c := hprevious.trans ha.ceiling
    obtain ⟨hguard, -⟩ := admit?_eq hx
    obtain ⟨-, -, hregistries, -⟩ := admit?_contents hx
    cases q with
    | inquire r i =>
      obtain rfl := only_of_asksRoom hspares
      cases i with
      | insert name v =>
        simp only [Hierarchy.proceed, Hierarchy.inquire]
        split
        · exact .inr (differs _ rfl)
        · refine .inl ⟨_, rfl, ⟨rfl, fun k hk => ?_⟩, hr.acquired rfl hx _⟩
          obtain rfl : g.lock = k := Option.some.inj hk
          obtain ⟨d, hd, hdirectory⟩ := spares.registered l rfl
          exact ⟨d, hregistries ▸ hd, by rw [hguard, hdirectory]⟩
      | _ => cases hspares
    | _ => cases hspares
  | visiting e d => cases hspares
  | releasing gs b =>
    cases hstep
    cases gs with
    | nil => exact .inl ⟨⟨t, .returned b, c⟩, rfl, .idle hspares rfl, hr.advance rfl rfl⟩
    | cons g gs =>
      cases gs with
      | nil =>
        have hinOrder : h.checkRelease t g = .ok () := if_pos (ha.ceiling.trans (ha.hand g rfl).2)
        simp only [Hierarchy.dropNext, hinOrder]
        exact .inl ⟨⟨t, .releasing [] b, g.previous⟩, rfl, .idle hspares rfl, hr.released rfl _ _⟩
      | cons _ _ => cases hspares
  | returned b => cases hstep

theorem closed {b : Answer α} (hb : h.answer? a.thread = some b) : Lacks none (h.collect a.thread) h₀ := by
  have ha := hr.absent a rfl
  obtain ⟨t, p, c⟩ := a
  simp only [Hierarchy.answer?, ha.phase] at hb
  cases p with
  | returned b =>
    have nobody (x : Absent α) (hx : none = some x) : x.Stands (h.collect t) h₀ := by cases hx
    refine ⟨⟨hr.contents.rank, hr.contents.content, hr.contents.registries⟩, hr.holder, fun u _ => ?_, hr.calls, nobody⟩
    by_cases hu : t = u
    · subst hu
      rw [ha.standing]
      exact standing_eq ha.ceiling.symm rfl
    · exact hr.standing u fun he => hu (Option.some.inj he)
  | _ => cases hb

end Lacks

/-! ## A call with another answer -/

/-- The answer may become a panic, but it does not become one that finds no room. -/
theorem Differs.own (hd : h.Differs only t) (hstep : h.step? env t = some h') : h'.Differs only t := by
  obtain ⟨p, hp, hdiffers⟩ := hd
  have differs (h₁ : Hierarchy α) {p : Phase α} (hp : p.differs only = true) : (h₁.into t p).Differs only t :=
    ⟨p, by rw [Hierarchy.into, Calls.current?_move, if_pos rfl], hp⟩
  unfold Hierarchy.step? at hstep
  rw [hp] at hstep
  cases p with
  | releasing gs a =>
    cases hstep
    cases gs with
    | nil => exact differs _ hdiffers
    | cons g gs =>
      simp only [dropNext]
      split
      · exact differs _ hdiffers
      · split
        · exact differs _ hdiffers
        · refine differs _ ?_
          cases a with
          | exhausted f => cases hdiffers
          | _ => exact hdiffers
  | returned a => cases hstep
  | _ => cases hdiffers

theorem Differs.others (hd : h.Differs only t) (hc : h'.calls.current? t = h.calls.current? t) : h'.Differs only t := by
  obtain ⟨p, hp, hdiffers⟩ := hd
  exact ⟨p, hc.trans hp, hdiffers⟩

theorem Differs.answer {a : Answer α} (hd : h.Differs only t) (ha : h.answer? t = some a) : a.spares only = false := by
  obtain ⟨p, hp, hdiffers⟩ := hd
  simp only [answer?, hp] at ha
  cases p with
  | returned b =>
    obtain rfl := Option.some.inj ha
    simpa [Phase.differs] using hdiffers
  | _ => cases ha

end

/-! ## Calls that have changed nothing -/

/-- The second state is the first without the call of the thread, which has changed nothing so far. -/
def Without (only : Bool) (gone : Option ThreadId) (h h₀ : Hierarchy α) : Prop :=
  ∃ a : Option (Absent α), a.map Absent.thread = gone ∧ (∀ x, a = some x → x.Spares only h) ∧ Lacks a h h₀

namespace Without

section
variable {h h₀ : Hierarchy α}

theorem refl (h : Hierarchy α) : Without only none h h := ⟨none, rfl, nofun, .refl h⟩

end

section
variable {a : Option (Absent α)} {who gone : Option ThreadId} {h h' h₀ h₀' : Hierarchy α}

theorem keep (spares : ∀ x, a = some x → x.Spares only h) (he : h.Evolves who h') (hr : Lacks a h' h₀') :
    Without only (a.map Absent.thread) h' h₀' :=
  ⟨a, rfl, fun x hx => ⟨(spares x hx).phase, fun l hl => he.registered ((spares x hx).registered l hl)⟩, hr⟩

variable (hr : Without only gone h h₀)
include hr

theorem contents : SameContents h h₀ := by
  obtain ⟨a, -, -, hr⟩ := hr
  exact hr.contents

theorem setContent (l : LockId) (c : Content α) : Without only gone (h.setContent l c) (h₀.setContent l c) := by
  obtain ⟨a, rfl, spares, hr⟩ := hr
  exact keep spares (Evolves.edits (u := none) l c) (hr.setContent l c)

theorem addLock (rank : Rank) (v : α) :
    Without only gone (h.addLock rank (.element v)).1 (h₀.addLock rank (.element v)).1 := by
  obtain ⟨a, rfl, spares, hr⟩ := hr
  exact keep spares (.moves (.addLock rank v) rfl rfl) (hr.addLock rank _)

theorem addRegistry (d e : Rank) : Without only gone (h.addRegistry d e).1 (h₀.addRegistry d e).1 := by
  obtain ⟨a, rfl, spares, hr⟩ := hr
  exact keep spares (.moves (.addRegistry d e) rfl rfl) (hr.addRegistry d e)

variable (hu : gone ≠ some u)
include hu

theorem visited? : h₀.visited? u = h.visited? u := by
  obtain ⟨a, rfl, -, hr⟩ := hr
  exact hr.visited? hu

theorem answer? : h₀.answer? u = h.answer? u := by
  obtain ⟨a, rfl, -, hr⟩ := hr
  exact hr.answer? hu

theorem clearSlot (slot : String) : Without only gone (h.clearSlot u slot) (h₀.clearSlot u slot) := by
  obtain ⟨a, rfl, spares, hr⟩ := hr
  exact keep spares (.clears u slot rfl) ((Lacks.steady hu).clearSlot hr slot)

theorem start? (r : Request α) : Follows (Without only gone) (h.start? u r) (h₀.start? u r) := by
  obtain ⟨a, rfl, spares, hr⟩ := hr
  exact follows_mono (hr.start? hu r) fun h' _ hh' hr' => keep spares (.moves (.start u r) rfl hh') hr'

theorem end? (e : Ending) : Follows (Without only gone) (h.end? u e) (h₀.end? u e) := by
  obtain ⟨a, rfl, spares, hr⟩ := hr
  exact follows_mono (hr.end? hu e) fun h' _ hh' hr' => keep spares (.moves (.finish u e) rfl hh') hr'

theorem collect {b : Answer α} (hb : h.answer? u = some b) : Without only gone (h.collect u) (h₀.collect u) := by
  obtain ⟨a, rfl, spares, hr⟩ := hr
  exact keep spares (.moves (.collect u) rfl (by rw [move?, hb, Option.map_some])) (hr.collect hu)

theorem step? (hs : h.Recorded) (env : Environment) : Follows (Without only gone) (h.step? env u) (h₀.step? env u) := by
  obtain ⟨a, rfl, spares, hr⟩ := hr
  exact follows_mono (hr.step? hu hs env) fun h' _ hh' hr' => keep spares (.moves (.step u env) rfl hh') hr'

/-- A deed of another thread. That tries no directory. -/
theorem perform? (hs : h.Recorded) {d : Deed} (hd : ∀ l aim, d = .tryLock l aim → gone = none ∨ ¬ h.IsRegistered l) :
    Follows (fun x x₀ => Without only gone x.1 x₀.1 ∧ x₀.2 = x.2) (h.perform? u d) (h₀.perform? u d) := by
  obtain ⟨a, rfl, spares, hr⟩ := hr
  have untouched (l : LockId) (aim : Aim) (he : d = .tryLock l aim) : a.any (·.holds l) = false := by
    cases a with
    | none => rfl
    | some x => exact (spares x rfl).tried ((hd l aim he).resolve_left nofun)
  refine follows_mono (follows_of_rel (hr.perform? hu hs untouched)) fun x x₀ hx hr' => ⟨?_, hr'.2⟩
  exact keep spares (.moves (.perform u d) rfl (by rw [move?, hx, Option.map_some])) hr'.1

end

/-! ## The call -/

section
variable {h h' h₀ : Hierarchy α}

theorem opened {r : RegistryId} {i : Inquiry α} (hstart : h₀.start? t (.registry r i) = some h)
    (hi : i.asksRoom only = true) : Without only (some t) h h₀ := by
  refine ⟨_, rfl, fun x hx => ?_, Lacks.opened hstart⟩
  obtain rfl := Option.some.inj hx
  exact .idle hi rfl

variable (hr : Without only (some t) h h₀)
include hr

theorem own (hs : h.Recorded) (hstep : h.step? env t = some h') : Without only (some t) h' h₀ ∨ h'.Differs only t := by
  obtain ⟨a, ha, spares, hr⟩ := hr
  obtain ⟨a, rfl, rfl⟩ := Option.map_eq_some_iff.mp ha
  rcases hr.own hs (spares a rfl) hstep with ⟨a', ht, spares', hr'⟩ | hdiffers
  · exact .inl ⟨some a', congrArg some ht, fun _ hx => Option.some.inj hx ▸ spares', hr'⟩
  · exact .inr hdiffers

theorem closed {b : Answer α} (hb : h.answer? t = some b) : Without only none (h.collect t) h₀ := by
  obtain ⟨a, ha, -, hr⟩ := hr
  obtain ⟨a, rfl, rfl⟩ := Option.map_eq_some_iff.mp ha
  exact ⟨none, rfl, nofun, hr.closed hb⟩

end

end Without

end Interlock.Hierarchy
