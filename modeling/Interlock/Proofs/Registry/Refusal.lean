import Interlock.Proofs.Registry.Courses

/-!
# Calls on registries that violate the order of locks

The ranks of a registry are checked when it is made. `registry_violates_iff_out_of_order`: from then on a call on it is
a violation exactly if the ceiling of the thread is not above the rank of the directory, and then nothing else happens.
The lock of an entry is below the directory, so it can always be taken after that, and a thread that has one, be it in
a callback, can make no other call on the registry.
-/

namespace Interlock

namespace Hierarchy

variable {α : Type}

/-! ## Calls that are refused -/

/-- The call is or will be refused for this reason, and has done nothing yet. -/
def Phase.IsRefused (v : Violation) : Phase α → Prop
  | .entering _ => True
  | .releasing gs a => gs = [] ∧ a = .violated v
  | .returned a => a = .violated v
  | _ => False

/-- The violation that the call ends in, once that is certain. -/
def Phase.violation? : Phase α → Option Violation
  | .releasing _ (.violated v) => some v
  | .returned (.violated v) => some v
  | _ => none

section
variable {h h' : Hierarchy α} {t : ThreadId} {p : Phase α} {s : Stage α} {r : RegistryId} {d : Registry} {i : Inquiry α}
variable {k : Rank}

theorem violation?_eq_none {a : Answer α} (ha : ∀ v, a ≠ .violated v) (gs : List Guard) :
    (Phase.releasing gs a).violation? = none ∧ (Phase.returned a).violation? = none := by
  cases a with
  | violated v => exact absurd rfl (ha v)
  | _ => exact ⟨rfl, rfl⟩

theorem Closes.not_violated {a a' : Answer α} (hc : Closes a a') (ha : ∀ v, a ≠ .violated v) (v : Violation) :
    a' ≠ .violated v := by
  cases hc with
  | same _ => exact ha v
  | panicked _ => exact nofun

/-- The ceiling of the thread decides at once what becomes of a call. -/
theorem Fits.refused_or (hf : h.Fits t p s) (hs : s.call = ⟨.registry r i, k⟩) (hd : h.registries[r]? = some d) :
    k ≤ h.rank d.directory ∧ p.IsRefused ⟨.acquire, h.rank d.directory, k⟩ ∨
      h.rank d.directory < k ∧ p.violation? = none := by
  have same {d' : Registry} (hd' : h.registries[r]? = some d') : d' = d := Option.some.inj (hd'.symm.trans hd)
  cases hf with
  | elsewhere hq _ =>
    cases hs
    exact absurd rfl (hq r i)
  | entering _ _ =>
    rcases Nat.lt_or_ge (h.rank d.directory) k with hlt | hle
    · exact .inr ⟨hlt, rfl⟩
    · exact .inl ⟨hle, trivial⟩
  | refused hd' hle =>
    cases hs
    obtain rfl := same hd'
    exact .inl ⟨hle, rfl, rfl⟩
  | turnedAway hd' hle =>
    cases hs
    obtain rfl := same hd'
    exact .inl ⟨hle, rfl⟩
  | waiting hd' hlt =>
    cases hs
    exact .inr ⟨same hd' ▸ hlt, rfl⟩
  | reaching hd' hlt _ _ =>
    cases hs
    exact .inr ⟨same hd' ▸ hlt, rfl⟩
  | visiting hd' hlt _ =>
    cases hs
    exact .inr ⟨same hd' ▸ hlt, rfl⟩
  | releasing hd' hlt ha _ =>
    cases hs
    exact .inr ⟨same hd' ▸ hlt, (violation?_eq_none ha _).1⟩
  | ending hd' hlt closes =>
    cases hs
    exact .inr ⟨same hd' ▸ hlt, (violation?_eq_none (closes.not_violated nofun) _).1⟩
  | returned hd' hlt ha closes =>
    cases hs
    exact .inr ⟨same hd' ▸ hlt, (violation?_eq_none (closes.not_violated ha) []).2⟩

theorem Fits.of_entering {q : Request α} (hf : h.Fits t (.entering q) s) (hs : s.call = ⟨.registry r i, k⟩) :
    q = .registry r i ∧ h.ceiling t = k := by
  cases hf with
  | elsewhere hq _ =>
    cases hs
    exact absurd rfl (hq r i)
  | entering _ hc =>
    cases hs
    exact ⟨rfl, hc⟩

/-- A call that is to be refused goes on in any case, and only its phase changes. -/
theorem Fits.step_refused (hf : h.Fits t p s) (hs : s.call = ⟨.registry r i, k⟩) (hd : h.registries[r]? = some d)
    (hk : k ≤ h.rank d.directory) (hp : h.calls.current? t = some p) :
    p = .returned (.violated ⟨.acquire, h.rank d.directory, k⟩) ∨
      ∀ env, ∃ p', h.step? env t = some (h.into t p') := by
  rcases hf.refused_or hs hd with ⟨-, hrefused⟩ | ⟨hlt, -⟩
  · cases p with
    | entering q =>
      obtain ⟨rfl, hceiling⟩ := hf.of_entering hs
      refine .inr fun env => ⟨.releasing [] (.violated ⟨.acquire, h.rank d.directory, k⟩), ?_⟩
      simp only [step?, hp, enter, hd, approach, checkAcquire, hceiling, if_pos hk]
    | releasing gs a =>
      obtain ⟨rfl, rfl⟩ := hrefused
      refine .inr fun env => ⟨.returned (.violated ⟨.acquire, h.rank d.directory, k⟩), ?_⟩
      simp only [step?, hp, dropNext]
    | returned a =>
      obtain rfl := hrefused
      exact .inl rfl
    | waiting l previous q => exact hrefused.elim
    | visiting e d => exact hrefused.elim
  · exact absurd hk (Nat.not_le_of_lt hlt)

/-- A call that is made now with the ceiling at or below the directory is over after two steps, and leaves no trace. -/
theorem refused_run (hd : h.registries[r]? = some d) (hfree : h.isFree t = true) (hk : h.ceiling t ≤ h.rank d.directory)
    (i : Inquiry α) (env env' : Environment) :
    ∃ h', run? move? h [.start t (.registry r i), .step t env, .step t env'] = some h' ∧
      h'.answer? t = some (.violated ⟨.acquire, h.rank d.directory, h.ceiling t⟩) ∧ h'.collect t = h := by
  have hadmits : h.admits t (.registry r i) = true := decide_eq_true (List.getElem?_eq_some_iff.mp hd).1
  let v : Violation := ⟨.acquire, h.rank d.directory, h.ceiling t⟩
  let started : Hierarchy α := { h with calls := h.calls.start t (.entering (.registry r i)) }
  let refused := started.into t (.releasing [] (.violated v))
  let returned := refused.into t (.returned (.violated v))
  have hstart : h.move? (.start t (.registry r i)) = some started := by
    simp only [move?, start?, hfree, hadmits, Bool.and_self, if_true, started]
  have hstep : started.move? (.step t env) = some refused := by
    have hcurrent : started.calls.current? t = some (.entering (.registry r i)) :=
      (Calls.current?_start ..).trans (if_pos rfl)
    have hd' : started.registries[r]? = some d := hd
    have hk' : started.ceiling t ≤ started.rank d.directory := hk
    simp only [move?, step?, hcurrent, enter, hd', approach, checkAcquire, if_pos hk']
    rfl
  have hstep' : refused.move? (.step t env') = some returned := by
    have hcurrent : refused.calls.current? t = some (.releasing [] (.violated v)) :=
      (Calls.current?_move ..).trans (if_pos rfl)
    simp only [move?, step?, hcurrent, dropNext, returned]
  refine ⟨returned, ?_, ?_, ?_⟩
  · simp only [run?, hstart, hstep, hstep', Option.bind_some]
  · have hcurrent : returned.calls.current? t = some (.returned (.violated v)) :=
      (Calls.current?_move ..).trans (if_pos rfl)
    simp only [answer?, hcurrent, v]
  · simp [Hierarchy.collect, returned, refused, started, into, Calls.finish, Calls.move, Calls.start, Entries.put]

end

namespace Chronicle

/-- How calls on a registry stand to the order of locks. -/
structure Ordered (c : Chronicle α) (r : RegistryId) (d : Registry) : Prop where
  valid : d.entryRank < c.state.rank d.directory ∧ c.state.rank d.directory < Rank.unbounded
  /-- A call that was made with the ceiling at or below the directory comes to the violation, whatever others do, and
  until then only its phase changes. -/
  refused : ∀ t p s i k, (p, s) ∈ (c.state.phases t).zip (c.stages t) → s.call = ⟨.registry r i, k⟩ →
    k ≤ c.state.rank d.directory → p.IsRefused ⟨.acquire, c.state.rank d.directory, k⟩ ∧
      c.state.calls.current? t = some p ∧
        (p = .returned (.violated ⟨.acquire, c.state.rank d.directory, k⟩) ∨
          ∀ env, ∃ p', c.state.step? env t = some (c.state.into t p'))
  /-- Any other call ends in no violation. -/
  granted : ∀ t p s i k, (p, s) ∈ (c.state.phases t).zip (c.stages t) → s.call = ⟨.registry r i, k⟩ →
    c.state.rank d.directory < k → p.violation? = none
  /-- If it is made now, the violation is there after two steps, and then everything is as before. -/
  immediate : ∀ t i env env', c.state.isFree t = true → c.state.ceiling t ≤ c.state.rank d.directory →
    ∃ h', run? move? c.state [.start t (.registry r i), .step t env, .step t env'] = some h' ∧
      h'.answer? t = some (.violated ⟨.acquire, c.state.rank d.directory, c.state.ceiling t⟩) ∧
        h'.collect t = c.state
  /-- Whoever gets the directory may take any entry. -/
  inner : ∀ t previous h g name l, c.state.admit? t d.directory previous = some (h, g) →
    c.state.binding? r name = some l → h.checkAcquire t l = .ok (c.state.rank d.directory)
  /-- In a callback, and in those made from there, the ceiling is not above the entries. -/
  callback : ∀ t entry directory, .visiting entry directory ∈ c.state.phases t → directory.lock = d.directory →
    c.state.ceiling t ≤ d.entryRank
  /-- Nor is it on a thread that has the lock of anything that ever was an entry. -/
  handle : ∀ c₀ name l t, Reachable c₀ → Leads next? c₀ c → c₀.state.binding? r name = some l →
    c.state.holder? l = some t → c.state.ceiling t ≤ d.entryRank

section
variable {c c' : Chronicle α} {r : RegistryId} {d : Registry} {t : ThreadId} {l : LockId}

theorem Reachable.later (hc : c.Reachable) (hl : Leads next? c c') :
    (∀ (r : RegistryId) (d : Registry), c.state.registries[r]? = some d → c'.state.registries[r]? = some d) ∧
      ∀ l : LockId, c.state.rank l < Rank.unbounded → c'.state.rank l = c.state.rank l := by
  induction hl with
  | refl => exact ⟨fun _ _ hd => hd, fun _ _ => rfl⟩
  | tail w hl hn ih =>
    obtain ⟨hregistry, hrank⟩ := ih
    have hr : Hierarchy.Reachable _ := Reachable.state (hc.trans hl)
    obtain ⟨m, -, hm⟩ := next?_move hn
    obtain ⟨u, transfer, -⟩ := hr.transfer hm
    refine ⟨fun r d hd => registry_move hm (hregistry r d hd), fun l hl => ?_⟩
    have hsame := hrank l hl
    rw [← hsame]
    exact transfer.shift.rank (hsame ▸ hl)

theorem Reachable.ordered (hc : c.Reachable) (hd : c.state.registries[r]? = some d) : c.Ordered r d where
  valid := hc.sound.housed.ranks r d hd
  refused t p s i k hmem hs hk := by
    have hfit := (List.forall₂_iff_zip.mp (hc.sound.fits t)).2 hmem
    have hrefused := (hfit.refused_or hs hd).resolve_right fun hlt => Nat.not_le_of_lt hlt.1 hk
    have hcurrent : c.state.calls.current? t = some p := by
      refine hc.state.current?_of_waiting (List.of_mem_zip hmem).1 ?_
      cases p with
      | visiting _ _ => exact hrefused.2.elim
      | _ => rfl
    exact ⟨hrefused.2, hcurrent, hfit.step_refused hs hd hk hcurrent⟩
  granted t p s i k hmem hs hk := by
    have hfit := (List.forall₂_iff_zip.mp (hc.sound.fits t)).2 hmem
    exact ((hfit.refused_or hs hd).resolve_left fun hle => Nat.not_le_of_lt hk hle.1).2
  immediate t i env env' hfree hk := refused_run hd hfree hk i env env'
  inner t previous h g name l ha hl := by
    obtain ⟨-, -, hrank, -, hceiling, -⟩ := admit?_eq ha
    have hbelow : ¬ c.state.rank d.directory ≤ c.state.rank l :=
      Nat.not_le_of_lt (hc.sound.housed.rank_lt hd hl).1
    rw [checkAcquire, hceiling, if_pos rfl, hrank, if_neg hbelow]
  callback t entry directory hmem hdirectory := by
    obtain ⟨s, hfit⟩ := hc.sound.fits_of_mem hmem
    have hheld : c.state.holder? entry.lock = some t :=
      hc.state.holder (mem_owned.mpr (.inr ⟨_, hmem, by simp [Phase.guards]⟩))
    cases hfit with
    | elsewhere _ he => cases he
    | @visiting r' _ d' name l hd' _ hl =>
      obtain rfl := hc.sound.housed.apart r r' d d' hd hd' hdirectory.symm
      obtain rfl : d' = d := Option.some.inj (hd'.symm.trans hd)
      rw [← (hc.sound.housed.entries r d' name l hd hl).1]
      exact (hc.state.ceiling_le_rank hheld).1
  handle c₀ name l t hc₀ hlater hl hheld := by
    obtain ⟨d₀, hd₀⟩ := registry_of_binding hl
    obtain ⟨hregistry, hrank⟩ := Reachable.later hc₀ hlater
    obtain rfl : d₀ = d := Option.some.inj ((hregistry r d₀ hd₀).symm.trans hd)
    obtain ⟨hentry, -⟩ := hc₀.sound.housed.entries r d₀ name l hd₀ hl
    rw [← hentry, ← hrank l (hc₀.sound.housed.rank_lt hd₀ hl).2]
    exact (hc.state.ceiling_le_rank hheld).1

/-- **Calls on a registry are violations exactly if they are out of order.** Registries are made of valid ranks only,
and in every state of every run each call on one comes to the violation if the ceiling of the thread is at or below the
directory, and to none otherwise. -/
theorem registry_violates_iff_out_of_order (hc : c.Reachable) : Script.MakesValid ∧
    ∀ r d, c.state.registries[r]? = some d → c.Ordered r d :=
  ⟨Script.makesValid, fun _ _ hd => hc.ordered hd⟩

end

/-- In a callback on an entry a thread takes two locks, and fails to release the outer one first. -/
def lockedInCallback : List (Work Nat) :=
  [.move (.addRegistry 10 5), .move (.addLock 4 0), .move (.addLock 3 0)] ++
    Work.calling 1 (.registry 0 (.insert "k" 1)) 4 ++
    [.move (.start 1 (.registry 0 (.update "k"))), .move (.step 1 default), .move (.step 1 default),
      .move (.step 1 default)] ++
    Work.calling 1 (.lock 1 (.guard "outer")) 2 ++ Work.calling 1 (.lock 2 (.guard "inner")) 2 ++
    [.move (.perform 1 (.unlock "outer"))]

theorem registry_violates_iff_out_of_order_locked_in_callback : ∃ c : Chronicle Nat, c.Reachable ∧
    c.state.visited? 1 = some 3 ∧ c.Ordered 0 ⟨0, 5⟩ ∧
      ∃ h, run? move? c.state [.start 1 (.registry 0 .len), .step 1 default, .step 1 default] = some h ∧
        h.answer? 1 = some (.violated ⟨.acquire, 10, 3⟩) ∧ h.collect 1 = c.state := by
  have hrun : (run? next? {} lockedInCallback).map (fun c =>
      (c.state.visited? 1, c.state.registries[0]?, c.state.isFree 1, c.state.ceiling 1, c.state.rank 0)) =
      some (some 3, some ⟨0, 5⟩, true, 3, 10) := by decide +kernel
  obtain ⟨c, hc, he⟩ := Option.map_eq_some_iff.mp hrun
  have hc : c.Reachable := Leads.refl.run _ hc
  simp only [Prod.mk.injEq] at he
  obtain ⟨hvisited, hregistry, hfree, hceiling, hrank⟩ := he
  obtain ⟨-, hordered⟩ := registry_violates_iff_out_of_order hc
  have ordered := hordered 0 ⟨0, 5⟩ hregistry
  have hbelow : c.state.ceiling 1 ≤ c.state.rank 0 := by
    rw [hceiling, hrank]
    decide
  obtain ⟨h, hsteps, hanswer, hcollect⟩ := ordered.immediate 1 .len default default hfree hbelow
  rw [hceiling, hrank] at hanswer
  exact ⟨c, hc, hvisited, ordered, h, hsteps, hanswer, hcollect⟩

end Chronicle

end Hierarchy

end Interlock
