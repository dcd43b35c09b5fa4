import Interlock.Proofs.Hierarchy.Ownership
import Interlock.Proofs.Registry.Courses

/-!
# Registries refine maps

`registry_refines_map`: the calls on registries, together with what is done through handles to entries, answer as if
they were made one after another on a map from names to identities with one value each, those on one registry in the
order in which they get its directory. What a name no longer is bound to is beyond the reach of the registry: no call
on it changes the value, and whoever changes it through a handle changes nothing that is answered.
-/

namespace Interlock.Hierarchy

variable {α : Type}

/-! ## Identities that are bound to no name any more -/

def Catalog.Retired (k : Catalog α) (l : LockId) : Prop := k.value l ≠ none ∧ ∀ r name, k.names r name ≠ some l

namespace Catalog

variable {k k' : Catalog α} {l : LockId} {r : RegistryId} {name : String} {e : Happening α} {es : List (Happening α)}

theorem value_assign_ne_none (hv : k.value l ≠ none) (l' : LockId) (v : α) : (k.assign l' v).value l ≠ none := by
  rw [value_assign]
  split
  · exact nofun
  · exact hv

theorem Serves.value {i : Inquiry α} {a : Answer α} (hs : k.Serves r i a k') (hv : k.value l ≠ none) :
    k'.value l ≠ none := by
  cases hs with
  | insert name v _ => exact value_assign_ne_none hv _ v
  | _ => exact hv

/-- A call on a registry binds a name to no identity but a new one. -/
theorem Serves.names {i : Inquiry α} {a : Answer α} (hs : k.Serves r i a k') (hv : k.value l ≠ none)
    {r' : RegistryId} (hl : k'.names r' name = some l) : k.names r' name = some l := by
  cases hs with
  | @insert name' v l' fresh =>
    rw [names_rebind] at hl
    split at hl
    · cases hl
      exact absurd fresh hv
    · exact hl
  | remove name' =>
    rw [names_rebind] at hl
    split at hl
    · cases hl
    · exact hl
  | _ => exact hl

theorem Happens.value (he : k.Happens e k') (hv : k.value l ≠ none) : k'.value l ≠ none := by
  cases he with
  | served _ hs => exact hs.value hv
  | made v _ => exact value_assign_ne_none hv _ v
  | changed f _ => exact value_assign_ne_none hv _ _
  | _ => exact hv

theorem Happens.names (he : k.Happens e k') (hv : k.value l ≠ none) (hl : k'.names r name = some l) :
    k.names r name = some l := by
  cases he with
  | served _ hs => exact hs.names hv hl
  | _ => exact hl

theorem names_of_trace (ht : Trace Happens k es k') (hv : k.value l ≠ none) (hl : k'.names r name = some l) :
    k'.value l ≠ none ∧ k.names r name = some l := by
  induction es generalizing k with
  | nil =>
    obtain rfl : k = k' := ht
    exact ⟨hv, hl⟩
  | cons e es ih =>
    obtain ⟨k₁, he, ht⟩ := ht
    obtain ⟨hv', hl'⟩ := ih ht (he.value hv)
    exact ⟨hv', he.names hv hl'⟩

theorem value_of_trace (ht : Trace Happens k es k') (hv : k.value l ≠ none) : k'.value l ≠ none := by
  induction es generalizing k with
  | nil => exact (show k = k' from ht) ▸ hv
  | cons e es ih =>
    obtain ⟨k₁, he, ht⟩ := ht
    exact ih ht (he.value hv)

/-- What is not bound to a name is not bound to one again. -/
theorem Retired.trace (hl : k.Retired l) (ht : Trace Happens k es k') : k'.Retired l :=
  ⟨value_of_trace ht hl.1, fun r name hb => hl.2 r name (names_of_trace ht hl.1 hb).2⟩

/-- The value of an identity that no name is bound to is nothing to the registries. -/
theorem Retired.lookup_assign (hl : k.Retired l) (v : α) (r : RegistryId) (name : String) :
    (k.assign l v).lookup r name = k.lookup r name := by
  show (k.names r name).bind (k.assign l v).value = (k.names r name).bind k.value
  cases hb : k.names r name with
  | none => rfl
  | some l' =>
    have hne : l' ≠ l := fun he => hl.2 r name (he ▸ hb)
    rw [Option.bind_some, Option.bind_some, value_assign, if_neg hne]

end Catalog

/-! ## What can happen to an identity -/

/-- A change of an element by a thread that has its lock in a slot, or by somebody who has the lock to himself. -/
inductive Work.Aside (h : Hierarchy α) (l : LockId) : Work α → Prop
  | write {t : ThreadId} {slot : String} {x : Holding} {g : Guard} (v : α) (slotted : h.slot? t slot = some x)
      (guarded : g ∈ x.guards) (lock : g.lock = l) : Aside h l (.move (.write t l v))
  | modify {t : ThreadId} {slot : String} {x : Holding} {g : Guard} (f : α → α) (slotted : h.slot? t slot = some x)
      (guarded : g ∈ x.guards) (lock : g.lock = l) : Aside h l (.modify t l f)
  | borrow (v : α) (unused : h.isUsed l = false) : Aside h l (.move (.borrow l v))
  | amend (f : α → α) (unused : h.isUsed l = false) : Aside h l (.amend l f)

/-- The call is at the lock of an entry, or wants it. -/
def Phase.IsAt (l : LockId) : Phase α → Prop
  | .waiting k _ (.visit _ _) => k = l
  | .visiting entry _ => entry.lock = l
  | _ => False

section
variable {h h' : Hierarchy α} {t : ThreadId} {l : LockId} {r : RegistryId} {d : Registry}

/-- An insertion that has room binds the name to a new identity. -/
theorem Housed.insert_binds (hh : h.Housed) (hd : h.registries[r]? = some d) {previous : Rank} {name : String} {v : α}
    {rest : List (Phase α)} (hp : h.phases t = .waiting d.directory previous (.inquire r (.insert name v)) :: rest)
    {env : Environment} (hroom : ∀ n, env.table n 1 = .ok ()) (hs : h.step? env t = some h') :
    ∃ l gs, h.element? l = none ∧ h'.catalog = (h.catalog.assign l v).rebind r name (some l) ∧
      h'.phases t = .releasing gs (.flag (h.catalog.names r name).isSome) :: rest := by
  obtain ⟨h₁, ha, hp₁, rfl⟩ := step?_waiting hp hs
  obtain ⟨hh₁, hregistries, hcatalog⟩ := hh.admitted ha
  have hd₁ : h₁.registries[r]? = some d := hregistries ▸ hd
  have hbind : h₁.proceed env t ⟨d.directory, previous⟩ (.inquire r (.insert name v)) =
      h₁.bind t ⟨d.directory, previous⟩ r name v := by
    simp only [proceed, Hierarchy.inquire, hroom]
  rw [hbind, ← hcatalog]
  have hflag : (h₁.bind t ⟨d.directory, previous⟩ r name v).phases t =
      .releasing [⟨d.directory, previous⟩] (.flag ((h₁.names d.directory).contains name)) :: rest :=
    phases_into (h := ((h₁.addLock _ (.element v)).1.setContent d.directory _)) hp₁ _
  cases hh₁.inquire_insert (t := t) (g := ⟨d.directory, previous⟩) hd₁ rfl name v with
  | reaching name callback l entry _ _ => cases entry
  | served a h₂ hstate hcalls _ _ _ _ hserves =>
    have hphases : (h₂.into t (.releasing [⟨d.directory, previous⟩] a)).phases t =
        .releasing [⟨d.directory, previous⟩] a :: rest := phases_into ((congrArg (Calls.of · t) hcalls).trans hp₁) _
    rw [hstate] at hflag ⊢
    generalize hcatalog₂ : h₂.catalog = k at hserves
    cases hserves with
    | insert _ _ fresh =>
      have hfresh : h.element? _ = none := (congrFun (congrArg Catalog.value hcatalog) _).symm.trans fresh
      exact ⟨_, _, hfresh, hcatalog₂, hphases⟩
    | exhausted _ _ f =>
      rw [hphases] at hflag
      cases hflag

theorem Fits.not_isAt {p : Phase α} {s : Stage α} (hf : h.Fits t p s) (hl : h.catalog.Retired l) : ¬ p.IsAt l := by
  intro hat
  cases hf with
  | elsewhere _ he => cases he <;> cases hat
  | @reaching r _ _ _ name _ k _ _ _ hb => exact hl.2 r name ((show k = l from hat) ▸ hb)
  | @visiting r _ _ name k _ _ hb => exact hl.2 r name ((show k = l from hat) ▸ hb)
  | _ => cases hat

/-- In a callback a call has no guard of an identity that no name is bound to. -/
theorem Fits.lock_ne {p : Phase α} {s : Stage α} (hf : h.Fits t p s) (hh : h.Housed) (hl : h.catalog.Retired l)
    (hv : p.isVisiting = true) {g : Guard} (hg : g ∈ p.guards) : g.lock ≠ l := by
  have hnot := hf.not_isAt hl
  cases hf with
  | elsewhere _ he => cases he <;> cases hv
  | @visiting r c d name k hd _ _ =>
    simp only [Phase.guards, Multiset.insert_eq_cons, Multiset.mem_cons, Multiset.mem_singleton] at hg
    rcases hg with rfl | rfl
    · exact hnot
    · rintro rfl
      exact hl.1 (hh.directories r d hd).element?
  | _ => cases hv

end

namespace Chronicle

section
variable {c c' : Chronicle α} {w : Work α} {m : Move α} {t : ThreadId} {l : LockId}

theorem Sound.slotted (hs : c.Sound) (hr : c.state.Reachable) (hl : c.state.catalog.Retired l)
    (hfree : c.state.isFree t = true) (hown : l ∈ (c.state.owned t).map Guard.lock) :
    ∃ slot x g, c.state.slot? t slot = some x ∧ g ∈ x.guards ∧ g.lock = l := by
  obtain ⟨g, hg, rfl⟩ := Multiset.mem_map.mp hown
  rcases mem_owned.mp hg with ⟨slot, x, hx, hgx⟩ | ⟨p, hp, hgp⟩
  · exact ⟨slot, x, g, hx, hgx, rfl⟩
  · obtain ⟨s, hfit⟩ := hs.fits_of_mem hp
    have hvisiting := visiting_of_isFree (hr.poised t) hfree p hp
    exact absurd rfl (hfit.lock_ne hs.housed hl hvisiting hgp)

theorem Sound.written (hs : c.Sound) (hr : c.state.Reachable) (hl : c.state.catalog.Retired l) {k : LockId} {x : α}
    {h' : Hierarchy α} (hm : c.state.move? (.write t k x) = some h') (he : c.state.edit? l (.write t k x) ≠ none) :
    k = l ∧ (∃ slot y g, c.state.slot? t slot = some y ∧ g ∈ y.guards ∧ g.lock = l) ∧
      h'.catalog = c.state.catalog.assign l x := by
  obtain rfl : k = l := by
    by_contra hne
    exact he (if_neg hne)
  simp only [move?] at hm
  split at hm
  · rename_i hmay
    obtain ⟨v, hv, rfl⟩ := Option.map_eq_some_iff.mp hm
    exact ⟨rfl, hs.slotted hr hl hmay.1 hmay.2, hs.housed.catalog_setElement hv x⟩
  · cases hm

theorem Sound.borrowed (hs : c.Sound) {k : LockId} {x : α} {h' : Hierarchy α}
    (hm : c.state.move? (.borrow k x) = some h') (he : c.state.edit? l (.borrow k x) ≠ none) :
    k = l ∧ c.state.isUsed l = false ∧ h'.catalog = c.state.catalog.assign l x := by
  obtain rfl : k = l := by
    by_contra hne
    exact he (if_neg hne)
  simp only [move?] at hm
  split at hm
  · cases hm
  · rename_i hunused
    obtain ⟨v, hv, rfl⟩ := Option.map_eq_some_iff.mp hm
    exact ⟨rfl, Bool.eq_false_of_not_eq_true hunused, hs.housed.catalog_setElement hv x⟩

/-- What is done to a value that no name is bound to. -/
theorem Sound.aside (hs : c.Sound) (hr : c.state.Reachable) (hn : c.next? w = some c')
    (hl : c.state.catalog.Retired l) (hchanged : c'.state.element? l ≠ c.state.element? l) :
    w.Aside c.state l ∧ ∃ v, c'.state.catalog = c.state.catalog.assign l v := by
  obtain ⟨m, hw, hm⟩ := next?_move hn
  obtain ⟨v, hv⟩ := Option.ne_none_iff_exists'.mp hl.1
  have hc : c.state.content? l = some (.element v) := element?_eq_some hv
  have hcontent := content_move hm hc
  -- the value changes by an edit of its lock, and that is not one of a directory
  have hedit : c.state.edit? l m ≠ none := by
    intro hnone
    rw [hnone, Option.elim_none] at hcontent
    rw [element?_eq, element?_eq, hcontent, hc] at hchanged
    exact hchanged rfl
  have written {u : ThreadId} {k : LockId} {x : α} (hm : c.state.move? (.write u k x) = some c'.state)
      (he : c.state.edit? l (.write u k x) ≠ none) {w : Work α}
      (aside : ∀ slot y g, c.state.slot? u slot = some y → g ∈ y.guards → g.lock = l → k = l → w.Aside c.state l) :
      w.Aside c.state l ∧ ∃ v, c'.state.catalog = c.state.catalog.assign l v := by
    obtain ⟨hk, ⟨slot, y, g, hslot, hg, hlock⟩, hcatalog⟩ := hs.written hr hl hm he
    exact ⟨aside slot y g hslot hg hlock hk, x, hcatalog⟩
  cases w with
  | modify u k f =>
    obtain ⟨x, -, rfl⟩ := Option.map_eq_some_iff.mp hw
    exact written hm hedit fun slot y g hslot hg hlock hk => hk ▸ .modify f hslot hg (hlock.trans hk.symm)
  | amend k f =>
    obtain ⟨x, -, rfl⟩ := Option.map_eq_some_iff.mp hw
    obtain ⟨rfl, hunused, hcatalog⟩ := hs.borrowed hm hedit
    exact ⟨.amend f hunused, _, hcatalog⟩
  | move m' =>
    cases hw
    cases m with
    | step u env =>
      rcases content_step hm hc with ⟨hnone, -⟩ | ⟨e, he, -, -, -⟩
      · exact absurd hnone hedit
      · unfold rebinding? at he
        split at he
        · rename_i k previous r i hcurrent
          split at he
          · rename_i hk
            subst hk
            exact absurd ((hr.furnished.orderly u).directory _ k hcurrent rfl) (not_isDirectory hv)
          · cases he
        · cases he
    | write u k x => exact written hm hedit fun slot y g hslot hg hlock hk => hk ▸ .write x hslot hg (hlock.trans hk.symm)
    | borrow k x =>
      obtain ⟨rfl, hunused, hcatalog⟩ := hs.borrowed hm hedit
      exact ⟨.borrow x hunused, x, hcatalog⟩
    | _ => exact absurd rfl hedit

/-- From one state of a run to a later one the history goes on, and explains the later map from the earlier. -/
theorem Reachable.replay_since (hc : c.Reachable) (hl : Leads next? c c') :
    ∃ es, c'.history = c.history ++ es ∧ Trace Catalog.Happens c.state.catalog es c'.state.catalog := by
  induction hl with
  | refl => exact ⟨[], (List.append_nil _).symm, rfl⟩
  | tail w hl hn ih =>
    obtain ⟨es, hes, htrace⟩ := ih
    obtain ⟨es', hes', hstride⟩ := Reachable.stride (hc.trans hl) hn
    exact ⟨es ++ es', by rw [hes', hes, List.append_assoc], trace_append.mpr ⟨_, htrace, hstride.replay⟩⟩

end

/-! ## Refinement -/

/-- The calls on registries so far are calls on a map from names to identities with one value each. -/
structure Refines (c : Chronicle α) : Prop where
  /-- Serving the calls one after another, in the order of the history, explains all answers. -/
  replay : Trace Catalog.Happens {} c.history c.state.catalog
  /-- Each call is served once, between being made and being over, unless it is refused. -/
  courses : ∀ t, Trace (Advances t) [] c.history (c.stages t)
  /-- Where each call is under way it is as far as its stage says; a callback runs on what the name is bound to. -/
  fits : ∀ t, List.Forall₂ (c.state.Fits t) (c.state.phases t) (c.stages t)
  /-- A callback has the entry and the directory to itself. -/
  alone : ∀ t entry directory, .visiting entry directory ∈ c.state.phases t →
    c.state.holder? entry.lock = some t ∧ c.state.holder? directory.lock = some t
  /-- Calls on one registry are served in the order in which they get the directory. -/
  order : ∀ r, c.InOrder r
  entries : ∀ r d name l, c.state.registries[r]? = some d → c.state.binding? r name = some l →
    c.state.rank l = d.entryRank ∧ ∃ v, c.state.element? l = some v
  once : ∀ r r' name name' l, c.state.binding? r name = some l → c.state.binding? r' name' = some l → r = r' ∧ name = name'
  /-- An insertion binds the name to a new identity if there is room. -/
  binds : ∀ t env h' r d name v previous rest, c.state.registries[r]? = some d →
    c.state.phases t = .waiting d.directory previous (.inquire r (.insert name v)) :: rest →
    (∀ n, env.table n 1 = .ok ()) → c.state.step? env t = some h' →
      ∃ l gs, c.state.element? l = none ∧ h'.catalog = (c.state.catalog.assign l v).rebind r name (some l) ∧
        h'.phases t = .releasing gs (.flag (c.state.binding? r name).isSome) :: rest
  /-- Only who has its lock changes a value, and what it is comes of all changes in the order of the lock. -/
  folds : ∀ l, c.ledger.Conserved l
  /-- A call that ends in a violation was never served. -/
  refused : ∀ t v s st, c.state.answer? t = some (.violated v) → c.stages t = s :: st → ∃ a, s = .asked a
  retires : ∀ w c' r name l, c.next? w = some c' → c.state.binding? r name = some l →
    c'.state.binding? r name ≠ some l → c'.state.catalog.Retired l

/-- The registries have nothing to do with the identity any more. -/
structure Superseded (c : Chronicle α) (l : LockId) : Prop where
  retired : c.state.catalog.Retired l
  unreached : ∀ t, ∀ p ∈ c.state.phases t, ¬ p.IsAt l
  /-- Only through its own lock the value changes, and that changes nothing that a registry answers. -/
  aside : ∀ w c', c.next? w = some c' → c'.state.element? l ≠ c.state.element? l → w.Aside c.state l ∧
    ∀ r name, c'.state.binding? r name = c.state.binding? r name ∧
      c'.state.catalog.lookup r name = c.state.catalog.lookup r name

section
variable {c c' : Chronicle α} {l : LockId}

theorem Reachable.retires (hc : c.Reachable) {w : Work α} (hn : c.next? w = some c') {r : RegistryId} {name : String}
    (hl : c.state.binding? r name = some l) (hl' : c'.state.binding? r name ≠ some l) : c'.state.catalog.Retired l := by
  have hs := hc.sound
  obtain ⟨d, hd⟩ := registry_of_binding hl
  obtain ⟨-, v, hv⟩ := hs.housed.entries r d name l hd hl
  have hvalue : c.state.catalog.value l ≠ none := Option.ne_none_iff_exists'.mpr ⟨v, hv⟩
  obtain ⟨es, -, hstride⟩ := hc.stride hn
  refine ⟨Catalog.value_of_trace hstride.replay hvalue, fun r' name' hb => ?_⟩
  obtain ⟨-, hb'⟩ := Catalog.names_of_trace hstride.replay hvalue hb
  obtain ⟨rfl, rfl⟩ := hs.housed.once r r' name name' l hl hb'
  exact hl' hb

theorem Reachable.refines (hc : c.Reachable) : c.Refines where
  replay := hc.replay
  courses := hc.course
  fits := hc.sound.fits
  alone t entry directory hmem := by
    have held {g : Guard} (hg : g ∈ ({entry, directory} : Multiset Guard)) : c.state.holder? g.lock = some t :=
      hc.state.holder (mem_owned.mpr (.inr ⟨_, hmem, hg⟩))
    exact ⟨held (by simp), held (by simp)⟩
  order := hc.inOrder
  entries := hc.sound.housed.entries
  once := hc.sound.housed.once
  binds _ _ _ _ _ _ _ _ _ hd hp hroom hs := hc.sound.housed.insert_binds hd hp hroom hs
  folds := hc.ledger.conserved
  refused t v s st ha hst := by
    have hfits := hc.sound.fits t
    unfold answer? at ha
    split at ha
    · rename_i a hcurrent
      cases ha
      rw [phases_eq_cons hcurrent, hst, List.forall₂_cons] at hfits
      cases hfits.1 with
      | elsewhere _ _ => exact ⟨_, rfl⟩
      | turnedAway _ _ => exact ⟨_, rfl⟩
      | returned _ _ hnot closes =>
        cases closes
        exact absurd rfl (hnot v)
    · cases ha
  retires _ _ _ _ _ hn hl hl' := hc.retires hn hl hl'

theorem Reachable.superseded (hc : c.Reachable) (hl : c.state.catalog.Retired l) : c.Superseded l where
  retired := hl
  unreached t p hp := by
    obtain ⟨s, hfit⟩ := hc.sound.fits_of_mem hp
    exact hfit.not_isAt hl
  aside w c' hn hchanged := by
    obtain ⟨haside, v, hcatalog⟩ := hc.sound.aside hc.state hn hl hchanged
    refine ⟨haside, fun r name => ⟨?_, ?_⟩⟩
    · exact congrFun (congrFun (congrArg Catalog.names hcatalog) r) name
    · rw [hcatalog, hl.lookup_assign]

/-- **Registries refine maps from names to identities.** In every state of every run, whatever else is done with the
locks of entries; and what no name is bound to any more is out of reach of the registries from then on. -/
theorem registry_refines_map (hc : c.Reachable) : c.Refines ∧
    ∀ l, c.state.catalog.Retired l → ∀ c', Leads next? c c' → c'.Superseded l := by
  refine ⟨hc.refines, fun l hl c' hlater => ?_⟩
  obtain ⟨es, -, htrace⟩ := hc.replay_since hlater
  exact Reachable.superseded (hc.trans hlater) (hl.trace htrace)

end

/-- The second thread has a handle of the entry and locks it, and the first is about to replace it. -/
def replacing : List (Work Nat) :=
  [.move (.addRegistry 10 5)] ++ Work.calling 1 (.registry 0 (.insert "k" 1)) 4 ++
    Work.calling 2 (.registry 0 (.entry "k")) 4 ++ Work.calling 2 (.lock 1 (.newHandle "old")) 2 ++
    [.move (.start 1 (.registry 0 (.insert "k" 2))), .move (.step 1 default)]

/-- Then each thread changes what it can reach. -/
def replaced : List (Work Nat) :=
  [.move (.step 1 default), .move (.step 1 default), .move (.collect 1), .modify 2 1 (· + 10),
    .move (.start 1 (.registry 0 (.update "k"))), .move (.step 1 default), .move (.step 1 default),
    .move (.step 1 default), .modify 1 2 (· * 3), .move (.finish 1 .finished)]

theorem registry_refines_map_replaced_entry : ∃ c₁ c₂ c₃ : Chronicle Nat, c₁.Reachable ∧ c₁.Refines ∧
    c₁.state.binding? 0 "k" = some 1 ∧ c₁.next? (.move (.step 1 default)) = some c₂ ∧
      c₂.state.binding? 0 "k" = some 2 ∧ Leads next? c₂ c₃ ∧ c₃.Superseded 1 ∧
        c₃.state.element? 1 = some 11 ∧ c₃.state.catalog.lookup 0 "k" = some 6 := by
  have hrun : ((run? next? {} replacing).bind fun c₁ => (c₁.next? (.move (.step 1 default))).bind fun c₂ =>
      (run? next? c₂ replaced).map fun c₃ => (c₁.state.binding? 0 "k", c₂.state.binding? 0 "k",
        c₃.state.element? 1, c₃.state.catalog.lookup 0 "k")) = some (some 1, some 2, some 11, some 6) := by decide +kernel
  obtain ⟨c₁, hbefore, hrun⟩ := Option.bind_eq_some_iff.mp hrun
  obtain ⟨c₂, hn, hrun⟩ := Option.bind_eq_some_iff.mp hrun
  obtain ⟨c₃, hafter, he⟩ := Option.map_eq_some_iff.mp hrun
  simp only [Prod.mk.injEq] at he
  obtain ⟨hbound, hrebound, hold, hnew⟩ := he
  have hc₁ : c₁.Reachable := Leads.refl.run _ hbefore
  have hc₂ : c₂.Reachable := hc₁.tail _ hn
  have hlater : Leads next? c₂ c₃ := Leads.refl.run _ hafter
  obtain ⟨hrefines, -⟩ := registry_refines_map hc₁
  have hretired : c₂.state.catalog.Retired 1 := hrefines.retires _ _ 0 "k" 1 hn hbound (by simp [hrebound])
  obtain ⟨-, hsuperseded⟩ := registry_refines_map hc₂
  exact ⟨c₁, c₂, c₃, hc₁, hrefines, hbound, hn, hrebound, hlater, hsuperseded 1 hretired c₃ hlater, hold, hnew⟩

end Chronicle

end Interlock.Hierarchy
