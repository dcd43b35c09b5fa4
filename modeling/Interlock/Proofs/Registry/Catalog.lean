import Interlock.Proofs.Tables
import Interlock.Proofs.Hierarchy.Slots

/-!
# Registries as maps

Seen from outside, a registry is a map from names to identities, and each identity has one value, whichever name it
is bound to. A `Catalog` has the names of all registries and the values of all identities, and `Serves` says what each
call answers and makes of it. `catalog` reads a catalog off the locks: the identities are the locks of elements. In
`Housed` states registries have valid ranks and directories of their own, and an entry is bound to one name.
-/

namespace Interlock.Hierarchy

variable {α : Type}

/-! ## The map -/

@[ext]
structure Catalog (α : Type) where
  names : RegistryId → String → Option LockId := fun _ _ => none
  value : LockId → Option α := fun _ => none

namespace Catalog

def rebind (c : Catalog α) (r : RegistryId) (name : String) (l : Option LockId) : Catalog α :=
  { c with names := Function.update c.names r (Function.update (c.names r) name l) }

def assign (c : Catalog α) (l : LockId) (v : α) : Catalog α := { c with value := Function.update c.value l (some v) }

theorem value_assign (c : Catalog α) (l k : LockId) (v : α) :
    (c.assign l v).value k = if k = l then some v else c.value k := Function.update_apply ..

theorem names_rebind (c : Catalog α) (r r' : RegistryId) (name name' : String) (l : Option LockId) :
    (c.rebind r name l).names r' name' = if r' = r ∧ name' = name then l else c.names r' name' := by
  simp only [rebind, Function.update_apply]
  by_cases hr : r' = r
  · subst hr
    simp [Function.update_apply]
  · simp [hr]

/-- What a registry has for a name. -/
def lookup (c : Catalog α) (r : RegistryId) (name : String) : Option α := (c.names r name).bind c.value

/-- What a call that gets the directory answers and what it makes of the catalog. -/
inductive Serves (c : Catalog α) (r : RegistryId) : Inquiry α → Answer α → Catalog α → Prop
  /-- The name is bound to an identity that has not been one before. -/
  | insert (name : String) (v : α) {l : LockId} (fresh : c.value l = none) :
      Serves c r (.insert name v) (.flag (c.names r name).isSome) ((c.assign l v).rebind r name (some l))
  | exhausted (name : String) (v : α) (f : StorageFault) : Serves c r (.insert name v) (.exhausted f) c
  | remove (name : String) : Serves c r (.remove name) (.bound (c.names r name)) (c.rebind r name none)
  | entry (name : String) : Serves c r (.entry name) (.bound (c.names r name)) c
  | contains (name : String) : Serves c r (.contains name) (.flag (c.names r name).isSome) c
  | len : Serves c r .len (.count {name | c.names r name ≠ none}.ncard) c
  | isEmpty {b : Bool} (hb : b = true ↔ ∀ name, c.names r name = none) : Serves c r .isEmpty (.flag b) c
  | get (name : String) : Serves c r (.get name) (.value (c.lookup r name)) c
  | update (name : String) : Serves c r (.update name) (.visited (c.names r name).isSome) c

theorem Serves.not_violated {c c' : Catalog α} {r : RegistryId} {i : Inquiry α} {a : Answer α}
    (h : c.Serves r i a c') (v : Violation) : a ≠ .violated v := by
  rintro rfl
  cases h

end Catalog

/-! ## The map that the locks are -/

def binding? (h : Hierarchy α) (r : RegistryId) (name : String) : Option LockId :=
  (h.registries[r]?).bind fun k => (h.names k.directory).get? name

def catalog (h : Hierarchy α) : Catalog α where
  names := h.binding?
  value := h.element?

structure Housed (h : Hierarchy α) : Prop where
  directories : ∀ (r : RegistryId) (k : Registry), h.registries[r]? = some k → h.IsDirectory k.directory
  ranks : ∀ (r : RegistryId) (k : Registry), h.registries[r]? = some k →
    k.entryRank < h.rank k.directory ∧ h.rank k.directory < Rank.unbounded
  apart : ∀ (r r' : RegistryId) (k k' : Registry), h.registries[r]? = some k → h.registries[r']? = some k' →
    k.directory = k'.directory → r = r'
  /-- What a name is bound to is an element at the rank of the registry's entries. -/
  entries : ∀ (r : RegistryId) (k : Registry) (name : String) (l : LockId), h.registries[r]? = some k →
    h.binding? r name = some l → h.rank l = k.entryRank ∧ ∃ v, h.element? l = some v
  once : ∀ (r r' : RegistryId) (name name' : String) (l : LockId), h.binding? r name = some l →
    h.binding? r' name' = some l → r = r' ∧ name = name'

/-! ## What changes make of the map -/

section
variable {h h' : Hierarchy α} {l k : LockId} {r : RegistryId} {d : Registry} {name : String} {v w : α}

theorem names_of_content {names : Directory} (hc : h.content? l = some (.directory names)) : h.names l = names := by
  rw [names_eq, hc]
  rfl

theorem IsDirectory.content? (hl : h.IsDirectory l) : h.content? l = some (.directory (h.names l)) := by
  obtain ⟨names, hc⟩ := hl
  rw [names_of_content hc, hc]

theorem IsDirectory.element? (hl : h.IsDirectory l) : h.element? l = none := by
  rw [element?_eq, hl.content?]
  rfl

theorem binding?_eq (hd : h.registries[r]? = some d) (name : String) :
    h.binding? r name = (h.names d.directory).get? name := by
  rw [binding?, hd, Option.bind_some]

theorem names_eq_get? (hd : h.registries[r]? = some d) : h.catalog.names r = (h.names d.directory).get? :=
  funext fun name => binding?_eq hd name

theorem catalog_congr (hr : h'.registries = h.registries) (hc : ∀ l, h'.content? l = h.content? l) :
    h'.catalog = h.catalog := by
  refine Catalog.ext ?_ ?_
  · funext r name
    show h'.binding? r name = h.binding? r name
    simp only [binding?, hr, names_eq, hc]
  · funext l
    show h'.element? l = h.element? l
    rw [element?_eq, element?_eq, hc]

/-- A new lock that is not a directory of a registry has no names. -/
theorem Housed.catalog_addLock (hh : h.Housed) (rank : Rank) (v : α) :
    (h.addLock rank (.element v)).1.catalog = h.catalog.assign h.locks.length v := by
  refine Catalog.ext ?_ ?_
  · funext r name
    show (Option.bind h.registries[r]? fun d => ((h.addLock rank (.element v)).1.names d.directory).get? name) = _
    cases hd : h.registries[r]? with
    | none => simp [Catalog.assign, catalog, binding?, hd]
    | some d =>
      have hne : d.directory ≠ h.locks.length := Nat.ne_of_lt (lt_of_content? (hh.directories r d hd).content?)
      simp only [Catalog.assign, catalog, binding?, hd, Option.bind_some, names_eq, content?_addLock_eq, if_neg hne]
  · funext l
    show (h.addLock rank (.element v)).1.element? l = Function.update h.element? h.locks.length (some v) l
    rw [element?_eq, content?_addLock_eq, Function.update_apply]
    split
    · rfl
    · exact (element?_eq h l).symm

theorem Housed.catalog_addRegistry (hh : h.Housed) (directoryRank entryRank : Rank) :
    (h.addRegistry directoryRank entryRank).1.catalog = h.catalog := by
  have hcontent (l : LockId) : (h.addRegistry directoryRank entryRank).1.content? l =
      if l = h.locks.length then some (.directory {}) else h.content? l := content?_addLock_eq ..
  refine Catalog.ext ?_ ?_
  · funext r name
    show (Option.bind (h.registries ++ [⟨h.locks.length, entryRank⟩])[r]? fun d =>
      ((h.addRegistry directoryRank entryRank).1.names d.directory).get? name) = h.binding? r name
    rw [List.getElem?_append]
    split
    · rename_i hlt
      have hd : h.registries[r]? = some h.registries[r] := List.getElem?_eq_getElem hlt
      have hne := Nat.ne_of_lt (lt_of_content? (hh.directories r _ hd).content?)
      simp only [binding?, hd, Option.bind_some, names_eq, hcontent, if_neg hne]
    · rename_i hge
      have hnone : h.registries[r]? = none := List.getElem?_eq_none (Nat.le_of_not_lt hge)
      rw [List.getElem?_singleton, binding?, hnone]
      split
      · rw [Option.bind_some, names_of_content ((hcontent _).trans (if_pos rfl))]
        rfl
      · rfl
  · funext l
    show (h.addRegistry directoryRank entryRank).1.element? l = h.element? l
    rw [element?_eq, element?_eq, hcontent]
    split
    · rename_i hl
      rw [hl, content?_length]
      rfl
    · rfl

theorem Housed.catalog_setElement (hh : h.Housed) (hw : h.element? l = some w) (v : α) :
    (h.setContent l (.element v)).catalog = h.catalog.assign l v := by
  refine Catalog.ext ?_ ?_
  · funext r name
    show (Option.bind h.registries[r]? fun d => ((h.setContent l (.element v)).names d.directory).get? name) =
      h.binding? r name
    cases hd : h.registries[r]? with
    | none => rw [binding?, hd]; rfl
    | some d =>
      have hne : l ≠ d.directory := by
        rintro rfl
        exact not_isDirectory hw (hh.directories r d hd)
      rw [binding?, hd, Option.bind_some, Option.bind_some, names_eq, names_eq, content?_setContent, if_neg hne]
  · funext k
    show (h.setContent l (.element v)).element? k = Function.update h.element? l (some v) k
    rw [element?_eq, content?_setContent, Function.update_apply]
    by_cases hk : k = l
    · subst hk
      rw [if_pos rfl, if_pos rfl, element?_eq_some hw]
      rfl
    · rw [if_neg (Ne.symm hk), if_neg hk]
      exact (element?_eq h k).symm

/-- Another directory in place of the registry's. -/
theorem catalog_setDirectory (hapart : ∀ r' d', h.registries[r']? = some d' → d.directory = d'.directory → r = r')
    (hd : h.registries[r]? = some d) (hdir : h.IsDirectory d.directory) (names : Directory) :
    (h.setContent d.directory (.directory names)).catalog =
      { h.catalog with names := Function.update h.catalog.names r names.get? } := by
  refine Catalog.ext ?_ ?_
  · funext r' name
    show (Option.bind h.registries[r']? fun d' =>
      ((h.setContent d.directory (.directory names)).names d'.directory).get? name) =
        Function.update h.binding? r names.get? r' name
    rw [Function.update_apply]
    by_cases hr : r' = r
    · subst hr
      rw [if_pos rfl, hd, Option.bind_some, names_eq, content?_setContent, if_pos rfl, hdir.content?]
      rfl
    · rw [if_neg hr]
      show _ = h.binding? r' name
      cases hd' : h.registries[r']? with
      | none => rw [binding?, hd']; rfl
      | some d' =>
        have hne : d.directory ≠ d'.directory := fun he => hr (hapart r' d' hd' he).symm
        rw [binding?, hd', Option.bind_some, Option.bind_some, names_eq, names_eq, content?_setContent, if_neg hne]
  · funext k
    show (h.setContent d.directory (.directory names)).element? k = h.element? k
    rw [element?_eq, content?_setContent]
    by_cases hk : d.directory = k
    · subst hk
      rw [if_pos rfl, hdir.element?, hdir.content?]
      rfl
    · rw [if_neg hk]
      exact (element?_eq h k).symm

theorem Housed.rank_lt (hh : h.Housed) (hd : h.registries[r]? = some d) (hb : h.binding? r name = some l) :
    h.rank l < h.rank d.directory ∧ h.rank l < Rank.unbounded := by
  obtain ⟨hrank, -⟩ := hh.entries r d name l hd hb
  obtain ⟨hlt, hbounded⟩ := hh.ranks r d hd
  exact ⟨hrank ▸ hlt, hrank ▸ Nat.lt_trans hlt hbounded⟩

theorem registry_of_binding (hb : h.binding? r name = some l) : ∃ d, h.registries[r]? = some d := by
  cases hd : h.registries[r]? with
  | none => simp [binding?, hd] at hb
  | some d => exact ⟨d, rfl⟩

/-- Nothing new is bound. -/
theorem Housed.keep (hh : h.Housed) (hr : h'.registries = h.registries) (hdir : ∀ l, h.IsDirectory l → h'.IsDirectory l)
    (hrank : ∀ l, h.rank l < Rank.unbounded → h'.rank l = h.rank l)
    (he : ∀ l v, h.element? l = some v → ∃ w, h'.element? l = some w)
    (hb : ∀ r name l, h'.binding? r name = some l → h.binding? r name = some l) : h'.Housed where
  directories r d hd := hdir _ (hh.directories r d (hr ▸ hd))
  ranks r d hd := by
    rw [hr] at hd
    rw [hrank _ (hh.ranks r d hd).2]
    exact hh.ranks r d hd
  apart r r' d d' hd hd' := hh.apart r r' d d' (hr ▸ hd) (hr ▸ hd')
  entries r d name l hd hl := by
    rw [hr] at hd
    have hl := hb r name l hl
    obtain ⟨hentry, v, hv⟩ := hh.entries r d name l hd hl
    exact ⟨(hrank l (hh.rank_lt hd hl).2).trans hentry, he l v hv⟩
  once r r' name name' l hl hl' := hh.once r r' name name' l (hb r name l hl) (hb r' name' l hl')

/-- One name is bound to a new lock. -/
theorem Housed.bind (hh : h.Housed) (name : String) (hr : h'.registries = h.registries) (hd : h.registries[r]? = some d)
    (hdir : ∀ l, h.IsDirectory l → h'.IsDirectory l)
    (hrank : ∀ l, h.rank l < Rank.unbounded → h'.rank l = h.rank l)
    (he : ∀ l v, h.element? l = some v → ∃ w, h'.element? l = some w) (hold : h.element? l = none)
    (hnew : h'.rank l = d.entryRank ∧ ∃ w, h'.element? l = some w)
    (hb : ∀ r' name' k, h'.binding? r' name' = some k → h.binding? r' name' = some k ∨ r' = r ∧ name' = name ∧ k = l) :
    h'.Housed where
  directories r d hd := hdir _ (hh.directories r d (hr ▸ hd))
  ranks r' d' hd' := by
    rw [hr] at hd'
    rw [hrank _ (hh.ranks r' d' hd').2]
    exact hh.ranks r' d' hd'
  apart r r' d d' hd hd' := hh.apart r r' d d' (hr ▸ hd) (hr ▸ hd')
  entries r' d' name' k hd' hk := by
    rw [hr] at hd'
    rcases hb r' name' k hk with hk | ⟨rfl, -, rfl⟩
    · obtain ⟨hentry, v, hv⟩ := hh.entries r' d' name' k hd' hk
      exact ⟨(hrank k (hh.rank_lt hd' hk).2).trans hentry, he k v hv⟩
    · rw [hd] at hd'
      cases hd'
      exact hnew
  once r₁ r₂ name₁ name₂ k hk₁ hk₂ := by
    have fresh {r' : RegistryId} {name' : String} (hl : h.binding? r' name' = some l) : False := by
      obtain ⟨d', hd'⟩ := registry_of_binding hl
      obtain ⟨-, v, hv⟩ := hh.entries r' d' name' l hd' hl
      rw [hold] at hv
      cases hv
    rcases hb r₁ name₁ k hk₁ with hk₁ | ⟨rfl, rfl, rfl⟩
    · rcases hb r₂ name₂ k hk₂ with hk₂ | ⟨rfl, rfl, rfl⟩
      · exact hh.once r₁ r₂ name₁ name₂ k hk₁ hk₂
      · exact (fresh hk₁).elim
    · rcases hb r₂ name₂ k hk₂ with hk₂ | ⟨rfl, rfl, -⟩
      · exact (fresh hk₂).elim
      · exact ⟨rfl, rfl⟩

theorem Housed.of_content (hh : h.Housed) (hr : h'.registries = h.registries)
    (hrank : ∀ l, h.rank l < Rank.unbounded → h'.rank l = h.rank l) (hc : ∀ l, h'.content? l = h.content? l) :
    h'.Housed := by
  have hcatalog := catalog_congr hr hc
  refine hh.keep hr (fun l hl => ?_) hrank (fun l v hv => ⟨v, ?_⟩) fun r name l hl => ?_
  · rwa [IsDirectory, hc]
  · exact (congrFun (congrArg Catalog.value hcatalog) l).trans hv
  · exact (congrFun (congrFun (congrArg Catalog.names hcatalog) r) name).symm.trans hl

/-- An admission touches neither the registries nor what is in the locks. -/
theorem Housed.admitted (hh : h.Housed) {t : ThreadId} {previous : Rank} {g : Guard}
    (ha : h.admit? t l previous = some (h', g)) :
    h'.Housed ∧ h'.registries = h.registries ∧ h'.catalog = h.catalog := by
  obtain ⟨-, -, hregistries, hcontent⟩ := admit?_contents ha
  obtain ⟨-, -, hrank, -⟩ := admit?_eq ha
  exact ⟨hh.of_content hregistries (fun k _ => hrank k) hcontent, hregistries, catalog_congr hregistries hcontent⟩

theorem Housed.into (hh : h.Housed) (t : ThreadId) (p : Phase α) : (h.into t p).Housed :=
  hh.of_content rfl (fun _ _ => rfl) fun _ => rfl

/-- One element is new, or another than before. -/
theorem Housed.assign (hh : h.Housed) (hr : h'.registries = h.registries) (hdir : ∀ l, h.IsDirectory l → h'.IsDirectory l)
    (hrank : ∀ l, h.rank l < Rank.unbounded → h'.rank l = h.rank l) (hc : h'.catalog = h.catalog.assign k v) :
    h'.Housed := by
  refine hh.keep hr hdir hrank (fun l w hw => ?_) fun r name l hl => ?_
  · have hvalue : h'.element? l = Function.update h.element? k (some v) l := congrFun (congrArg Catalog.value hc) l
    rw [hvalue, Function.update_apply]
    split
    · exact ⟨v, rfl⟩
    · exact ⟨w, hw⟩
  · exact (congrFun (congrFun (congrArg Catalog.names hc) r) name).symm.trans hl

theorem Housed.addLock (hh : h.Housed) (rank : Rank) (v : α) : (h.addLock rank (.element v)).1.Housed := by
  refine hh.assign rfl (fun l hl => ?_) (fun l hl => rank_addLock hl rank _) (hh.catalog_addLock rank v)
  obtain ⟨names, hc⟩ := hl
  exact ⟨names, (content?_addLock (lt_of_content? hc) rank _).trans hc⟩

theorem Housed.setElement (hh : h.Housed) (hw : h.element? k = some w) (v : α) :
    (h.setContent k (.element v)).Housed := by
  refine hh.assign rfl (fun l hl => ?_) (fun l _ => rank_setContent ..) (hh.catalog_setElement hw v)
  have hne : k ≠ l := by
    rintro rfl
    exact not_isDirectory hw hl
  rwa [IsDirectory, content?_setContent, if_neg hne]

theorem Housed.addRegistry (hh : h.Housed) {directoryRank entryRank : Rank}
    (hlt : entryRank < directoryRank) (hbounded : directoryRank < Rank.unbounded) :
    (h.addRegistry directoryRank entryRank).1.Housed := by
  have hcatalog := hh.catalog_addRegistry directoryRank entryRank
  have hbinding (r : RegistryId) (name : String) :
      (h.addRegistry directoryRank entryRank).1.binding? r name = h.binding? r name :=
    congrFun (congrFun (congrArg Catalog.names hcatalog) r) name
  have hrank {l : LockId} (hl : h.rank l < Rank.unbounded) : (h.addRegistry directoryRank entryRank).1.rank l = h.rank l :=
    rank_addLock hl directoryRank (.directory {})
  have registered {r : RegistryId} {d : Registry} (hd : (h.addRegistry directoryRank entryRank).1.registries[r]? = some d) :
      h.registries[r]? = some d ∨ r = h.registries.length ∧ d = ⟨h.locks.length, entryRank⟩ := by
    have hd : (h.registries ++ [⟨h.locks.length, entryRank⟩])[r]? = some d := hd
    rw [List.getElem?_append] at hd
    split at hd
    · exact .inl hd
    · rename_i hge
      rw [List.getElem?_singleton] at hd
      split at hd
      · rename_i hr
        cases hd
        exact .inr ⟨Nat.le_antisymm (Nat.sub_eq_zero_iff_le.mp hr) (Nat.le_of_not_lt hge), rfl⟩
      · cases hd
  have old {r : RegistryId} {d : Registry} (hd : h.registries[r]? = some d) : d.directory ≠ h.locks.length :=
    Nat.ne_of_lt (lt_of_content? (hh.directories r d hd).content?)
  refine ⟨fun r d hd => ?_, fun r d hd => ?_, fun r r' d d' hd hd' he => ?_, fun r d name l hd hl => ?_,
    fun r r' name name' l hl hl' => ?_⟩
  · rcases registered hd with hd | ⟨-, rfl⟩
    · obtain ⟨names, hc⟩ := hh.directories r d hd
      exact ⟨names, (content?_addLock (lt_of_content? hc) directoryRank (.directory {})).trans hc⟩
    · exact ⟨{}, (content?_addLock_eq h directoryRank (.directory {}) _).trans (if_pos rfl)⟩
  · rcases registered hd with hd | ⟨-, rfl⟩
    · rw [hrank (hh.ranks r d hd).2]
      exact hh.ranks r d hd
    · rw [show (h.addRegistry directoryRank entryRank).1.rank h.locks.length = directoryRank from
        rank_addLock_new h directoryRank (.directory {})]
      exact ⟨hlt, hbounded⟩
  · rcases registered hd with hd | ⟨rfl, rfl⟩
    · rcases registered hd' with hd' | ⟨rfl, rfl⟩
      · exact hh.apart r r' d d' hd hd' he
      · exact absurd he (old hd)
    · rcases registered hd' with hd' | ⟨rfl, -⟩
      · exact absurd he.symm (old hd')
      · rfl
  · rw [hbinding] at hl
    obtain ⟨d', hd'⟩ := registry_of_binding hl
    obtain rfl : d = d' := by
      rcases registered hd with hd | ⟨rfl, -⟩
      · rw [hd] at hd'
        exact Option.some.inj hd'
      · rw [List.getElem?_eq_none (Nat.le_refl _)] at hd'
        cases hd'
    obtain ⟨hentry, v, hv⟩ := hh.entries r d name l hd' hl
    refine ⟨(hrank (hh.rank_lt hd' hl).2).trans hentry, v, ?_⟩
    exact (congrFun (congrArg Catalog.value hcatalog) l).trans hv
  · rw [hbinding] at hl hl'
    exact hh.once r r' name name' l hl hl'

end

/-! ## What a call makes of the map -/

/-- The name of the entry that a call goes on to, and whether it runs a callback there. -/
def Inquiry.entry? : Inquiry α → Option (String × Bool)
  | .get name => some (name, false)
  | .update name => some (name, true)
  | _ => none

/-- What a call does that has got the directory: it is served at once, or goes on to an entry. -/
inductive Inquired (h : Hierarchy α) (t : ThreadId) (g : Guard) (r : RegistryId) (i : Inquiry α) (h' : Hierarchy α) :
    Prop
  | served (a : Answer α) (h₁ : Hierarchy α) (state : h' = h₁.into t (.releasing [g] a)) (calls : h₁.calls = h.calls)
      (ceiling : h₁.ceiling t = h.ceiling t) (registries : h₁.registries = h.registries)
      (rank : ∀ l, h.rank l < Rank.unbounded → h₁.rank l = h.rank l) (housed : h₁.Housed)
      (serves : h.catalog.Serves r i a h₁.catalog)
  | reaching (name : String) (callback : Bool) (l : LockId) (entry : i.entry? = some (name, callback))
      (bound : h.binding? r name = some l)
      (state : h' = h.into t (.waiting l (h.ceiling t) (.visit g callback)))

section
variable {h : Hierarchy α} {t : ThreadId} {g : Guard} {r : RegistryId} {d : Registry}

/-- A call that leaves the map as it is. -/
theorem Housed.answers (hh : h.Housed) (t : ThreadId) (g : Guard) {r : RegistryId} {i : Inquiry α} {a : Answer α}
    (hs : h.catalog.Serves r i a h.catalog) : h.Inquired t g r i (h.into t (.releasing [g] a)) :=
  .served a h rfl rfl rfl rfl (fun _ _ => rfl) hh hs

theorem Housed.openEntry (hh : h.Housed) (hd : h.registries[r]? = some d) (hg : g.lock = d.directory)
    (hin : h.ceiling t = h.rank d.directory) {i : Inquiry α} {name : String} {callback : Bool}
    (hi : i.entry? = some (name, callback)) : h.Inquired t g r i (h.openEntry t g name callback) := by
  have hnames : h.catalog.names r name = (h.names g.lock).get? name := by rw [names_eq_get? hd, hg]
  unfold Hierarchy.openEntry
  cases hl : (h.names g.lock).get? name with
  | none =>
    rw [hl] at hnames
    refine hh.answers t g ?_
    cases i with
    | get name' =>
      cases hi
      simpa [Catalog.lookup, hnames] using Catalog.Serves.get (c := h.catalog) (r := r) name
    | update name' =>
      cases hi
      simpa [hnames] using Catalog.Serves.update (c := h.catalog) (r := r) name
    | _ => cases hi
  | some l =>
    have hbound : h.binding? r name = some l := hnames.trans hl
    have hbelow : ¬ h.ceiling t ≤ h.rank l := by
      rw [hin]
      exact Nat.not_le_of_lt (hh.rank_lt hd hbound).1
    refine .reaching name callback l hi hbound ?_
    simp only [approach, checkAcquire, if_neg hbelow]

theorem Housed.inquire_insert (hh : h.Housed) (hd : h.registries[r]? = some d) (hg : g.lock = d.directory)
    (name : String) (v : α) : h.Inquired t g r (.insert name v) (h.bind t g r name v) := by
  let added := (h.addLock d.entryRank (.element v)).1
  let bound := added.setContent g.lock (.directory ((h.names g.lock).insert name h.locks.length))
  have hdir := hh.directories r d hd
  have hadded : added.IsDirectory d.directory :=
    ⟨_, (content?_addLock (lt_of_content? hdir.content?) d.entryRank (.element v)).trans hdir.content?⟩
  have hold : h.element? h.locks.length = none := by rw [element?_eq, content?_length]; rfl
  have hcatalog : bound.catalog = (h.catalog.assign h.locks.length v).rebind r name (some h.locks.length) := by
    have hset := catalog_setDirectory (h := added) (fun r' d' => hh.apart r r' d d' hd) hd hadded
      ((h.names d.directory).insert name h.locks.length)
    rw [Table.get?_insert_eq_update, hh.catalog_addLock, ← names_eq_get? hd] at hset
    simp only [bound, hg]
    exact hset
  have hrank (l : LockId) (hl : h.rank l < Rank.unbounded) : bound.rank l = h.rank l := by
    rw [rank_setContent]
    exact rank_addLock hl d.entryRank (.element v)
  have hvalue (l : LockId) : bound.element? l = Function.update h.element? h.locks.length (some v) l :=
    congrFun (congrArg Catalog.value hcatalog) l
  have hhoused : bound.Housed := by
    refine hh.bind name rfl hd (fun l hl => ?_) hrank (fun l w hw => ?_) hold ⟨?_, v, ?_⟩ fun r' name' k hk => ?_
    · obtain ⟨names, hc⟩ := hl
      rw [IsDirectory, content?_setContent, content?_addLock (lt_of_content? hc), hc]
      split
      · exact ⟨_, rfl⟩
      · exact ⟨names, rfl⟩
    · rw [hvalue, Function.update_apply]
      split
      · exact ⟨v, rfl⟩
      · exact ⟨w, hw⟩
    · rw [rank_setContent]
      exact rank_addLock_new h d.entryRank (.element v)
    · rw [hvalue, Function.update_self]
    · have hnames := congrFun (congrFun (congrArg Catalog.names hcatalog) r') name'
      have hk : bound.catalog.names r' name' = some k := hk
      simp only [hnames, Catalog.rebind, Catalog.assign, Function.update_apply] at hk
      split at hk
      · rename_i hr
        subst hr
        rw [Function.update_apply] at hk
        split at hk
        · rename_i hname
          exact .inr ⟨rfl, hname, (Option.some.inj hk).symm⟩
        · exact .inl hk
      · exact .inl hk
  have hserves : h.catalog.Serves r (.insert name v) (.flag ((h.names g.lock).contains name)) bound.catalog := by
    rw [hcatalog, hg, Table.contains, ← names_eq_get? hd]
    exact .insert name v hold
  refine .served _ bound ?_ rfl rfl rfl hrank hhoused hserves
  simp only [Hierarchy.bind, hd, Option.map_some, Option.getD_some]
  rfl

theorem Housed.inquire_remove (hh : h.Housed) (hd : h.registries[r]? = some d) (hg : g.lock = d.directory)
    (env : Environment) (name : String) : h.Inquired t g r (.remove name) (inquire env t h g r (.remove name)) := by
  have hdir := hh.directories r d hd
  let removed := h.setContent g.lock (.directory ((h.names g.lock).erase name))
  have hcatalog : removed.catalog = h.catalog.rebind r name none := by
    have hset := catalog_setDirectory (fun r' d' => hh.apart r r' d d' hd) hd hdir ((h.names d.directory).erase name)
    rw [Table.get?_erase_eq_update, ← names_eq_get? hd] at hset
    simp only [removed, hg]
    exact hset
  have hhoused : removed.Housed := by
    refine hh.keep rfl (fun l hl => ?_) (fun l _ => rank_setContent ..) (fun l w hw => ⟨w, ?_⟩) fun r' name' l hl => ?_
    · obtain ⟨names, hc⟩ := hl
      rw [IsDirectory, content?_setContent, hc]
      split
      · exact ⟨_, rfl⟩
      · exact ⟨names, rfl⟩
    · exact (congrFun (congrArg Catalog.value hcatalog) l).trans hw
    · have hnames := congrFun (congrFun (congrArg Catalog.names hcatalog) r') name'
      have hl : removed.catalog.names r' name' = some l := hl
      simp only [hnames, Catalog.rebind, Function.update_apply] at hl
      split at hl
      · rename_i hr
        subst hr
        rw [Function.update_apply] at hl
        split at hl
        · cases hl
        · exact hl
      · exact hl
  have hserves : h.catalog.Serves r (.remove name) (.bound ((h.names g.lock).get? name)) removed.catalog := by
    rw [hcatalog, hg, ← names_eq_get? hd]
    exact .remove name
  exact .served _ removed rfl rfl rfl rfl (fun l _ => rank_setContent ..) hhoused hserves

theorem Housed.inquire (hh : h.Housed) (hd : h.registries[r]? = some d) (hg : g.lock = d.directory)
    (hin : h.ceiling t = h.rank d.directory) (env : Environment) (i : Inquiry α) :
    h.Inquired t g r i (inquire env t h g r i) := by
  have hnames : (h.names g.lock).get? = h.catalog.names r := by rw [names_eq_get? hd, hg]
  cases i with
  | insert name v =>
    unfold Hierarchy.inquire
    cases env.table (h.names g.lock).size 1 with
    | ok => exact hh.inquire_insert hd hg name v
    | error f => exact hh.answers t g (.exhausted name v f)
  | remove name => exact hh.inquire_remove hd hg env name
  | entry name =>
    refine hh.answers t g ?_
    rw [hnames]
    exact .entry name
  | contains name =>
    refine hh.answers t g ?_
    rw [Table.contains, hnames]
    exact .contains name
  | len =>
    refine hh.answers t g ?_
    rw [Table.size_eq_ncard, hnames]
    exact .len
  | isEmpty =>
    refine hh.answers t g (.isEmpty ?_)
    rw [Table.size_eq_zero_iff, hnames]
  | get name => exact hh.openEntry hd hg hin rfl
  | update name => exact hh.openEntry hd hg hin rfl

end

end Interlock.Hierarchy
