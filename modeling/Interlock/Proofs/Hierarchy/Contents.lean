import Interlock.Proofs.Hierarchy.Shifts

/-!
# What locks protect

The content of a lock changes when an element is written or borrowed, and when a call binds or unbinds a name in
a directory; nothing else that a move does touches it. The changes are listed as `Edit`s, functions from the old
content to the new one.
-/

namespace Interlock.Hierarchy

variable {α : Type}

/-! ## Contents and their changes -/

def content? (h : Hierarchy α) (l : LockId) : Option (Content α) := (h.locks[l]?).map (·.content)

def Content.names : Content α → Directory
  | .element _ => {}
  | .directory names => names

def Content.element? : Content α → Option α
  | .element v => some v
  | .directory _ => none

inductive Edit (α : Type) where
  | element (f : α → α)
  | bind (name : String) (l : LockId)
  | unbind (name : String)

def Edit.apply : Edit α → Content α → Content α
  | .element f, .element v => .element (f v)
  | .element _, .directory names => .directory names
  | .bind name l, c => .directory (c.names.insert name l)
  | .unbind name, c => .directory (c.names.erase name)

/-- The change of a directory of this content by a call that has its lock, when `n` is the number of locks. -/
def Inquiry.edit? (env : Environment) (names : Directory) (n : Nat) : Inquiry α → Option (Edit α)
  | .insert name _ =>
    match env.table names.size 1 with
    | .ok () => some (.bind name n)
    | .error _ => none
  | .remove name => some (.unbind name)
  | _ => none

def rebinding? (h : Hierarchy α) (t : ThreadId) (env : Environment) (l : LockId) : Option (Edit α) :=
  match h.calls.current? t with
  | some (.waiting k _ (.inquire _ i)) => if k = l then i.edit? env (h.names l) h.locks.length else none
  | _ => none

/-- The change of what the lock protects by a move. -/
def edit? (h : Hierarchy α) (l : LockId) : Move α → Option (Edit α)
  | .step t env => h.rebinding? t env l
  | .write _ k v => if k = l then some (.element fun _ => v) else none
  | .borrow k v => if k = l then some (.element fun _ => v) else none
  | _ => none

/-! ## What becomes of contents -/

section Contents
variable {h h₁ h' : Hierarchy α} {t : ThreadId} {l k : LockId}

theorem content?_congr (hl : h'.locks = h.locks) : h'.content? l = h.content? l := by
  rw [content?, hl, content?]

theorem lt_of_content? {c : Content α} (hc : h.content? l = some c) : l < h.locks.length := by
  obtain ⟨x, hx, -⟩ := Option.map_eq_some_iff.mp hc
  exact (List.getElem?_eq_some_iff.mp hx).1

theorem holder?_of_content? (hc : h.content? l = none) : h.holder? l = none := by
  rw [holder?, Option.map_eq_none_iff.mp hc]
  rfl

theorem element?_eq (h : Hierarchy α) (l : LockId) : h.element? l = (h.content? l).bind Content.element? := by
  unfold element? content?
  cases h.locks[l]? with
  | none => rfl
  | some x =>
    obtain ⟨rank, c, mutex⟩ := x
    cases c <;> rfl

theorem element?_eq_some {v : α} (hv : h.element? l = some v) : h.content? l = some (.element v) := by
  obtain ⟨c, hc, hv⟩ := Option.bind_eq_some_iff.mp (element?_eq h l ▸ hv)
  cases c with
  | element w =>
    cases hv
    exact hc
  | directory _ => cases hv

theorem element?_of_content? {v : α} (hc : h.content? l = some (.element v)) : h.element? l = some v := by
  rw [element?_eq, hc]
  rfl

theorem names_eq (h : Hierarchy α) (l : LockId) : h.names l = ((h.content? l).map Content.names).getD {} := by
  unfold names content?
  cases h.locks[l]? with
  | none => rfl
  | some x =>
    obtain ⟨rank, c, mutex⟩ := x
    cases c <;> rfl

theorem content?_setContent (h : Hierarchy α) (l k : LockId) (c : Content α) :
    (h.setContent l c).content? k = if l = k then (h.content? k).map fun _ => c else h.content? k := by
  simp only [content?, setContent, List.getElem?_modify]
  split <;> cases h.locks[k]? <;> rfl

theorem content?_addLock (hk : k < h.locks.length) (r : Rank) (c : Content α) :
    (h.addLock r c).1.content? k = h.content? k := by
  simp only [content?, addLock, List.getElem?_append_left hk]

theorem content?_addLock_eq (h : Hierarchy α) (rank : Rank) (c : Content α) (l : LockId) :
    (h.addLock rank c).1.content? l = if l = h.locks.length then some c else h.content? l := by
  simp only [content?, addLock, List.getElem?_append]
  split
  · rename_i hlt
    rw [if_neg (Nat.ne_of_lt hlt)]
  · rename_i hge
    rw [List.getElem?_singleton]
    by_cases hl : l = h.locks.length
    · simp [hl]
    · have : l - h.locks.length ≠ 0 := fun he =>
        hl (Nat.le_antisymm (Nat.sub_eq_zero_iff_le.mp he) (Nat.le_of_not_lt hge))
      rw [if_neg this, if_neg hl, List.getElem?_eq_none (Nat.le_of_not_lt hge)]

theorem content?_length (h : Hierarchy α) : h.content? h.locks.length = none := by
  rw [content?, List.getElem?_eq_none (Nat.le_refl _)]
  rfl

theorem rank_addLock_new (h : Hierarchy α) (rank : Rank) (c : Content α) :
    (h.addLock rank c).1.rank h.locks.length = rank := by
  simp [Hierarchy.rank, addLock]

theorem rank_addLock_of_ne (h : Hierarchy α) (rank : Rank) (c : Content α) (hl : l ≠ h.locks.length) :
    (h.addLock rank c).1.rank l = h.rank l := by
  simp only [Hierarchy.rank, addLock, List.getElem?_append]
  split
  · rfl
  · rename_i hge
    have hlt : h.locks.length < l := Nat.lt_of_le_of_ne (Nat.le_of_not_lt hge) (Ne.symm hl)
    have hne : l - h.locks.length ≠ 0 := Nat.pos_iff_ne_zero.mp (Nat.sub_pos_of_lt hlt)
    rw [List.getElem?_singleton, if_neg hne, List.getElem?_eq_none (Nat.le_of_lt hlt)]

theorem content?_release (h : Hierarchy α) (t : ThreadId) (g : Guard) (b : Bool) (k : LockId) :
    (h.release t g b).content? k = h.content? k := by
  simp only [content?, release, setCeiling, setStanding, List.getElem?_modify]
  cases h.locks[k]? with
  | none => rfl
  | some x => by_cases hl : g.lock = k <;> simp [hl]

theorem admit?_contents {previous : Rank} {g : Guard} (ha : h.admit? t l previous = some (h₁, g)) :
    h₁.locks.length = h.locks.length ∧ l < h.locks.length ∧ h₁.registries = h.registries ∧
      ∀ k, h₁.content? k = h.content? k := by
  obtain ⟨k, hk, -, rfl, rfl⟩ := admit?_eq_some ha
  obtain ⟨hlt, rfl⟩ := List.getElem?_eq_some_iff.mp hk
  refine ⟨List.length_set, hlt, rfl, fun k => ?_⟩
  by_cases hk : l = k
  · subst hk
    simp [content?, setCeiling, setStanding, hlt]
  · simp [content?, setCeiling, setStanding, List.getElem?_set_ne hk]

theorem locks_deliver (h : Hierarchy α) (t : ThreadId) (g : Guard) (aim : Aim) :
    (h.deliver t g aim).locks = h.locks := by
  cases aim <;> rfl

theorem locks_approach (h : Hierarchy α) (t : ThreadId) (l : LockId) (p : Purpose α) (inHand : List Guard) :
    (h.approach t l p inHand).locks = h.locks := by
  unfold approach
  split <;> rfl

theorem locks_takeOut (t : ThreadId) : ∀ (slots : List String) (h : Hierarchy α),
    (h.takeOut t slots).1.locks = h.locks
  | [], _ => rfl
  | slot :: slots, h => locks_takeOut t slots (h.clearSlot t slot)

theorem locks_enter (h : Hierarchy α) (t : ThreadId) (r : Request α) : (h.enter t r).locks = h.locks := by
  cases r with
  | lock l aim => exact locks_approach ..
  | drop slots panic => exact locks_takeOut t slots h
  | registry r i =>
    simp only [enter]
    split
    · exact locks_approach ..
    · rfl

theorem locks_openEntry (h : Hierarchy α) (t : ThreadId) (g : Guard) (name : String) (callback : Bool) :
    (h.openEntry t g name callback).locks = h.locks := by
  unfold openEntry
  split
  · rfl
  · exact locks_approach ..

theorem content?_dropNext (h : Hierarchy α) (t : ThreadId) (gs : List Guard) (a : Answer α) (k : LockId) :
    (h.dropNext t gs a).content? k = h.content? k := by
  cases gs with
  | nil => rfl
  | cons g gs =>
    simp only [dropNext]
    split
    · exact content?_release h t g a.isPanic k
    · rfl

theorem content?_tryLock (h : Hierarchy α) (t : ThreadId) (l : LockId) (aim : Aim) (k : LockId) :
    (h.tryLock t l aim).1.content? k = h.content? k := by
  unfold tryLock
  split
  · rfl
  · split
    · rfl
    · rename_i h₁ g ha
      rw [content?_congr (locks_deliver ..)]
      exact (admit?_contents ha).2.2.2 k

theorem content?_unlock (h : Hierarchy α) (t : ThreadId) (slot : String) (g : Guard) (k : LockId) :
    (h.unlock t slot g).1.content? k = h.content? k := by
  unfold unlock
  split
  · exact content?_release h t g false k
  · rfl

theorem content?_unlockHandle (h : Hierarchy α) (t : ThreadId) (slot : String) (x : Handle) (k : LockId) :
    (h.unlockHandle t slot x).1.content? k = h.content? k := by
  unfold unlockHandle
  split
  · rfl
  · split
    · exact content?_release h t _ false k
    · rfl

theorem locks_detach (h : Hierarchy α) (t : ThreadId) (source target : String) (x : Handle) :
    (h.detach t source target x).1.locks = h.locks := by
  unfold detach
  split <;> rfl

theorem content?_attempt {d : Deed} {x : Hierarchy α × Outcome} (hd : h.attempt? t d = some x) (k : LockId) :
    x.1.content? k = h.content? k := by
  cases attempted hd with
  | tryLock _ => exact content?_tryLock ..
  | unlock _ => exact content?_unlock ..
  | unlockHandle _ => exact content?_unlockHandle ..
  | detach _ _ => exact content?_congr (locks_detach ..)
  | _ => rfl

theorem content?_bind {c : Content α} (hc : h.content? l = some c) (t : ThreadId) (g : Guard) (r : RegistryId)
    (name : String) (v : α) : (h.bind t g r name v).content? l =
      some (if g.lock = l then (Edit.bind name h.locks.length).apply c else c) := by
  unfold bind
  show (setContent (h.addLock _ (.element v)).1 g.lock _).content? l = _
  rw [content?_setContent, content?_addLock (lt_of_content? hc), hc]
  split
  · rename_i hl
    rw [hl, names_eq, hc]
    rfl
  · rfl

theorem content?_inquire {c : Content α} (hc : h.content? l = some c) (env : Environment) (t : ThreadId) (g : Guard)
    (r : RegistryId) (i : Inquiry α) : (inquire env t h g r i).content? l =
      some (if g.lock = l then (i.edit? env (h.names g.lock) h.locks.length).elim c (·.apply c) else c) := by
  have same {h' : Hierarchy α} (hl : h'.locks = h.locks) : h'.content? l = some (if g.lock = l then c else c) := by
    rw [ite_self, content?_congr hl, hc]
  cases i with
  | insert name v =>
    unfold inquire Inquiry.edit?
    cases env.table (h.names g.lock).size 1 with
    | ok => exact content?_bind hc ..
    | error f => exact same rfl
  | remove name =>
    unfold inquire
    show (setContent _ g.lock _).content? l = _
    rw [content?_setContent, hc]
    split
    · rename_i hl
      rw [hl, names_eq, hc]
      rfl
    · rfl
  | get name => exact same (locks_openEntry ..)
  | update name => exact same (locks_openEntry ..)
  | _ => exact same rfl

/-- A step changes content only as the call does that takes the lock of a directory. -/
theorem content_step {env : Environment} {c : Content α} (hs : h.step? env t = some h') (hc : h.content? l = some c) :
    h.rebinding? t env l = none ∧ h'.content? l = some c ∨
      ∃ e, h.rebinding? t env l = some e ∧ h'.content? l = some (e.apply c) ∧
        h.holder? l = none ∧ h'.holder? l = some t := by
  cases stepped hs with
  | @enters r hcall => exact .inl ⟨by simp [rebinding?, hcall], (content?_congr (locks_enter h t r)).trans hc⟩
  | @admitted k previous q h₁ g hcall ha =>
    obtain ⟨hlength, -, -, hcontent⟩ := admit?_contents ha
    have hc₁ := (hcontent l).trans hc
    cases q with
    | hold aim =>
      have he : (proceed env t h₁ g (.hold aim)).content? l = h₁.content? l :=
        content?_congr (locks_deliver h₁ t g aim)
      exact .inl ⟨by simp [rebinding?, hcall], he.trans hc₁⟩
    | visit directory callback =>
      have he : (proceed env t h₁ g (.visit directory callback)).content? l = h₁.content? l := by
        cases callback <;> rfl
      exact .inl ⟨by simp [rebinding?, hcall], he.trans hc₁⟩
    | inquire r i =>
      have hholder := (lands_proceed env ((admit?_keeps ha t).2.trans (phases_eq_cons hcall)) g).holder l
      obtain ⟨rfl, hfree, -, hholder₁, -⟩ := admit?_eq ha
      have hnames : h₁.names k = h.names k := by rw [names_eq, names_eq, hcontent]
      have he := content?_inquire hc₁ env t ⟨k, previous⟩ r i
      rw [hnames, hlength] at he
      by_cases hk : k = l
      · subst hk
        have hedit : h.rebinding? t env k = i.edit? env (h.names k) h.locks.length := by simp [rebinding?, hcall]
        rw [if_pos rfl] at he
        cases hi : i.edit? env (h.names k) h.locks.length with
        | none =>
          rw [hi] at hedit he
          exact .inl ⟨hedit, he⟩
        | some e =>
          rw [hi] at hedit he
          refine .inr ⟨e, hedit, he, hfree, ?_⟩
          rw [hholder, hholder₁, if_pos rfl]
      · rw [if_neg hk] at he
        exact .inl ⟨by simp [rebinding?, hcall, hk], he⟩
  | @drops gs a hcall => exact .inl ⟨by simp [rebinding?, hcall], (content?_dropNext h t gs a l).trans hc⟩

theorem content?_setElement {v w : α} {c : Content α} (hw : h.element? k = some w) (hc : h.content? l = some c) :
    (h.setContent k (.element v)).content? l =
      some ((if k = l then some (Edit.element fun _ => v) else none).elim c (·.apply c)) := by
  rw [content?_setContent]
  split
  · rename_i hk
    subst hk
    rw [element?_eq_some hw] at hc ⊢
    cases hc
    rfl
  · exact hc

/-- After a move a lock protects what it did before, but for the change by the move. -/
theorem content_move {m : Move α} {c : Content α} (hm : h.move? m = some h') (hc : h.content? l = some c) :
    h'.content? l = some ((h.edit? l m).elim c (·.apply c)) := by
  cases moved hm with
  | addLock rank v => exact (content?_addLock (lt_of_content? hc) rank _).trans hc
  | addRegistry d e => exact (content?_addLock (lt_of_content? hc) d (.directory {})).trans hc
  | step hs =>
    obtain ⟨hnone, he⟩ | ⟨e, hsome, he, -, -⟩ := content_step hs hc
    · rw [edit?, hnone, he]
      rfl
    · rw [edit?, hsome, he]
      rfl
  | perform _ hd => exact (content?_attempt hd l).trans hc
  | write _ hw => exact content?_setElement hw hc
  | borrow _ hw => exact content?_setElement hw hc
  | _ => exact hc

/-! ## Directories -/

def IsDirectory (h : Hierarchy α) (l : LockId) : Prop := ∃ names, h.content? l = some (.directory names)

theorem isDirectory_move {m : Move α} (hm : h.move? m = some h') (hl : h.IsDirectory l) : h'.IsDirectory l := by
  obtain ⟨names, hc⟩ := hl
  rw [IsDirectory, content_move hm hc]
  cases h.edit? l m with
  | none => exact ⟨names, rfl⟩
  | some e => cases e <;> exact ⟨_, rfl⟩

theorem not_isDirectory {v : α} (hv : h.element? l = some v) : ¬ h.IsDirectory l := by
  rintro ⟨names, hc⟩
  rw [element?_eq_some hv] at hc
  cases hc

end Contents

end Interlock.Hierarchy
