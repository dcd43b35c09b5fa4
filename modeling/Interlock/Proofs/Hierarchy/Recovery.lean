import Interlock.Proofs.Tables
import Interlock.Proofs.Hierarchy.Beside

/-!
# Guards that come back

A refused release hands the guard back with the reason. `recovered` is the state in which all such guards are plain
guards again. Nothing else that happens can tell the two apart, so from any run all refused deeds can be left out,
with the taking back of their guards (`run_recovered`).
-/

namespace Interlock.Hierarchy

variable {α : Type}

/-- A guard that came back, as the guard that it was. -/
def Holding.recovered : Holding → Holding
  | .refused _ g => .guard g
  | x => x

def Standing.recovered (s : Standing) : Standing := { s with slots := s.slots.map Holding.recovered }

def recovered (h : Hierarchy α) : Hierarchy α := { h with threads := h.threads.map Standing.recovered }

@[simp] theorem Holding.guard?_recovered (x : Holding) : x.recovered.guard? = x.guard? := by cases x <;> rfl

@[simp] theorem Holding.lock_recovered (x : Holding) : x.recovered.lock = x.lock := by cases x <;> rfl

section
variable {h h' h₁ : Hierarchy α} {t u : ThreadId} {l : LockId} {slot : String} {x : Holding}

/-! ## Looking -/

theorem standing_recovered (h : Hierarchy α) (t : ThreadId) : h.recovered.standing t = (h.standing t).recovered := by
  unfold standing recovered
  rw [Table.get?_map]
  cases h.threads.get? t <;> rfl

theorem ceiling_recovered (h : Hierarchy α) (t : ThreadId) : h.recovered.ceiling t = h.ceiling t := by
  rw [ceiling, standing_recovered]
  rfl

theorem slot?_recovered (h : Hierarchy α) (t : ThreadId) (slot : String) :
    h.recovered.slot? t slot = (h.slot? t slot).map Holding.recovered := by
  rw [slot?, standing_recovered]
  exact Table.get?_map ..

theorem guards_recovered (s : Standing) : s.recovered.guards = s.guards := by
  show (List.map _ (s.slots.entries.map _)).sum = (List.map _ s.slots.entries).sum
  rw [List.map_map]
  refine congrArg List.sum (List.map_congr_left fun e _ => ?_)
  simp [Holding.guards]

theorem owned_recovered (h : Hierarchy α) (t : ThreadId) : h.recovered.owned t = h.owned t := by
  rw [owned, standing_recovered, guards_recovered]
  rfl

theorem agrees_recovered (h : Hierarchy α) : Agrees h h.recovered :=
  ⟨⟨fun _ => rfl, fun _ => rfl, rfl⟩, ceiling_recovered h⟩

theorem accepts_recovered (h : Hierarchy α) (t : ThreadId) (l : LockId) (aim : Aim) :
    h.recovered.accepts t l aim = h.accepts t l aim := by
  cases aim with
  | guard slot => simp [accepts, slot?_recovered]
  | newHandle slot => simp [accepts, slot?_recovered]
  | handle slot =>
    simp only [accepts, slot?_recovered]
    cases h.slot? t slot with
    | none => rfl
    | some x => cases x <;> rfl

theorem admits_recovered (h : Hierarchy α) (t : ThreadId) (q : Request α) :
    h.recovered.admits t q = h.admits t q := by
  cases q with
  | lock l aim => rw [admits, accepts_recovered, admits]; rfl
  | drop slots panic => simp [admits, slot?_recovered]
  | registry r i => rfl

theorem isUsed_recovered (h : Hierarchy α) (l : LockId) : h.recovered.isUsed l = h.isUsed l := by
  have hkept : h.recovered.isKept l = h.isKept l := by
    rw [Bool.eq_iff_iff, isKept_iff, isKept_iff]
    simp [slot?_recovered]
  rw [isUsed, hkept]
  rfl

/-! ## Changing one part -/

theorem setStanding_recovered (h : Hierarchy α) (t : ThreadId) (s : Standing) :
    (h.setStanding t s).recovered = h.recovered.setStanding t s.recovered :=
  congrArg (fun ts => { h with threads := ts }) (Table.map_insert ..)

theorem setCeiling_recovered (h : Hierarchy α) (t : ThreadId) (r : Rank) :
    (h.setCeiling t r).recovered = h.recovered.setCeiling t r := by
  rw [setCeiling, setStanding_recovered, setCeiling, standing_recovered]
  rfl

theorem setSlot_recovered (h : Hierarchy α) (t : ThreadId) (slot : String) (x : Holding) :
    (h.setSlot t slot x).recovered = h.recovered.setSlot t slot x.recovered := by
  rw [setSlot, setStanding_recovered, setSlot, standing_recovered]
  simp [Standing.recovered, Table.map_insert]

theorem clearSlot_recovered (h : Hierarchy α) (t : ThreadId) (slot : String) :
    (h.clearSlot t slot).recovered = h.recovered.clearSlot t slot := by
  rw [clearSlot, setStanding_recovered, clearSlot, standing_recovered]
  simp [Standing.recovered, Table.map_erase]

theorem release_recovered (h : Hierarchy α) (t : ThreadId) (g : Guard) (b : Bool) :
    (h.release t g b).recovered = h.recovered.release t g b := setCeiling_recovered ..

theorem deliver_recovered (h : Hierarchy α) (t : ThreadId) (g : Guard) (aim : Aim) :
    (h.deliver t g aim).recovered = h.recovered.deliver t g aim := by
  cases aim <;> exact setSlot_recovered ..

theorem admit?_recovered (h : Hierarchy α) (t : ThreadId) (l : LockId) (previous : Rank) :
    h.recovered.admit? t l previous = (h.admit? t l previous).map fun x => (x.1.recovered, x.2) := by
  unfold admit?
  show (h.locks[l]?).bind _ = ((h.locks[l]?).bind _).map _
  cases h.locks[l]? with
  | none => rfl
  | some k =>
    cases hk : k.mutex.acquire? t with
    | none => simp only [Option.bind_some, hk]; rfl
    | some m =>
      simp only [Option.bind_some, hk]
      exact congrArg (fun s => some (s, _)) (setCeiling_recovered { h with locks := h.locks.set l _ } t k.rank).symm

theorem takeOut_recovered (t : ThreadId) : ∀ (slots : List String) (h : Hierarchy α),
    h.recovered.takeOut t slots = ((h.takeOut t slots).1.recovered, (h.takeOut t slots).2)
  | [], _ => rfl
  | slot :: slots, h => by
    have hguard : (h.recovered.slot? t slot).bind Holding.guard? = (h.slot? t slot).bind Holding.guard? := by
      rw [slot?_recovered]
      cases h.slot? t slot <;> simp
    simp only [takeOut, hguard, ← clearSlot_recovered, takeOut_recovered t slots]

theorem parallel_recovered (t : ThreadId) : Parallel t fun h h' : Hierarchy α => h' = h.recovered where
  contents hr := by
    subst hr
    exact (agrees_recovered _).toSameContents
  ceiling hr := by
    subst hr
    exact ceiling_recovered _ t
  into hr p := by
    subst hr
    rfl
  setContent hr l c := by
    subst hr
    rfl
  addLock hr r c := by
    subst hr
    rfl
  release hr g b := by
    subst hr
    exact (release_recovered ..).symm

/-! ## Calls -/

theorem enter_recovered (h : Hierarchy α) (t : ThreadId) (q : Request α) :
    h.recovered.enter t q = (h.enter t q).recovered := by
  have parallel := parallel_recovered (α := α) t
  cases q with
  | lock l aim => exact parallel.approach rfl l _ _
  | drop slots panic =>
    simp only [enter, takeOut_recovered]
    rfl
  | registry r i =>
    have hregs : h.recovered.registries = h.registries := rfl
    simp only [enter, hregs]
    cases h.registries[r]? with
    | some k => exact parallel.approach rfl _ _ _
    | none => rfl

theorem proceed_recovered (env : Environment) (t : ThreadId) (h : Hierarchy α) (g : Guard) (p : Purpose α) :
    h.recovered.proceed env t g p = (h.proceed env t g p).recovered := by
  have parallel := parallel_recovered (α := α) t
  cases p with
  | hold aim =>
    rw [proceed, proceed, ← deliver_recovered]
    rfl
  | inquire r i => exact parallel.inquire rfl env g r i
  | visit directory callback => exact parallel.visit rfl env g directory callback

theorem step?_recovered (h : Hierarchy α) (t : ThreadId) (env : Environment) :
    h.recovered.step? env t = (h.step? env t).map recovered := by
  unfold step?
  rw [show h.recovered.calls.current? t = h.calls.current? t from rfl]
  cases h.calls.current? t with
  | none => rfl
  | some p =>
    cases p with
    | entering q => exact congrArg some (enter_recovered h t q)
    | waiting l previous q =>
      simp only [admit?_recovered, Option.map_map]
      exact Option.map_congr fun x _ => proceed_recovered env t x.1 x.2 q
    | visiting e d => rfl
    | releasing gs a => exact congrArg some ((parallel_recovered t).dropNext rfl gs a)
    | returned a => rfl

end

/-! ## Deeds -/

/-- The deed is refused, or only takes back the guard of a refused release. -/
def Deed.isVoid : Deed → Outcome → Bool
  | .recover _, _ => true
  | _, .violated _ => true
  | _, _ => false

section
variable {h h' : Hierarchy α} {t : ThreadId} {l : LockId} {slot : String} {d : Deed} {o : Outcome}

/-- What is in a slot put there again. -/
theorem setSlot_self {x : Holding} (hx : h.slot? t slot = some x) : h.setSlot t slot x = h := by
  unfold slot? standing at hx
  cases ht : h.threads.get? t with
  | none =>
    rw [ht] at hx
    cases hx
  | some s =>
    rw [ht, Option.getD_some] at hx
    have hstanding : h.standing t = s := by rw [standing, ht, Option.getD_some]
    rw [setSlot, hstanding, Table.insert_self hx, setStanding, Table.insert_self ht]

theorem setSlot_setSlot (x y : Holding) : (h.setSlot t slot x).setSlot t slot y = h.setSlot t slot y := by
  simp only [setSlot, standing_setStanding, if_pos, Table.insert_insert]
  exact congrArg (fun ts => { h with threads := ts }) (Table.insert_insert ..)

theorem recovered_setSlot_refused {v : Violation} {g : Guard} (hs : h.slot? t slot = some (.guard g)) :
    (h.setSlot t slot (.refused v g)).recovered = h.recovered := by
  rw [setSlot_recovered]
  exact setSlot_self (by rw [slot?_recovered, hs]; rfl)

/-- What is refused, with which violation, and to which state it leads. -/
inductive RefusedDeed (h : Hierarchy α) (t : ThreadId) : Deed → Violation → Hierarchy α → Prop
  | tryLock {l : LockId} (aim : Aim) (above : h.ceiling t ≤ h.rank l) :
      RefusedDeed h t (.tryLock l aim) ⟨.acquire, h.rank l, h.ceiling t⟩ h
  /-- The guard comes back with the violation. -/
  | unlock {slot : String} {g : Guard} (hs : h.slot? t slot = some (.guard g)) (outer : h.ceiling t ≠ h.rank g.lock) :
      RefusedDeed h t (.unlock slot) ⟨.release, h.rank g.lock, h.ceiling t⟩
        (h.setSlot t slot (.refused ⟨.release, h.rank g.lock, h.ceiling t⟩ g))
  /-- The handle keeps its guard. -/
  | unlockHandle {slot : String} {k : Handle} {g : Guard} (hs : h.slot? t slot = some (.handle k))
      (hk : k.guard = some g) (outer : h.ceiling t ≠ h.rank g.lock) :
      RefusedDeed h t (.unlockHandle slot) ⟨.release, h.rank g.lock, h.ceiling t⟩ h

theorem refusedDeed {v : Violation} (hd : h.attempt? t d = some (h', .violated v)) : h.RefusedDeed t d v h' := by
  generalize hx : (h', Outcome.violated v) = x at hd
  cases attempted hd with
  | @tryLock l aim _ =>
    unfold tryLock at hx
    split at hx
    · rename_i hc
      cases hx
      obtain ⟨rfl, hle⟩ := checkAcquire_error hc
      exact .tryLock aim hle
    · split at hx <;> cases hx
  | @unlock slot g hs =>
    unfold unlock at hx
    split at hx
    · cases hx
    · rename_i hc
      cases hx
      obtain ⟨rfl, hne⟩ := checkRelease_error hc
      exact .unlock hs hne
  | @unlockHandle slot k hs =>
    unfold unlockHandle at hx
    split at hx
    · cases hx
    · rename_i g hk
      split at hx
      · cases hx
      · rename_i hc
        cases hx
        obtain ⟨rfl, hne⟩ := checkRelease_error hc
        exact .unlockHandle hs hk hne
  | detach _ _ =>
    unfold detach at hx
    split at hx <;> cases hx
  | _ => cases hx

theorem RefusedDeed.recovered {v : Violation} (hr : h.RefusedDeed t d v h') : h'.recovered = h.recovered := by
  cases hr with
  | tryLock _ _ => rfl
  | unlock hs _ => exact recovered_setSlot_refused hs
  | unlockHandle _ _ _ => rfl

theorem recovered_of_void (hd : h.attempt? t d = some (h', o)) (hv : d.isVoid o = true) :
    h'.recovered = h.recovered := by
  cases d with
  | recover slot =>
    simp only [attempt?] at hd
    split at hd
    · rename_i v g hs
      cases hd
      rw [setSlot_recovered]
      exact setSlot_self (by rw [slot?_recovered, hs]; rfl)
    · cases hd
  | _ =>
    cases o with
    | violated v => exact (refusedDeed hd).recovered
    | _ => cases hv

theorem tryLock_recovered (h : Hierarchy α) (t : ThreadId) (l : LockId) (aim : Aim) :
    h.recovered.tryLock t l aim = ((h.tryLock t l aim).1.recovered, (h.tryLock t l aim).2) := by
  unfold tryLock
  rw [(agrees_recovered h).checkAcquire]
  split
  · rfl
  · rw [admit?_recovered]
    cases h.admit? t l _ with
    | none => rfl
    | some x => simp [deliver_recovered]

theorem canMove_recovered (h : Hierarchy α) (t : ThreadId) (source target : String) :
    h.recovered.canMove t source target = h.canMove t source target := by
  simp [canMove, slot?_recovered]

/-- All other deeds are possible, and do the same, in the recovered state. -/
theorem attempt?_recovered (hd : h.attempt? t d = some (h', o)) (hv : d.isVoid o = false) :
    h.recovered.attempt? t d = some (h'.recovered, o) := by
  generalize hx : (h', o) = x at hd
  have agrees := agrees_recovered h
  cases attempted hd with
  | @tryLock l aim hacc =>
    simp only [attempt?, accepts_recovered, hacc, if_true, tryLock_recovered, ← hx]
  | @unlock slot g hs =>
    have hs' : h.recovered.slot? t slot = some (.guard g) := by rw [slot?_recovered, hs]; rfl
    simp only [attempt?, hs', unlock, agrees.checkRelease] at hx ⊢
    cases hc : h.checkRelease t g with
    | ok =>
      rw [hc] at hx
      cases hx
      simp only [clearSlot_recovered, release_recovered]
    | error v =>
      rw [hc] at hx
      cases hx
      cases hv
  | recover _ => cases hv
  | @unlockHandle slot k hs =>
    have hs' : h.recovered.slot? t slot = some (.handle k) := by rw [slot?_recovered, hs]; rfl
    simp only [attempt?, hs', unlockHandle, agrees.checkRelease] at hx ⊢
    cases hk : k.guard with
    | none =>
      rw [hk] at hx
      cases hx
      rfl
    | some g =>
      rw [hk] at hx
      cases hc : h.checkRelease t g with
      | ok =>
        simp only [hc] at hx ⊢
        cases hx
        simp only [setSlot_recovered, release_recovered, Holding.recovered]
      | error v =>
        simp only [hc] at hx
        cases hx
        cases hv
  | @defer l slot hs =>
    cases hx
    have hs' : h.recovered.slot? t slot = none := by rw [slot?_recovered, hs]; rfl
    simp only [attempt?, hs', setSlot_recovered, Holding.recovered]
  | @adopt source target g hs hmove =>
    cases hx
    have hs' : h.recovered.slot? t source = some (.guard g) := by rw [slot?_recovered, hs]; rfl
    simp only [attempt?, hs', canMove_recovered, hmove, setSlot_recovered, clearSlot_recovered, Holding.recovered]
  | @detach source target k hs hmove =>
    have hs' : h.recovered.slot? t source = some (.handle k) := by rw [slot?_recovered, hs]; rfl
    simp only [attempt?, hs', canMove_recovered, hmove, detach] at hx ⊢
    cases hk : k.guard with
    | none =>
      rw [hk] at hx
      cases hx
      simp only [clearSlot_recovered]
    | some g =>
      rw [hk] at hx
      cases hx
      simp only [setSlot_recovered, clearSlot_recovered, Holding.recovered]

end

/-! ## Runs -/

/-- The move is a deed that is refused, or that takes back the guard of a refused release. -/
def isVoid (h : Hierarchy α) : Move α → Bool
  | .perform t d => (h.perform? t d).any fun x => d.isVoid x.2
  | _ => false

/-- The moves of a run without the void ones. -/
def effective (h : Hierarchy α) : List (Move α) → List (Move α)
  | [] => []
  | m :: ms =>
    let rest := ((h.move? m).map fun h => h.effective ms).getD []
    if h.isVoid m then rest else m :: rest

section
variable {h h' : Hierarchy α} {m : Move α}

theorem recovered_of_isVoid (hm : h.move? m = some h') (hv : h.isVoid m = true) : h'.recovered = h.recovered := by
  cases m with
  | perform t d =>
    simp only [move?, isVoid, perform?] at hm hv
    split at hm
    · rename_i hfree
      obtain ⟨⟨h₁, o⟩, hd, rfl⟩ := Option.map_eq_some_iff.mp hm
      rw [if_pos hfree, hd, Option.any_some] at hv
      exact recovered_of_void hd hv
    · cases hm
  | _ => cases hv

theorem move?_recovered (hm : h.move? m = some h') (hv : h.isVoid m = false) :
    h.recovered.move? m = some h'.recovered := by
  cases m with
  | addLock rank v =>
    cases hm
    rfl
  | addRegistry d e =>
    cases hm
    rfl
  | start t q =>
    simp only [move?, start?, admits_recovered] at hm ⊢
    rw [show h.recovered.isFree t = h.isFree t from rfl]
    split at hm
    · rename_i hmay
      cases hm
      rw [if_pos hmay]
      rfl
    · cases hm
  | step t env =>
    have hs : h.step? env t = some h' := hm
    rw [move?, step?_recovered, hs, Option.map_some]
  | finish t e =>
    simp only [move?, end?] at hm ⊢
    rw [show h.recovered.calls.current? t = h.calls.current? t from rfl]
    split at hm
    · cases hm
      rfl
    · cases hm
  | collect t =>
    simp only [move?, answer?] at hm ⊢
    rw [show h.recovered.calls.current? t = h.calls.current? t from rfl]
    split at hm
    · cases hm
      rfl
    · cases hm
  | perform t d =>
    simp only [move?, isVoid, perform?] at hm hv ⊢
    rw [show h.recovered.isFree t = h.isFree t from rfl]
    split at hm
    · rename_i hfree
      obtain ⟨⟨h₁, o⟩, hd, rfl⟩ := Option.map_eq_some_iff.mp hm
      rw [if_pos hfree, hd, Option.any_some] at hv
      rw [if_pos hfree, attempt?_recovered hd hv]
      rfl
    · cases hm
  | leak t slot =>
    simp only [move?] at hm ⊢
    rw [show h.recovered.isFree t = h.isFree t from rfl]
    split at hm
    · rename_i hfree
      cases hm
      rw [if_pos hfree, clearSlot_recovered]
    · cases hm
  | write t l v =>
    simp only [move?, owned_recovered] at hm ⊢
    rw [show h.recovered.isFree t = h.isFree t from rfl]
    split at hm
    · rename_i hmay
      obtain ⟨w, hw, rfl⟩ := Option.map_eq_some_iff.mp hm
      have hw : h.recovered.element? l = some w := hw
      rw [if_pos hmay, setElement?, hw]
      rfl
    · cases hm
  | borrow l v =>
    simp only [move?, isUsed_recovered] at hm ⊢
    split at hm
    · cases hm
    · rename_i hunused
      obtain ⟨w, hw, rfl⟩ := Option.map_eq_some_iff.mp hm
      have hw : h.recovered.element? l = some w := hw
      rw [if_neg hunused, setElement?, hw]
      rfl

/-- Without the void moves a run goes the same way. -/
theorem run_recovered {ms : List (Move α)} (hms : run? move? h ms = some h') :
    run? move? h.recovered (h.effective ms) = some h'.recovered := by
  induction ms generalizing h with
  | nil =>
    cases hms
    rfl
  | cons m ms ih =>
    obtain ⟨h₁, hm, hms⟩ := Option.bind_eq_some_iff.mp hms
    have hrest := ih hms
    simp only [effective, hm, Option.map_some, Option.getD_some]
    cases hv : h.isVoid m with
    | true =>
      rw [if_pos rfl, ← recovered_of_isVoid hm hv]
      exact hrest
    | false =>
      rw [if_neg Bool.false_ne_true, run?, move?_recovered hm hv, Option.bind_some]
      exact hrest

/-- No guard waits to be taken back. -/
def isPlain (h : Hierarchy α) : Bool :=
  h.threads.toList.all fun (_, s) => s.slots.toList.all fun (_, x) => x.recovered = x

theorem recovered_of_isPlain (hp : h.isPlain = true) : h.recovered = h := by
  simp only [isPlain, List.all_eq_true, decide_eq_true_eq] at hp
  have hthreads : h.threads.map Standing.recovered = h.threads := by
    refine Table.map_id_of fun t s ht => ?_
    have hslots : s.slots.map Holding.recovered = s.slots :=
      Table.map_id_of fun slot x hx => hp (t, s) (h.threads.mem_toList.mpr ht) (slot, x) (s.slots.mem_toList.mpr hx)
    rw [Standing.recovered, hslots]
  rw [recovered, hthreads]

end

end Interlock.Hierarchy
