import Interlock.Proofs.Hierarchy.Ledger
import Interlock.Proofs.Hierarchy.Waiting

/-!
# Locks whose guard is gone

A guard that is dropped out of order releases nothing, and then nobody has a guard of its lock any more. So the lock
is stuck: its tenant stays the same for good (`Ledger.Reachable.stuck_leads`), and the tenant's ceiling can never get
above it. What the thread held further out is kept with it; what it holds further in, and whatever it takes later, it
can still release.
-/

namespace Interlock.Hierarchy

variable {α : Type}

/-- The next step of the thread is to drop this guard, and that is out of order. -/
def RefusesDrop (h : Hierarchy α) (t : ThreadId) (x : Guard) : Prop :=
  ∃ rest a v, h.calls.current? t = some (.releasing (x :: rest) a) ∧ h.checkRelease t x = .error v

/-! ## The drop -/

section
variable {h h' : Hierarchy α} {t u : ThreadId} {x y : Guard} {l k : LockId} {env : Environment}

theorem RefusesDrop.refusedDrop (hd : h.RefusesDrop t x) : h.lost (.step t env) t = {x} := by
  obtain ⟨rest, a, v, hc, hv⟩ := hd
  simp only [lost, if_pos, hc, Hierarchy.refusedDrop, hv]

/-- A drop out of order changes only where the call stands. -/
theorem RefusesDrop.step (hd : h.RefusesDrop t x) (hs : h.step? env t = some h') :
    h'.locks = h.locks ∧ h'.threads = h.threads := by
  obtain ⟨rest, a, v, hc, hv⟩ := hd
  simp only [step?, hc, dropNext, hv, Option.some.injEq] at hs
  subst hs
  exact ⟨rfl, rfl⟩

theorem RefusesDrop.stuck (hd : h.RefusesDrop t x) (hr : h.Reachable) (hs : h.step? env t = some h') :
    h'.tenancy x.lock = .stuck t ∧ h.Logs (.step t env) x.lock [] [.abandoned t .dropped] [] := by
  have hlost : x.lock ∈ (h.lost (.step t env) t).map Guard.lock := by simp [hd.refusedDrop]
  have habandoned : h.abandonments (.step t env) x.lock = [.abandoned t .dropped] := by
    simp only [abandonments, Move.thread?, if_pos hlost, Move.cause]
  cases hr.passing (m := .step t env) hs x.lock with
  | same _ _ logs =>
    rw [logs.abandonments] at habandoned
    cases habandoned
  | taken _ _ _ _ _ logs =>
    rw [logs.abandonments] at habandoned
    cases habandoned
  | abandoned u _ _ _ tenancy' logs =>
    have hsame := habandoned
    rw [logs.abandonments] at hsame
    cases hsame
    exact ⟨tenancy', logs⟩
  | released _ _ _ _ logs =>
    rw [logs.abandonments] at habandoned
    cases habandoned

end

/-! ## Stuck for good -/

/-- Who has a lock to himself changes elements only. -/
theorem element_of_borrowed {h h' : Hierarchy α} {w : Work α} {m : Move α} {l : LockId} {e : Edit α}
    (hw : w.move? h = some m) (he : .borrowed e ∈ h.entries w m h' l) : ∃ f, e = .element f := by
  have nobody {x : Entry α} (hx : x ∈ h.arrivals m l ∨ x ∈ h.abandonments m l ∨ x ∈ h.departures m l) :
      x ≠ .borrowed e := by
    rintro rfl
    simp only [arrivals, abandonments, departures] at hx
    grind
  unfold entries at he
  split at he
  · obtain ⟨c, -, hc⟩ := List.mem_map.mp he
    cases hc
  · simp only [List.mem_append, or_assoc] at he
    rcases he with he | he | he | he
    · exact absurd rfl (nobody (.inl he))
    · unfold changes at he
      split at he
      · cases he
      · simp at he
      · rename_i e' hedit hthread
        obtain rfl := Entry.borrowed.inj (List.mem_singleton.mp he)
        cases w with
        | move m' =>
          cases hw
          cases m with
          | borrow k v =>
            simp only [Work.edit?, edit?] at hedit
            split at hedit
            · exact ⟨_, (Option.some.inj hedit).symm⟩
            · cases hedit
          | addLock rank v => cases hedit
          | addRegistry d e => cases hedit
          | _ => cases hthread
        | modify t k f =>
          obtain ⟨v, -, rfl⟩ := Option.map_eq_some_iff.mp hw
          cases hthread
        | amend k f =>
          simp only [Work.edit?] at hedit
          split at hedit
          · exact ⟨f, (Option.some.inj hedit).symm⟩
          · cases hedit
    · exact absurd rfl (nobody (.inr (.inl he)))
    · exact absurd rfl (nobody (.inr (.inr he)))

/-- The content after an element has been changed so, one change after another. -/
def Content.after (c : Content α) (fs : List (α → α)) : Content α := fs.foldl (fun c f => (Edit.element f).apply c) c

theorem Content.after_element (v : α) (fs : List (α → α)) :
    (Content.element v).after fs = .element (fs.foldl (fun v f => f v) v) := by
  induction fs generalizing v with
  | nil => rfl
  | cons f fs ih => exact ih (f v)

/-- The log of a stuck lock goes on with what is changed by somebody who has the lock to himself, and nothing else. -/
theorem borrowed_of_stuck {c : Content α} {t : ThreadId} {es : List (Entry α)} {v : Option (Content α × Tenancy)}
    (h : Trace Tenure (some (c, .stuck t)) es v) (he : ∀ e, .borrowed e ∈ es → ∃ f, e = .element f) :
    ∃ fs : List (α → α), es = fs.map (fun f => .borrowed (.element f)) ∧ v = some (c.after fs, .stuck t) := by
  induction es generalizing c with
  | nil => exact ⟨[], rfl, (show _ = v from h).symm⟩
  | cons e es ih =>
    obtain ⟨v₁, hv₁, hes⟩ := h
    cases hv₁ with
    | borrowed _ e _ =>
      obtain ⟨f, rfl⟩ := he e List.mem_cons_self
      obtain ⟨fs, rfl, hv⟩ := ih hes fun e' he' => he e' (List.mem_cons_of_mem _ he')
      exact ⟨f :: fs, rfl, hv⟩

theorem Ledger.Reachable.leads {g g' : Ledger α} (hg : g.Reachable) (hl : Leads Ledger.next? g g') : g'.Reachable :=
  Leads.trans hg hl

/-- A stuck lock stays stuck, and what it protects stays but for what is borrowed. -/
theorem Ledger.Reachable.stuck_leads {g g' : Ledger α} (hg : g.Reachable) {c : Content α} {t : ThreadId} {l : LockId}
    (hs : g.state.account l = some (c, .stuck t)) (hl : Leads Ledger.next? g g') : ∃ fs : List (α → α),
      g'.log l = g.log l ++ fs.map (fun f => .borrowed (.element f)) ∧
        g'.state.account l = some (c.after fs, .stuck t) := by
  induction hl with
  | refl => exact ⟨[], by simp, hs⟩
  | tail w hl hn ih =>
    obtain ⟨fs, hlog, hstuck⟩ := ih
    obtain ⟨m, h', hw, hm, rfl⟩ := next?_eq hn
    have htrace := (hg.leads hl).state.tenure_move hw hm l
    rw [hstuck] at htrace
    obtain ⟨fs', hentries, haccount⟩ := borrowed_of_stuck htrace fun e => element_of_borrowed hw
    refine ⟨fs ++ fs', ?_, ?_⟩
    · rw [List.map_append, ← List.append_assoc, ← hlog, ← hentries]
      rfl
    · rw [Content.after, List.foldl_append]
      exact haccount

theorem account_eq_some {h : Hierarchy α} {l : LockId} {c : Content α} {k : Tenancy} :
    h.account l = some (c, k) ↔ h.content? l = some c ∧ h.tenancy l = k := by
  rw [account, Option.map_eq_some_iff]
  constructor
  · rintro ⟨c', hc, he⟩
    cases he
    exact ⟨hc, rfl⟩
  · rintro ⟨hc, rfl⟩
    exact ⟨c, hc, rfl⟩

theorem content?_of_holder? {h : Hierarchy α} {l : LockId} {t : ThreadId} (hl : h.holder? l = some t) :
    ∃ c, h.content? l = some c := by
  cases hc : h.content? l with
  | none =>
    rw [holder?_of_content? hc] at hl
    cases hl
  | some c => exact ⟨c, rfl⟩

section
variable {h h' : Hierarchy α} {t u : ThreadId} {x : Guard} {l k : LockId} {m : Move α}

/-- A thread has a lock for good if it has it further out than one that is stuck. -/
theorem Reachable.keeps_outer (hr : h.Reachable) (hm : h.move? m = some h') (hl : h.holder? l = some t)
    (hk : h.holder? k = some t) (hlt : h.rank l < h.rank k) : h'.holder? k = some t := by
  obtain ⟨u, transfer, -⟩ := hr.transfer hm
  cases transfer with
  | keep _ hq => rw [hq.holder, hk]
  | take j h₁ g _ ha _ _ hq =>
    obtain ⟨-, hfree, -, hholder, -⟩ := admit?_eq ha
    have hne : j ≠ k := by
      rintro rfl
      rw [hfree] at hk
      cases hk
    rw [hq.holder, hholder, if_neg hne, hk]
  | free y b _ hc _ hq =>
    have hne : y.lock ≠ k := by
      rintro rfl
      have howned := hq.owned_released
      have hy : y ∈ h.owned u := by simp [← howned]
      rw [hr.holder hy] at hk
      cases hk
      -- the guard is in order only at the ceiling, and that is not above the stuck lock
      have hceiling := (hr.ceiling_le_rank hl).1
      rw [hc] at hceiling
      exact absurd hlt (Nat.not_lt.mpr hceiling)
    rw [hq.holder, holder?_release, if_neg hne, hk]

theorem Reachable.rank_move (hr : h.Reachable) (hm : h.move? m = some h') (hl : h.holder? l = some t) :
    h'.rank l = h.rank l := by
  obtain ⟨u, transfer, -⟩ := hr.transfer hm
  exact transfer.shift.rank (hr.ceiling_le_rank hl).2

theorem Reachable.stuck_move (hr : h.Reachable) (hm : h.move? m = some h') (hs : h.tenancy l = .stuck t) :
    h'.tenancy l = .stuck t := by
  cases hr.passing hm l with
  | same _ tenancy _ => exact tenancy.trans hs
  | taken u _ before _ _ _ =>
    rw [(of_tenancy_stuck hs).1] at before
    cases before
  | abandoned u _ _ tenancy _ _ =>
    rw [hs] at tenancy
    cases tenancy
  | released u _ _ tenancy _ =>
    rw [hs] at tenancy
    cases tenancy

/-- A call that waits for a lock waits for it as long as it is held. -/
theorem Reachable.waits_move (hr : h.Reachable) (hm : h.move? m = some h') (hl : h.holder? l = some t)
    (hw : h.WaitsAt u l) : h'.WaitsAt u l := by
  obtain ⟨previous, p, hw⟩ := hw
  by_cases hu : m.thread? = some u
  · have hnone : h.admit? u l previous = none := by
      cases ha : h.admit? u l previous with
      | none => rfl
      | some y =>
        have hfree := (admit?_eq ha).2.1
        rw [hl] at hfree
        cases hfree
    have hbusy : h.isFree u = false := by simp [isFree, hw]
    cases moved hm with
    | start hfree _ =>
      cases hu
      rw [hbusy] at hfree
      cases hfree
    | step hs =>
      cases hu
      simp [step?, hw, hnone] at hs
    | finish e hc =>
      cases hu
      rw [hw] at hc
      cases hc
    | collect hc =>
      cases hu
      rw [hw] at hc
      cases hc
    | perform hfree _ =>
      cases hu
      rw [hbusy] at hfree
      cases hfree
    | leak hfree =>
      cases hu
      rw [hbusy] at hfree
      cases hfree
    | write _ _ => exact ⟨previous, p, hw⟩
    | _ => cases hu
  · refine ⟨previous, p, ?_⟩
    rw [← Calls.head?_of, ← phases, (hr.others hm hu).2.2, phases, Calls.head?_of, hw]

end

/-! ## What a thread can still do -/

/-- The deed gives up the guard where the thread has it. -/
def ReleasedBy (h : Hierarchy α) (t : ThreadId) (x : Guard) : Deed → Prop
  | .unlock slot => h.slot? t slot = some (.guard x)
  | .unlockHandle slot => ∃ k, h.slot? t slot = some (.handle k) ∧ k.guard = some x
  | _ => False

/-- Do the deeds one after another. -/
def performAll? (h : Hierarchy α) (t : ThreadId) : List Deed → Option (Hierarchy α × List Outcome)
  | [] => some (h, [])
  | d :: ds => do
    let (h, o) ← h.perform? t d
    let (h, os) ← h.performAll? t ds
    some (h, o :: os)

/-- A lock has been released in order, and the guards in other slots are where they were. -/
structure Released (t : ThreadId) (x : Guard) (h h' : Hierarchy α) : Prop where
  ceiling : h'.ceiling t = x.previous
  holder : ∀ k, h'.holder? k = if x.lock = k then none else h.holder? k
  rank : ∀ k, h'.rank k = h.rank k
  free : h'.isFree t = h.isFree t
  others : ∀ y d, y ≠ x → h.ReleasedBy t y d → h'.ReleasedBy t y d

section
variable {h h' h₁ : Hierarchy α} {t : ThreadId} {x : Guard} {l k : LockId} {slot : String} {d : Deed}

theorem isFree_congr (hc : h'.calls = h.calls) (t : ThreadId) : h'.isFree t = h.isFree t := by
  rw [isFree, hc, isFree]

theorem checkRelease_of_eq (hc : h.ceiling t = h.rank x.lock) : h.checkRelease t x = .ok () := if_pos hc

/-- What releases a guard does not depend on other slots. -/
theorem ReleasedBy.congr (hd : h.ReleasedBy t x d)
    (hs : ∀ slot y, h.slot? t slot = some y → y.guard? = some x → h'.slot? t slot = some y) : h'.ReleasedBy t x d := by
  cases d with
  | unlock slot => exact hs slot _ hd rfl
  | unlockHandle slot =>
    obtain ⟨k, hslot, hk⟩ := hd
    exact ⟨k, hs slot _ hslot hk, hk⟩
  | _ => exact hd.elim

/-- A guard that is in order is released by the deed that gives it up. -/
theorem ReleasedBy.perform (hd : h.ReleasedBy t x d) (hfree : h.isFree t = true) (hc : h.ceiling t = h.rank x.lock) :
    ∃ h', h.perform? t d = some (h', .done) ∧ Released t x h h' := by
  have hok := checkRelease_of_eq hc
  have released {h' : Hierarchy α} (hstanding : h'.ceiling t = (h.release t x false).ceiling t)
      (hlocks : h'.locks = (h.release t x false).locks) (hcalls : h'.calls = h.calls)
      (hslots : ∀ slot y, h.slot? t slot = some y → y.guard? ≠ some x → h'.slot? t slot = some y) :
      Released t x h h' := by
    refine ⟨?_, fun k => ?_, fun k => ?_, isFree_congr hcalls t, fun y d hne hy => ?_⟩
    · rw [hstanding, ceiling_release, if_pos rfl]
    · rw [holder?, hlocks, ← holder?, holder?_release]
    · rw [rank, hlocks, ← rank, rank_release]
    · refine hy.congr fun slot z hz hguard => hslots slot z hz ?_
      rw [hguard]
      exact fun he => hne (Option.some.inj he)
  have kept (slot target : String) {y z : Holding} (hy : h.slot? t slot = some y) (hx : y.guard? = some x)
      (hz : h.slot? t target = some z) (hne : z.guard? ≠ some x) : slot ≠ target := by
    rintro rfl
    rw [hy] at hz
    cases hz
    exact hne hx
  cases d with
  | unlock slot =>
    have hslot : h.slot? t slot = some (.guard x) := hd
    refine ⟨(h.release t x false).clearSlot t slot, ?_, released (ceiling_clearSlot ..) rfl rfl fun target z hz hne => ?_⟩
    · simp only [perform?, hfree, if_pos, attempt?, hslot, unlock, hok]
    · rw [slot?_clearSlot, if_neg (kept slot target hslot rfl hz hne), slot?, slots_release]
      exact hz
  | unlockHandle slot =>
    obtain ⟨k, hslot, hk⟩ := hd
    refine ⟨(h.release t x false).setSlot t slot (.handle ⟨k.lock, .unlocked, none⟩), ?_,
      released (ceiling_setSlot ..) rfl rfl fun target z hz hne => ?_⟩
    · simp only [perform?, hfree, if_pos, attempt?, hslot, unlockHandle, hk, hok]
    · rw [slot?_setSlot, if_neg (kept slot target hslot hk hz hne), slot?, slots_release]
      exact hz
  | _ => exact hd.elim

/-- Guards that lie innermost can be released one after another, and the ceiling is then that of the rest. -/
theorem Linked.releases {inner outer : List Guard} {ds : List Deed} (hl : h.Linked (h.ceiling t) (inner ++ outer))
    (hfree : h.isFree t = true) (hds : List.Forall₂ (h.ReleasedBy t) inner ds) :
    ∃ h', h.performAll? t ds = some (h', ds.map fun _ => .done) ∧ h'.ceiling t = h.innermost outer ∧
      ∀ k, h'.holder? k = if k ∈ inner.map Guard.lock then none else h.holder? k := by
  induction inner generalizing h ds with
  | nil =>
    cases hds
    exact ⟨h, rfl, hl.eq_innermost, fun k => rfl⟩
  | cons x inner ih =>
    cases hds with
    | @cons _ d _ ds hd hds =>
      have hnodup := hl.nodup
      obtain ⟨hc, -, hl⟩ := hl
      obtain ⟨h₁, hperform, hreleased⟩ := hd.perform hfree hc
      have hne : ∀ y ∈ inner, y ≠ x := by
        rintro y hy rfl
        rw [List.cons_append, List.map_cons, List.nodup_cons] at hnodup
        exact hnodup.1 (List.mem_map_of_mem (List.mem_append_left _ hy))
      have hl₁ : h₁.Linked (h₁.ceiling t) (inner ++ outer) := by
        rw [hreleased.ceiling]
        exact Linked.congr (fun k _ => hreleased.rank k) hl
      have hds₁ : List.Forall₂ (h₁.ReleasedBy t) inner ds :=
        ((List.forall₂_and_left _ _).mpr ⟨hne, hds⟩).imp fun y d hy => hreleased.others y d hy.1 hy.2
      obtain ⟨h', hall, hceiling, hholder⟩ := ih hl₁ (hreleased.free.trans hfree) hds₁
      refine ⟨h', ?_, ?_, fun k => ?_⟩
      · simp [performAll?, hperform, hall]
      · rw [hceiling]
        cases outer with
        | nil => rfl
        | cons y outer => exact hreleased.rank y.lock
      · rw [hholder, hreleased.holder, List.map_cons]
        by_cases hk : k ∈ inner.map Guard.lock
        · simp [hk]
        · by_cases hx : x.lock = k
          · simp [hx]
          · simp [hk, hx, Ne.symm hx]

/-- The thread has the lock, and can release it again from the slot. -/
def Returnable (t : ThreadId) (k : LockId) (slot : String) (h h₁ : Hierarchy α) : Prop :=
  h₁.holder? k = some t ∧
    ∃ h₂, h₁.perform? t (.unlock slot) = some (h₂, .done) ∧ h₂.holder? k = none ∧ h₂.ceiling t = h.ceiling t

/-- After an admission to a free lock and the delivery of its guard to a slot. -/
theorem returnable_of_admitted (ha : h.admit? t k (h.ceiling t) = some (h₁, ⟨k, h.ceiling t⟩))
    (hlocks : h'.locks = h₁.locks) (hthreads : h'.threads = (h₁.deliver t ⟨k, h.ceiling t⟩ (.guard slot)).threads)
    (hfree : h'.isFree t = true) : Returnable t k slot h h' := by
  obtain ⟨-, -, hrank, hholder, hceiling, -, -⟩ := admit?_eq ha
  have hholder' (j : LockId) : h'.holder? j = if k = j then some t else h.holder? j := by
    rw [← hholder, holder?, hlocks, holder?]
  have hstanding : h'.standing t = (h₁.deliver t ⟨k, h.ceiling t⟩ (.guard slot)).standing t := by
    rw [standing, hthreads, standing]
  have hslot : h'.slot? t slot = some (.guard ⟨k, h.ceiling t⟩) := by
    rw [slot?, hstanding, deliver, ← slot?, slot?_setSlot, if_pos rfl]
  have hrank' : h'.rank k = h.rank k := by rw [← hrank, rank, hlocks, rank]
  have hin : h'.ceiling t = h'.rank k := by
    rw [ceiling, hstanding, deliver, ← ceiling, ceiling_setSlot, hceiling, if_pos rfl, hrank']
  obtain ⟨h₂, hperform, hreleased⟩ := ReleasedBy.perform (d := .unlock slot) hslot hfree hin
  refine ⟨by simp [hholder'], h₂, hperform, ?_, hreleased.ceiling⟩
  simp [hreleased.holder]

/-- A thread can try a free lock below its ceiling with success, and release it again. -/
theorem tryLock_returnable (hfree : h.isFree t = true) (hslot : h.slot? t slot = none) (hlt : k < h.locks.length)
    (hnone : h.holder? k = none) (hrank : h.rank k < h.ceiling t) :
    ∃ h₁, h.perform? t (.tryLock k (.guard slot)) = some (h₁, .flag true) ∧ Returnable t k slot h h₁ := by
  obtain ⟨h₁, ha⟩ := admit?_of_free t (h.ceiling t) hlt hnone
  have hcheck : h.checkAcquire t k = .ok (h.ceiling t) := if_neg (Nat.not_le_of_lt hrank)
  refine ⟨h₁.deliver t ⟨k, h.ceiling t⟩ (.guard slot), ?_, ?_⟩
  · simp only [perform?, hfree, if_pos, attempt?, accepts, hslot, Option.isNone_none, tryLock, hcheck, ha]
  · obtain ⟨-, -, -, -, -, -, hcalls⟩ := admit?_eq ha
    exact returnable_of_admitted ha rfl rfl ((isFree_congr hcalls t).trans hfree)

/-- A call that takes a free lock below the ceiling of its thread comes to its end by itself. -/
theorem lock_returnable (hfree : h.isFree t = true) (hslot : h.slot? t slot = none) (hlt : k < h.locks.length)
    (hnone : h.holder? k = none) (hrank : h.rank k < h.ceiling t) :
    ∃ h₁, run? move? h (Move.taking t k slot) = some h₁ ∧ Returnable t k slot h h₁ := by
  let asking : Hierarchy α := { h with calls := h.calls.start t (.entering (.lock k (.guard slot))) }
  let waiting := asking.into t (.waiting k (h.ceiling t) (.hold (.guard slot)))
  have hstart : h.move? (.start t (.lock k (.guard slot))) = some asking := by
    simp [move?, start?, hfree, admits, hlt, accepts, hslot, asking]
  have hwait : asking.move? (.step t default) = some waiting := by
    have hcheck : asking.checkAcquire t k = .ok (h.ceiling t) := if_neg (Nat.not_le_of_lt hrank)
    have hcurrent : asking.calls.current? t = some (.entering (.lock k (.guard slot))) := by simp [asking]
    simp [move?, step?, hcurrent, enter, approach, hcheck, waiting]
  obtain ⟨h₁, ha⟩ := admit?_of_free (h := waiting) t (h.ceiling t) hlt hnone
  obtain ⟨-, -, -, -, -, -, hcalls⟩ := admit?_eq ha
  let taken := (h₁.deliver t ⟨k, h.ceiling t⟩ (.guard slot)).into t (.returned .done)
  have htake : waiting.move? (.step t default) = some taken := by
    have hcurrent : waiting.calls.current? t = some (.waiting k (h.ceiling t) (.hold (.guard slot))) := by
      simp [waiting, into]
    simp [move?, step?, hcurrent, ha, proceed, taken]
  have hend : taken.move? (.collect t) = some (taken.collect t) := by
    simp [move?, answer?, taken, into]
  refine ⟨taken.collect t, ?_, returnable_of_admitted (h := waiting) ha rfl rfl ?_⟩
  · simp only [Move.taking, run?, hstart, hwait, htake, hend, Option.bind_some]
  · have hof : (taken.collect t).calls.current? t = h.calls.current? t := by
      rw [collect, Calls.current?_finish, if_pos rfl, ← Calls.head?_of h.calls t]
      simp [taken, into, deliver, setSlot, setStanding, hcalls, waiting, asking]
    rw [isFree, hof]
    exact hfree

end

/-! ## A rejected drop -/

/-- The lock of rank `r` is the thread's, whose ceiling is not above it, and no other thread gets it: a call that asks
for it waits, or is refused at once if the caller itself has a lock that is not above it. -/
structure Stranded (h : Hierarchy α) (t : ThreadId) (l : LockId) (r : Rank) : Prop where
  holder : h.holder? l = some t
  rank : h.rank l = r
  ceiling : h.ceiling t ≤ r
  ungranted : ∀ u previous, h.admit? u l previous = none
  waits : ∀ u, h.WaitsAt u l → u ≠ t ∧ ∀ env, h.step? env u = none
  lock : ∀ u p inHand, h.approach u l p inHand = h.into u (if r < h.ceiling u then .waiting l (h.ceiling u) p
    else .releasing inHand (.violated ⟨.acquire, r, h.ceiling u⟩))
  tryLock : ∀ u aim, h.tryLock u l aim =
    (h, if r < h.ceiling u then .flag false else .violated ⟨.acquire, r, h.ceiling u⟩)

/-- The lock is the thread's and is not released: whatever gives up a guard of it is refused. -/
structure Kept (h : Hierarchy α) (t : ThreadId) (k : LockId) : Prop where
  holder : h.holder? k = some t
  unlock : ∀ slot x, x.lock = k → h.unlock t slot x =
    (h.setSlot t slot (.refused ⟨.release, h.rank k, h.ceiling t⟩ x), .violated ⟨.release, h.rank k, h.ceiling t⟩)
  unlockHandle : ∀ slot j x, j.guard = some x → x.lock = k →
    h.unlockHandle t slot j = (h, .violated ⟨.release, h.rank k, h.ceiling t⟩)
  drop : ∀ x rest a, x.lock = k → h.dropNext t (x :: rest) a = h.into t (.releasing rest
    (if a.isPanic then a else .panicked (Violation.message ⟨.release, h.rank k, h.ceiling t⟩)))

/-- What the thread took after the lock lies further in, and can be released in order: at the end of a call, or by
deeds, as far as the guards are in slots. -/
structure Releasable (h : Hierarchy α) (t : ThreadId) (l : LockId) (held : List Guard) : Prop where
  split : ∃ inner x outer, held = inner ++ x :: outer ∧ x.lock = l ∧
    (∀ y ∈ inner, h.rank y.lock < h.rank l) ∧ (∀ y ∈ outer, h.rank l < h.rank y.lock) ∧
    (∀ y rest a, inner.head? = some y →
      h.dropNext t (y :: rest) a = (h.release t y a.isPanic).into t (.releasing rest a)) ∧
    ∀ first others ds, inner = first ++ others → h.isFree t = true → List.Forall₂ (h.ReleasedBy t) first ds →
      ∃ h', h.performAll? t ds = some (h', ds.map fun _ => .done) ∧ h'.ceiling t = h.innermost (others ++ x :: outer) ∧
        ∀ k, h'.holder? k = if k ∈ first.map Guard.lock then none else h.holder? k

/-- The thread can take any free lock below its ceiling, without and with waiting, and release it again. -/
def Acquires (h : Hierarchy α) (t : ThreadId) : Prop :=
  ∀ k slot, h.isFree t = true → h.slot? t slot = none → k < h.locks.length → h.holder? k = none →
    h.rank k < h.ceiling t →
      (∃ h₁, h.perform? t (.tryLock k (.guard slot)) = some (h₁, .flag true) ∧ Returnable t k slot h h₁) ∧
      ∃ h₁, run? move? h (Move.taking t k slot) = some h₁ ∧ Returnable t k slot h h₁

section
variable {h h' : Hierarchy α} {t : ThreadId} {l k : LockId}

theorem Reachable.stranded (hr : h.Reachable) (hl : h.holder? l = some t) : h.Stranded t l (h.rank l) where
  holder := hl
  rank := rfl
  ceiling := (hr.ceiling_le_rank hl).1
  ungranted u previous := admit?_of_held hl u previous
  waits u hw := by
    refine ⟨fun hu => ?_, fun env => ?_⟩
    · exact Nat.lt_irrefl _ (rank_waited_lt hr hw (hu ▸ hl))
    · obtain ⟨previous, p, hw⟩ := hw
      simp only [step?, hw, admit?_of_held hl, Option.map_none]
  lock u p inHand := by
    unfold approach checkAcquire
    by_cases hc : h.rank l < h.ceiling u
    · rw [if_neg (Nat.not_le_of_lt hc), if_pos hc]
    · rw [if_pos (Nat.le_of_not_lt hc), if_neg hc]
  tryLock u aim := by
    unfold Hierarchy.tryLock checkAcquire
    by_cases hc : h.rank l < h.ceiling u
    · simp only [if_neg (Nat.not_le_of_lt hc), if_pos hc, admit?_of_held hl]
    · rw [if_pos (Nat.le_of_not_lt hc), if_neg hc]

theorem Reachable.kept (hr : h.Reachable) (hl : h.holder? l = some t) (hk : h.holder? k = some t)
    (hlt : h.rank l < h.rank k) : h.Kept t k := by
  have refused {x : Guard} (hx : x.lock = k) : h.checkRelease t x = .error ⟨.release, h.rank k, h.ceiling t⟩ := by
    subst hx
    exact if_neg (Nat.ne_of_lt (Nat.lt_of_le_of_lt (hr.ceiling_le_rank hl).1 hlt))
  refine ⟨hk, fun slot x hx => ?_, fun slot j x hj hx => ?_, fun x rest a hx => ?_⟩
  · simp only [Hierarchy.unlock, refused hx]
  · simp only [Hierarchy.unlockHandle, hj, refused hx]
  · simp only [dropNext, refused hx]

theorem Record.Sound.releasable {r : Record α} (hs : r.Sound) (hl : r.state.holder? l = some t) :
    r.state.Releasable t l (r.held t) where
  split := by
    obtain ⟨x, hx, rfl⟩ := List.mem_map.mp ((hs.holds t l).mp hl)
    obtain ⟨inner, outer, hheld⟩ := List.append_of_mem hx
    have hlinked := hheld ▸ hs.linked t
    have hranks := hlinked.increasing
    rw [List.map_append, List.map_cons, List.pairwise_append, List.pairwise_cons] at hranks
    obtain ⟨-, ⟨houter, -⟩, hinner⟩ := hranks
    refine ⟨inner, x, outer, hheld, rfl, fun y hy => ?_, fun y hy => ?_, fun y rest a hy => ?_,
      fun first others ds hinner hfree hds => ?_⟩
    · exact hinner _ (List.mem_map_of_mem hy) _ List.mem_cons_self
    · exact houter _ (List.mem_map_of_mem hy)
    · obtain ⟨inner', rfl⟩ : ∃ inner', inner = y :: inner' := List.head?_eq_some_iff.mp hy
      simp only [dropNext, checkRelease_of_eq hlinked.1]
    · rw [hinner, List.append_assoc] at hlinked
      exact hlinked.releases hfree hds

theorem acquires (h : Hierarchy α) (t : ThreadId) : h.Acquires t := fun _ _ hfree hslot hlt hnone hrank =>
  ⟨tryLock_returnable hfree hslot hlt hnone hrank, lock_returnable hfree hslot hlt hnone hrank⟩

end

/-- While a lock is stuck, its rank stays, and what the thread has further out it keeps. -/
theorem Ledger.Reachable.stuck_lasts {g g' : Ledger α} (hg : g.Reachable) {t : ThreadId} {l : LockId}
    (hs : g.state.tenancy l = .stuck t) (hl : Leads Ledger.next? g g') :
    g'.state.holder? l = some t ∧ g'.state.rank l = g.state.rank l ∧
      ∀ k, g.state.holder? k = some t → g.state.rank l < g.state.rank k →
        g'.state.holder? k = some t ∧ g'.state.rank k = g.state.rank k := by
  obtain ⟨c, hc⟩ := content?_of_holder? (of_tenancy_stuck hs).1
  induction hl with
  | refl => exact ⟨(of_tenancy_stuck hs).1, rfl, fun k hk _ => ⟨hk, rfl⟩⟩
  | @tail g₁ _ w hl hn ih =>
    obtain ⟨m, h', hw, hm, rfl⟩ := next?_eq hn
    obtain ⟨hholder, hrank, houter⟩ := ih
    have hr := (hg.leads hl).state
    obtain ⟨_, -, haccount⟩ := hg.stuck_leads (account_eq_some.mpr ⟨hc, hs⟩) (hl.tail w hn)
    refine ⟨(of_tenancy_stuck (account_eq_some.mp haccount).2).1, (hr.rank_move hm hholder).trans hrank,
      fun k hk hlt => ?_⟩
    obtain ⟨hk, hrk⟩ := houter k hk hlt
    refine ⟨hr.keeps_outer hm hholder hk ?_, (hr.rank_move hm hk).trans hrk⟩
    rw [hrank, hrk]
    exact hlt

theorem Ledger.Reachable.waits_leads {g g' : Ledger α} (hg : g.Reachable) {t u : ThreadId} {l : LockId}
    (hs : g.state.tenancy l = .stuck t) (hw : g.state.WaitsAt u l) (hl : Leads Ledger.next? g g') :
    g'.state.WaitsAt u l := by
  induction hl with
  | refl => exact hw
  | tail w hl hn ih =>
    obtain ⟨m, h', -, hm, rfl⟩ := next?_eq hn
    exact (hg.leads hl).state.waits_move hm (hg.stuck_lasts hs hl).1 ih

/-- How things stand with a lock of the thread whose guard has been dropped out of order in the first state, in a
later one. -/
structure Ledger.Forsaken (g g' : Ledger α) (t : ThreadId) (l : LockId) : Prop where
  stranded : g'.state.Stranded t l (g.state.rank l)
  /-- Whoever waits for the lock does so for good. -/
  waits : ∀ u, g'.state.WaitsAt u l → ∀ g'', Leads next? g' g'' → g''.state.WaitsAt u l
  outer : ∀ k, g.state.holder? k = some t → g.state.rank l < g.state.rank k → g'.state.Kept t k
  inner : ∀ r : Record α, r.Reachable → r.state = g'.state → g'.state.Releasable t l (r.held t)
  acquires : g'.state.Acquires t
  /-- The lock protects what it did, but for changes by those who have had it to themselves, -/
  content : ∃ fs : List (α → α), g'.log l = g.log l ++ [.abandoned t .dropped] ++ fs.map (fun f => .borrowed (.element f)) ∧
    ∀ v, g.state.element? l = some v → g'.state.element? l = some (fs.foldl (fun v f => f v) v)
  /-- and whoever has it to himself now has that. -/
  borrow : ∀ v, g'.state.element? l = some v → g'.state.isUsed l = false → ∀ f,
    ∃ g'', g'.next? (.amend l f) = some g'' ∧ g''.state.element? l = some (f v)

theorem Ledger.amend (g : Ledger α) {l : LockId} {v : α} (hv : g.state.element? l = some v)
    (hunused : g.state.isUsed l = false) (f : α → α) :
    ∃ g', g.next? (.amend l f) = some g' ∧ g'.state.element? l = some (f v) := by
  refine ⟨g.after (.amend l f) (.borrow l (f v)) (g.state.setContent l (.element (f v))), ?_, ?_⟩
  · simp [next?, Work.move?, hv, move?, hunused, setElement?]
  · refine element?_of_content? ?_
    show (g.state.setContent l _).content? l = _
    rw [content?_setContent, if_pos rfl, element?_eq_some hv, Option.map_some]

section
variable {g g₀ : Ledger α} {t : ThreadId} {x : Guard} {env : Environment}

/-- What is booked of the drop: the lock is stuck, and nothing else has changed. -/
theorem RefusesDrop.booked (hd : g.state.RefusesDrop t x) (hg : g.Reachable)
    (hn : g.next? (.move (.step t env)) = some g₀) : g₀.state.tenancy x.lock = .stuck t ∧
      g₀.state.locks = g.state.locks ∧ g₀.state.threads = g.state.threads ∧
      (∀ u, u ≠ t → g₀.state.phases u = g.state.phases u) ∧
      g₀.log x.lock = g.log x.lock ++ [.abandoned t .dropped] := by
  obtain ⟨m, h', hw, hm, rfl⟩ := Ledger.next?_eq hn
  cases hw
  obtain ⟨hstuck, hlogs⟩ := hd.stuck hg.state hm
  obtain ⟨hlocks, hthreads⟩ := hd.step hm
  refine ⟨hstuck, hlocks, hthreads, fun u hu => ?_, ?_⟩
  · exact (hg.state.others hm fun he => hu (Option.some.inj he).symm).2.2
  · have hholder : g.state.holder? x.lock = some t :=
      (holder?_congr hlocks x.lock).symm.trans (of_tenancy_stuck hstuck).1
    obtain ⟨c, hc⟩ := content?_of_holder? hholder
    obtain ⟨rest, a, v, hcall, -⟩ := hd
    have hchanges : g.state.changes (.move (.step t env)) (.step t env) x.lock = [] := by
      simp only [changes, Work.edit?, edit?, rebinding?, hcall]
    show g.log x.lock ++ g.state.entries _ _ h' x.lock = _
    rw [hlogs.entries hc, hchanges]
    rfl

/-- **A rejected drop is permanent and contained.** It changes no lock, no ceiling and no other thread, and the lock,
with those that the thread has further out, is out of use in every state that any run leads to from there. -/
theorem rejected_drop_permanent (hg : g.Reachable) (hd : g.state.RefusesDrop t x)
    (hn : g.next? (.move (.step t env)) = some g₀) :
    (∀ k, g₀.state.holder? k = g.state.holder? k ∧ g₀.state.content? k = g.state.content? k) ∧
    (∀ u, g₀.state.ceiling u = g.state.ceiling u) ∧
    (∀ u, u ≠ t → g₀.state.owned u = g.state.owned u ∧ g₀.state.phases u = g.state.phases u) ∧
    ∀ g', Leads Ledger.next? g₀ g' → g.Forsaken g' t x.lock := by
  obtain ⟨hstuck, hlocks, hthreads, hphases, hlog⟩ := hd.booked hg hn
  have hstanding (u : ThreadId) : g₀.state.standing u = g.state.standing u := by rw [standing, hthreads, standing]
  have hholder := holder?_congr hlocks
  have hrank (k : LockId) : g₀.state.rank k = g.state.rank k := by rw [rank, hlocks, rank]
  refine ⟨fun k => ⟨hholder k, content?_congr hlocks⟩, fun u => congrArg Standing.ceiling (hstanding u),
    fun u hu => ⟨owned_congr (by rw [hstanding]) (hphases u hu), hphases u hu⟩, fun g' hl => ?_⟩
  have hg₀ : g₀.Reachable := hg.tail _ hn
  have hr := (hg₀.leads hl).state
  obtain ⟨hheld, hrank', houter⟩ := hg₀.stuck_lasts hstuck hl
  obtain ⟨c, hc⟩ := content?_of_holder? (of_tenancy_stuck hstuck).1
  obtain ⟨fs, hlog', haccount⟩ := hg₀.stuck_leads (account_eq_some.mpr ⟨hc, hstuck⟩) hl
  obtain ⟨hc', hstuck'⟩ := account_eq_some.mp haccount
  have hlater : g'.state.rank x.lock = g.state.rank x.lock := hrank'.trans (hrank _)
  refine ⟨hlater ▸ hr.stranded hheld, fun u hw g'' hl' => (hg₀.leads hl).waits_leads hstuck' hw hl', fun k hk hlt => ?_,
    ?_, acquires _ _, ⟨fs, hlog ▸ hlog', fun v hv => ?_⟩, fun v hv hunused f => g'.amend hv hunused f⟩
  · rw [← hrank, ← hrank] at hlt
    obtain ⟨hk', hrk⟩ := houter k ((hholder k).trans hk) hlt
    exact hr.kept hheld hk' (by rwa [hrank', hrk])
  · rintro r hrecord hstate
    rw [← hstate] at hheld ⊢
    exact hrecord.sound.releasable hheld
  · have helement := (content?_congr hlocks).trans (element?_eq_some hv)
    obtain rfl := Option.some.inj (hc.symm.trans helement)
    rw [Content.after_element] at hc'
    exact element?_of_content? hc'

end

/-- A thread with three locks is about to drop the guard of the middle one, and another waits for that. -/
def droppingTheMiddle : List (Work Nat) :=
  [.addLock 20 0, .addLock 10 7, .addLock 5 0].map .move ++
  (Move.taking 1 0 "outer" ++ Move.taking 1 1 "middle" ++ Move.taking 1 2 "inner").map .move ++
  [.start 2 (.lock 1 (.guard "middle")), .step 2 default, .start 1 (.drop ["middle"] none), .step 1 default].map .move

theorem rejected_drop_permanent_dropping_the_middle : ∃ g g₀ g' : Ledger Nat, g.Reachable ∧
    g.state.RefusesDrop 1 ⟨1, 20⟩ ∧ g.next? (.move (.step 1 default)) = some g₀ ∧ Leads Ledger.next? g₀ g' ∧
      g'.state.WaitsAt 2 1 ∧ g'.state.holder? 2 = none ∧ g'.state.ceiling 1 = 10 ∧ g.Forsaken g' 1 1 := by
  let later : List (Work Nat) := [.step 1 default, .collect 1, .perform 1 (.unlock "inner")].map .move
  let sees (g : Ledger Nat) := (g.state.calls.current? 1, g.state.checkRelease 1 ⟨1, 20⟩)
  let seesLater (g : Ledger Nat) := (g.state.calls.current? 2, g.state.holder? 2, g.state.ceiling 1)
  have hrun : (run? Ledger.next? {} droppingTheMiddle).map sees =
      some (some (.releasing [⟨1, 20⟩] .done), .error ⟨.release, 10, 5⟩) := by rfl
  have hlater : (run? Ledger.next? {} droppingTheMiddle).bind (fun g => (g.next? (.move (.step 1 default))).bind
      fun g₀ => (run? Ledger.next? g₀ later).map seesLater) =
        some (some (.waiting 1 Rank.unbounded (.hold (.guard "middle"))), none, 10) := by rfl
  obtain ⟨g, hg, hsees⟩ := Option.map_eq_some_iff.mp hrun
  rw [hg, Option.bind_some] at hlater
  obtain ⟨g₀, hn, hlater⟩ := Option.bind_eq_some_iff.mp hlater
  obtain ⟨g', hl, hseesLater⟩ := Option.map_eq_some_iff.mp hlater
  obtain ⟨hcall, hcheck⟩ := Prod.mk.injEq .. ▸ hsees
  simp only [seesLater, Prod.mk.injEq] at hseesLater
  obtain ⟨hwaits, hinner, hceiling⟩ := hseesLater
  have hg : g.Reachable := Leads.refl.run _ hg
  have hd : g.state.RefusesDrop 1 ⟨1, 20⟩ := ⟨[], .done, _, hcall, hcheck⟩
  have hl : Leads Ledger.next? g₀ g' := Leads.refl.run _ hl
  exact ⟨g, g₀, g', hg, hd, hn, hl, ⟨_, _, hwaits⟩, hinner, hceiling, (rejected_drop_permanent hg hd hn).2.2.2 g' hl⟩

/-- A thread drops the outer of two locks out of order; another takes a lock of lower rank, and then it is refused
the outer one, instead of finding it busy or waiting for it. -/
def refusedForItsOwnRank : List (Work Nat) :=
  [.addLock 10 0, .addLock 5 0, .addLock 3 0].map .move ++
  (Move.taking 1 0 "outer" ++ Move.taking 1 1 "inner").map .move ++
  [.start 1 (.drop ["outer"] none), .step 1 default].map .move

theorem busy_only_above_rank : ∃ g g₀ g' : Ledger Nat, g.Reachable ∧ g.state.RefusesDrop 1 ⟨0, Rank.unbounded⟩ ∧
    g.next? (.move (.step 1 default)) = some g₀ ∧ Leads Ledger.next? g₀ g' ∧
      (g'.state.perform? 2 (.tryLock 0 (.guard "outer"))).map Prod.snd = some (.violated ⟨.acquire, 10, 3⟩) := by
  have hrun : (run? Ledger.next? {} refusedForItsOwnRank).map
      (fun g => (g.state.calls.current? 1, g.state.checkRelease 1 ⟨0, Rank.unbounded⟩)) =
        some (some (.releasing [⟨0, Rank.unbounded⟩] .done), .error ⟨.release, 10, 5⟩) := by rfl
  have hlater : (run? Ledger.next? {} refusedForItsOwnRank).bind (fun g => (g.next? (.move (.step 1 default))).bind
      fun g₀ => (run? Ledger.next? g₀ ((Move.taking 2 2 "low").map .move)).map fun g' =>
        (g'.state.perform? 2 (.tryLock 0 (.guard "outer"))).map Prod.snd) =
          some (some (.violated ⟨.acquire, 10, 3⟩)) := by rfl
  obtain ⟨g, hg, hsees⟩ := Option.map_eq_some_iff.mp hrun
  rw [hg, Option.bind_some] at hlater
  obtain ⟨g₀, hn, hlater⟩ := Option.bind_eq_some_iff.mp hlater
  obtain ⟨g', hl, hrefused⟩ := Option.map_eq_some_iff.mp hlater
  obtain ⟨hcall, hcheck⟩ := Prod.mk.injEq .. ▸ hsees
  exact ⟨g, g₀, g', Leads.refl.run _ hg, ⟨[], .done, _, hcall, hcheck⟩, hn, Leads.refl.run _ hl, hrefused⟩

end Interlock.Hierarchy
