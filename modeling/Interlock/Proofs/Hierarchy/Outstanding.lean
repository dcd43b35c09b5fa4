import Interlock.Proofs.Hierarchy.Shifts

/-!
# The acquisitions outstanding

`Record.Sound`: the acquisitions that a thread has not released are linked from its ceiling on. The ceiling is the
rank of the latest, each has displaced the rank of the one before it, and the first has displaced none. What the
record has of a thread is what the mutexes say that it holds, and it covers all guards of the thread.
-/

namespace Interlock.Hierarchy

variable {α : Type}

/-! ## Linked lists of guards -/

/-- From the ceiling on, each guard has the rank that is due and displaced the rank due next. -/
def Linked (h : Hierarchy α) : Rank → List Guard → Prop
  | c, [] => c = Rank.unbounded
  | c, g :: gs => c = h.rank g.lock ∧ c < g.previous ∧ Linked h g.previous gs

def innermost (h : Hierarchy α) : List Guard → Rank
  | [] => Rank.unbounded
  | g :: _ => h.rank g.lock

section Linked
variable {h h' : Hierarchy α}

theorem Linked.eq_innermost {c : Rank} {gs : List Guard} (hl : h.Linked c gs) : c = h.innermost gs := by
  cases gs with
  | nil => exact hl
  | cons g gs => exact hl.1

theorem Linked.le : ∀ {c : Rank} {gs : List Guard}, h.Linked c gs → c ≤ Rank.unbounded
  | _, [], hl => Nat.le_of_eq hl
  | _, _ :: _, ⟨_, hlt, hl⟩ => Nat.le_trans (Nat.le_of_lt hlt) hl.le

theorem Linked.rank_mem : ∀ {c : Rank} {gs : List Guard}, h.Linked c gs → ∀ g ∈ gs,
    c ≤ h.rank g.lock ∧ h.rank g.lock < Rank.unbounded
  | c, g :: gs, ⟨hc, hlt, hl⟩, x, hx => by
    rcases List.mem_cons.mp hx with rfl | hx
    · exact ⟨Nat.le_of_eq hc, hc ▸ Nat.lt_of_lt_of_le hlt hl.le⟩
    · obtain ⟨hge, hub⟩ := hl.rank_mem x hx
      exact ⟨Nat.le_trans (Nat.le_of_lt hlt) hge, hub⟩

theorem Linked.increasing : ∀ {c : Rank} {gs : List Guard}, h.Linked c gs →
    (gs.map fun g => h.rank g.lock).Pairwise (· < ·)
  | _, [], _ => List.Pairwise.nil
  | c, g :: gs, ⟨hc, hlt, hl⟩ => by
    refine List.Pairwise.cons ?_ hl.increasing
    intro r hr
    obtain ⟨x, hx, rfl⟩ := List.mem_map.mp hr
    calc h.rank g.lock = c := hc.symm
      _ < g.previous := hlt
      _ ≤ h.rank x.lock := (hl.rank_mem x hx).1

theorem Linked.nodup {c : Rank} {gs : List Guard} (hl : h.Linked c gs) :
    (gs.map Guard.lock).Nodup := by
  have := hl.increasing
  rw [List.pairwise_map] at this
  rw [List.Nodup, List.pairwise_map]
  exact this.imp fun hab he => by rw [he] at hab; exact Nat.lt_irrefl _ hab

theorem Linked.previous : ∀ {c : Rank} {inner : List Guard} {g : Guard} {outer : List Guard},
    h.Linked c (inner ++ g :: outer) → g.previous = h.innermost outer
  | _, [], _, _, ⟨_, _, hl⟩ => hl.eq_innermost
  | _, _ :: inner, g, outer, ⟨_, _, hl⟩ =>
    have hl : h.Linked _ (inner ++ g :: outer) := hl
    hl.previous

theorem Linked.eq_cons {c : Rank} {gs : List Guard} (hl : h.Linked c gs) {g : Guard} (hg : g ∈ gs)
    (hc : c = h.rank g.lock) : ∃ outer, gs = g :: outer := by
  cases gs with
  | nil => cases hg
  | cons x gs =>
    obtain ⟨-, hlt, hl⟩ := hl
    rcases List.mem_cons.mp hg with rfl | hg
    · exact ⟨gs, rfl⟩
    · exact absurd hc (Nat.ne_of_lt (Nat.lt_of_lt_of_le hlt (hl.rank_mem g hg).1))

theorem Linked.congr (hr : ∀ l, h.rank l < Rank.unbounded → h'.rank l = h.rank l) :
    ∀ {c : Rank} {gs : List Guard}, h.Linked c gs → h'.Linked c gs
  | _, [], hl => hl
  | _, g :: gs, ⟨hc, hlt, hl⟩ =>
    ⟨by rw [hr g.lock (hc ▸ Nat.lt_of_lt_of_le hlt hl.le)]; exact hc, hlt, hl.congr hr⟩

end Linked

/-! ## How the record is revised -/

theorem filter_range_eq {n l : Nat} {p : Nat → Bool} (hl : l < n) (hp : ∀ k, p k = true ↔ k = l) :
    (List.range n).filter p = [l] := by
  have : p = (· == l) := by
    funext k
    rw [Bool.eq_iff_iff, hp, beq_iff_eq]
  rw [this, List.filter_beq, List.count_eq_one_of_mem List.nodup_range (List.mem_range.mpr hl)]
  rfl

section Revise
variable {h h' : Hierarchy α} {t : ThreadId} {held : List Guard}

theorem filter_held (hk : ∀ g ∈ held, h'.holder? g.lock = some t) :
    held.filter (fun g => h'.holder? g.lock = some t) = held := by
  rw [List.filter_eq_self]
  intro g hg
  simp [hk g hg]

theorem filter_new (hn : ∀ l, h'.holder? l = some t → h.holder? l = some t) :
    (List.range h'.locks.length).filter (fun l => h.holder? l ≠ some t ∧ h'.holder? l = some t) = [] := by
  rw [List.filter_eq_nil_iff]
  intro l _
  simp only [decide_eq_true_eq, not_and]
  exact fun hl he => hl (hn l he)

theorem revise_keep (hn : ∀ l, h'.holder? l = some t → h.holder? l = some t)
    (hk : ∀ g ∈ held, h'.holder? g.lock = some t) : revise h h' t held = held := by
  rw [revise, filter_new hn, filter_held hk]
  rfl

theorem revise_push {l : LockId} (hl : h.holder? l = none)
    (hn : ∀ k, h'.holder? k = if l = k then some t else h.holder? k)
    (hk : ∀ g ∈ held, h'.holder? g.lock = some t) :
    revise h h' t held = ⟨l, h.ceiling t⟩ :: held := by
  have hlt : l < h'.locks.length := lt_of_holder? (t := t) (by simp [hn])
  rw [revise, filter_held hk, filter_range_eq hlt fun k => ?_]
  · rfl
  · rw [decide_eq_true_iff, hn]
    by_cases hlk : l = k
    · subst hlk; simp [hl]
    · simp [hlk, Ne.symm hlk]

theorem revise_pop {g : Guard} {gs : List Guard}
    (hn : ∀ l, h'.holder? l = some t → h.holder? l = some t) (hg : h'.holder? g.lock ≠ some t)
    (hk : ∀ x ∈ gs, h'.holder? x.lock = some t) : revise h h' t (g :: gs) = gs := by
  rw [revise, filter_new hn, List.filter_cons_of_neg (by simpa using hg), filter_held hk]
  rfl

end Revise

/-! ## The invariant -/

namespace Record

structure Sound (r : Record α) : Prop where
  linked : ∀ t, r.state.Linked (r.state.ceiling t) (r.held t)
  holds : ∀ t l, r.state.holder? l = some t ↔ l ∈ (r.held t).map Guard.lock
  listed : ∀ t, r.state.owned t ≤ (r.held t : Multiset Guard)
  poised : ∀ t, r.state.Poised t

def after (r : Record α) (h' : Hierarchy α) : Record α := ⟨h', fun u => revise r.state h' u (r.held u)⟩

section
variable {r r' : Record α} {h' : Hierarchy α} {t : ThreadId} {g : Guard} {l : LockId}

theorem sound_start : Sound ({} : Record α) where
  linked _ := rfl
  holds t l := by simp [holder?]
  listed _ := Multiset.zero_le _
  poised t p rest hp := by simp [phases, Calls.of] at hp

theorem Sound.holder (hs : r.Sound) (hg : g ∈ r.held t) : r.state.holder? g.lock = some t :=
  (hs.holds t g.lock).mpr (List.mem_map_of_mem hg)

theorem Sound.lock_ne_of_free (hs : r.Sound) (hl : r.state.holder? l = none) (hg : g ∈ r.held t) : l ≠ g.lock := by
  rintro rfl
  rw [hs.holder hg] at hl
  cases hl

/-! ### What is recorded of a move -/

theorem Sound.held_keep (hs : r.Sound) (hh : ∀ l, h'.holder? l = r.state.holder? l) :
    revise r.state h' t (r.held t) = r.held t :=
  revise_keep (fun l hl => by rwa [hh] at hl) fun g hg => by rw [hh, hs.holder hg]

/-- The acquisition of a lock comes before those outstanding. -/
theorem Sound.held_take (hs : r.Sound) (hl : r.state.holder? l = none)
    (hh : ∀ k, h'.holder? k = if l = k then some t else r.state.holder? k) :
    (r.after h').held = Function.update r.held t (⟨l, r.state.ceiling t⟩ :: r.held t) := by
  have still {u : ThreadId} {x : Guard} (hx : x ∈ r.held u) : h'.holder? x.lock = some u := by
    rw [hh, if_neg (hs.lock_ne_of_free hl hx), hs.holder hx]
  funext u
  show revise r.state h' u (r.held u) = _
  by_cases hu : u = t
  · subst hu
    rw [Function.update_self]
    exact revise_push hl hh fun _ => still
  · rw [Function.update_of_ne hu]
    refine revise_keep (fun k hk => ?_) fun _ => still
    rw [hh] at hk
    split at hk
    · exact absurd (Option.some.inj hk).symm hu
    · exact hk

/-- The innermost acquisition is released. -/
theorem Sound.held_free (hs : r.Sound) {gs : List Guard} (hgs : r.held t = g :: gs)
    (hh : ∀ k, h'.holder? k = if g.lock = k then none else r.state.holder? k) :
    (r.after h').held = Function.update r.held t gs := by
  have hold {u : ThreadId} (k : LockId) (hk : h'.holder? k = some u) : r.state.holder? k = some u := by
    rw [hh] at hk
    split at hk
    · cases hk
    · exact hk
  funext u
  show revise r.state h' u (r.held u) = _
  by_cases hu : u = t
  · subst hu
    have hnodup := (hs.linked u).nodup
    rw [hgs, List.map_cons, List.nodup_cons] at hnodup
    rw [Function.update_self, hgs]
    refine revise_pop hold (by simp [hh]) fun x hx => ?_
    have hne : g.lock ≠ x.lock := fun he => hnodup.1 (he ▸ List.mem_map_of_mem hx)
    rw [hh, if_neg hne]
    exact hs.holder (hgs ▸ List.mem_cons_of_mem g hx)
  · rw [Function.update_of_ne hu]
    refine revise_keep hold fun x hx => ?_
    have hx := hs.holder hx
    have hne : g.lock ≠ x.lock := by
      intro he
      rw [← he, hs.holder (t := t) (hgs ▸ List.mem_cons_self)] at hx
      exact hu (Option.some.inj hx).symm
    rw [hh, if_neg hne, hx]

/-- What is released in order is the innermost acquisition. -/
theorem Sound.held_eq_cons (hs : r.Sound) (hg : g ∈ r.state.owned t) (hc : r.state.ceiling t = r.state.rank g.lock) :
    ∃ gs, r.held t = g :: gs :=
  (hs.linked t).eq_cons (Multiset.mem_of_le (hs.listed t) hg) hc

/-! ### Each move keeps it -/

theorem Sound.holds_after (hs : r.Sound) (h' : Hierarchy α) (u : ThreadId) (l : LockId) :
    h'.holder? l = some u ↔ l ∈ ((r.after h').held u).map Guard.lock := by
  show _ ↔ l ∈ (revise r.state h' u (r.held u)).map Guard.lock
  simp only [revise, List.map_append, List.map_map, List.mem_append, List.mem_map, List.mem_filter,
    List.mem_range, decide_eq_true_eq, Function.comp_apply]
  constructor
  · intro hl
    by_cases hold : r.state.holder? l = some u
    · obtain ⟨g, hg, rfl⟩ := List.mem_map.mp ((hs.holds u l).mp hold)
      exact .inr ⟨g, ⟨hg, hl⟩, rfl⟩
    · exact .inl ⟨l, ⟨lt_of_holder? hl, hold, hl⟩, rfl⟩
  · rintro (⟨k, ⟨-, -, hk⟩, rfl⟩ | ⟨g, ⟨-, hg⟩, rfl⟩)
    · exact hk
    · exact hg

theorem Sound.shift (hs : r.Sound) (shift : Shift t r.state h') (hp : ∀ u, h'.Poised u) {gs : List Guard}
    (hheld : (r.after h').held = Function.update r.held t gs) (hlinked : h'.Linked (h'.ceiling t) gs)
    (hlisted : h'.owned t ≤ (gs : Multiset Guard)) : (r.after h').Sound := by
  refine ⟨fun u => ?_, hs.holds_after h', fun u => ?_, hp⟩
  · rw [hheld, Function.update_apply]
    split
    · rename_i hu
      exact hu ▸ hlinked
    · rename_i hu
      exact ((shift.others (Ne.symm hu)).1 ▸ hs.linked u).congr fun l => shift.rank
  · rw [hheld, Function.update_apply]
    split
    · rename_i hu
      exact hu ▸ hlisted
    · rename_i hu
      exact (shift.others (Ne.symm hu)).2.1.le.trans (hs.listed u)

theorem Sound.keep (hs : r.Sound) {lost : Multiset Guard} (hq : Quiet t 0 lost r.state h') (hp : ∀ u, h'.Poised u) :
    (r.after h').Sound := by
  have hheld : (r.after h').held = Function.update r.held t (r.held t) := by
    rw [Function.update_eq_self]
    exact funext fun u => hs.held_keep hq.holder
  refine hs.shift (.keep lost hq) hp hheld ((hq.ceiling t ▸ hs.linked t).congr hq.rank) ?_
  calc h'.owned t ≤ h'.owned t + lost := Multiset.le_add_right _ _
    _ = r.state.owned t := by rw [hq.owned, add_zero]
    _ ≤ r.held t := hs.listed t

theorem Sound.push (hs : r.Sound) {h₁ : Hierarchy α} {lost : Multiset Guard}
    (ha : r.state.admit? t l (r.state.ceiling t) = some (h₁, g)) (hl : r.state.rank l < r.state.ceiling t)
    (hq : Quiet t {g} lost h₁ h') (hp : ∀ u, h'.Poised u) : (r.after h').Sound := by
  have shift : Shift t r.state h' := .take l h₁ g lost ha hl hq
  have ho := (admit?_keeps ha t).1
  obtain ⟨rfl, hfree, -, hholder, hceiling, -⟩ := admit?_eq ha
  have hheld : (r.after h').held = Function.update r.held t (⟨l, r.state.ceiling t⟩ :: r.held t) :=
    hs.held_take hfree fun k => by rw [hq.holder, hholder]
  refine hs.shift shift hp hheld ?_ ?_
  · have hlt := Nat.lt_of_lt_of_le hl (hs.linked t).le
    have hc : h'.ceiling t = r.state.rank l := by rw [hq.ceiling, hceiling, if_pos rfl]
    exact ⟨hc.trans (shift.rank hlt).symm, lt_of_eq_of_lt hc hl, (hs.linked t).congr fun k => shift.rank⟩
  · rw [← Multiset.cons_coe, ← Multiset.singleton_add, add_comm]
    calc h'.owned t ≤ h'.owned t + lost := Multiset.le_add_right _ _
      _ = r.state.owned t + {⟨l, r.state.ceiling t⟩} := by rw [hq.owned, ho]
      _ ≤ (r.held t : Multiset Guard) + {⟨l, r.state.ceiling t⟩} := by gcongr; exact hs.listed t

theorem Sound.pop (hs : r.Sound) {b : Bool} (hc : r.state.ceiling t = r.state.rank g.lock)
    (hq : Quiet t 0 {g} (r.state.release t g b) h') (hp : ∀ u, h'.Poised u) : (r.after h').Sound := by
  have howned := hq.owned_released
  obtain ⟨gs, hgs⟩ := hs.held_eq_cons (g := g) (by simp [← howned]) hc
  have hheld : (r.after h').held = Function.update r.held t gs :=
    hs.held_free hgs fun k => by rw [hq.holder, holder?_release]
  refine hs.shift (.free g b hc hq) hp hheld ?_ ?_
  · have hlinked := hs.linked t
    rw [hgs] at hlinked
    obtain ⟨-, -, hlinked⟩ := hlinked
    have hc' : h'.ceiling t = g.previous := by rw [hq.ceiling, ceiling_release, if_pos rfl]
    exact (hc' ▸ hlinked).congr fun l hl => by rw [hq.rank l (by rwa [rank_release]), rank_release]
  · have hle := hs.listed t
    rw [← howned, hgs, ← Multiset.cons_coe, ← Multiset.singleton_add, add_comm _ (gs : Multiset Guard)] at hle
    exact (add_le_add_iff_right {g}).mp hle

theorem Sound.next {m : Move α} (hs : r.Sound) (hn : r.next? m = some r') : r'.Sound := by
  obtain ⟨h', hm, rfl⟩ := Option.map_eq_some_iff.mp hn
  obtain ⟨t, shift, hp⟩ := move_shift (fun u => (hs.linked u).le) hs.poised hm
  cases shift with
  | keep lost hq => exact hs.keep hq hp
  | take l h₁ g lost ha hl hq => exact hs.push ha hl hq hp
  | free g b hc hq => exact hs.pop hc hq hp

theorem Reachable.sound (hr : r.Reachable) : r.Sound := by
  induction hr with
  | refl => exact sound_start
  | tail m _ hn ih => exact ih.next hn

end

end Record

end Interlock.Hierarchy
